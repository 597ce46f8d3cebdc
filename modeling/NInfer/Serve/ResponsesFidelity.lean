import NInfer.Serve.ResponsesStream

/-!
# The event stream against the terminal response

A client that follows the events should end up with the output array of the terminal response.
`Faithful` says what that takes: gapless sequence numbers, a terminal event at the end, and items
that `Mirrors` the output.  `respond_faithful_iff` says for which deltas and outcomes the stream is
faithful.

The proof follows the two items that deltas open, the reasoning and the message.  `Tracks` says
what the stream keeps of them; each of its steps opens one of them, sends a piece or closes it
(`Moves`), and `finish` closes what it finds open, in order, as far as the outcome has an item for
it.
-/

namespace NInfer.Serve

open ResponsesEventStream Payload

variable {L : Type}

/-! ## What a client reads -/

/-- What a payload says about the items. -/
def Payload.mark? : Payload L → Option (Mark ItemId (Item L) Char)
  | .outputItemAdded index item => some (.opens index item.id)
  | .reasoningTextDelta _ index delta => some (.piece index delta)
  | .outputTextDelta _ index delta _ => some (.piece index delta)
  | .functionCallArgumentsDelta _ index delta => some (.piece index delta)
  | .outputItemDone index item => some (.closes index item)
  | _ => none

/-- The response of a terminal event. -/
def Payload.terminal? : Payload L → Option (ResponseBody L)
  | .completed response => some response
  | .incomplete response => some response
  | .cancelled response => some response
  | .failed response => some response
  | _ => none

/-- The events tell the client what the terminal response says. -/
structure Faithful (events : List (Event L)) (response : ResponseBody L) : Prop where
  numbered : events.map (·.sequenceNumber) = List.range events.length
  ended : ∃ before last, events = before ++ [last] ∧ last.payload.terminal? = some response ∧
    ∀ event ∈ before, event.payload.terminal? = none
  mirrors : Mirrors Item.id Item.text (events.filterMap (·.payload.mark?)) response.output

/-! ## Requests -/

/-- The deltas that were streamed: reasoning first, then content with its logprob entries. -/
structure Deltas (L : Type) where
  reasoning : List Text
  content : List (Text × List L)

namespace Deltas

variable (d : Deltas L)

def reasoningText : Text := d.reasoning.flatten

def contentText : Text := (d.content.map (·.1)).flatten

/-- The deltas are a prefix of the outcome, and content comes after all of the reasoning. -/
structure Streams (outcome : GenerationOutcome L) : Prop where
  reasoning : d.reasoningText <+: outcome.reasoning
  content : d.contentText <+: outcome.text
  whole : d.content ≠ [] → d.reasoningText = outcome.reasoning

/-- The streamed reasoning is nothing or all of it.  A content delta that sends something is
followed by an outcome with text, or by one without tool calls whose reasoning is not cut off. -/
structure Agree (outcome : GenerationOutcome L) : Prop where
  reasoning : d.reasoningText = [] ∨ d.reasoningText = outcome.reasoning
  content : (∃ delta ∈ d.content, delta.1 ≠ [] ∨ delta.2 ≠ []) →
    outcome.text ≠ [] ∨ outcome.toolCalls = [] ∧ (outcome.reasoning = [] ∨
      outcome.finishReason ∉ [.outputLimit, .contextCapacity, .cancelled])

end Deltas

namespace ResponsesEventStream

def sendReasoning (s : ResponsesEventStream) :
    List Text → Except String (ResponsesEventStream × List (Event L))
  | [] => pure (s, [])
  | text :: texts => do
    let (s, events) ← s.reasoningDelta text
    let (s, rest) ← s.sendReasoning texts
    pure (s, events ++ rest)

def sendContent (s : ResponsesEventStream) :
    List (Text × List L) → Except String (ResponsesEventStream × List (Event L))
  | [] => pure (s, [])
  | (text, logprobs) :: deltas => do
    let (s, events) ← s.contentDelta text logprobs
    let (s, rest) ← s.sendContent deltas
    pure (s, events ++ rest)

end ResponsesEventStream

/-- All events of a request, and its terminal response. -/
def respond (setup : ResponseSetup) (d : Deltas L) (outcome : GenerationOutcome L) :
    Except String (List (Event L) × ResponseBody L) := do
  let s : ResponsesEventStream := { setup }
  let (s, started) ← s.start
  let (s, reasoning) ← s.sendReasoning d.reasoning
  let (s, content) ← s.sendContent d.content
  let (s, finished, response) ← s.finish outcome
  let (_, ended) ← s.terminal response
  pure (started ++ reasoning ++ content ++ finished ++ ended, response)

/-! ## Emission -/

/-- Events with consecutive numbers, none of them terminal, and what they say about the items. -/
structure Emits (n n' : ℕ) (events : List (Event L)) (marks : List (Mark ItemId (Item L) Char)) :
    Prop where
  numbers : events.map (·.sequenceNumber) = List.range' n events.length
  next : n' = n + events.length
  marks : events.filterMap (·.payload.mark?) = marks
  ordinary : ∀ event ∈ events, event.payload.terminal? = none

namespace Emits

variable {n n' n'' : ℕ} {events events' : List (Event L)}
  {marks marks' : List (Mark ItemId (Item L) Char)}

lemma nil : Emits n n ([] : List (Event L)) [] where
  numbers := rfl
  next := rfl
  marks := rfl
  ordinary _ h := absurd h List.not_mem_nil

lemma append (h : Emits n n' events marks) (h' : Emits n' n'' events' marks') :
    Emits n n'' (events ++ events') (marks ++ marks') where
  numbers := by
    rw [List.map_append, h.numbers, h'.numbers, h.next, List.length_append, List.range'_append_1]
  next := by
    rw [h'.next, h.next, List.length_append, Nat.add_assoc]
  marks := by
    rw [List.filterMap_append, h.marks, h'.marks]
  ordinary event hevent := by
    rcases List.mem_append.mp hevent with hevent | hevent
    · exact h.ordinary event hevent
    · exact h'.ordinary event hevent

/-- The events of one call. -/
lemma number {payloads : List (Payload L)} (n : ℕ)
    (hordinary : ∀ payload ∈ payloads, payload.terminal? = none := by simp [terminal?]) :
    Emits n (n + payloads.length) (number n payloads) (payloads.filterMap (·.mark?)) := by
  induction payloads generalizing n with
  | nil => exact nil
  | cons payload payloads ih =>
    have hrest := ih (n + 1) fun p hp => hordinary p (List.mem_cons_of_mem _ hp)
    constructor
    · simp only [NInfer.Serve.number, List.map_cons, List.length_cons, List.range'_succ,
        hrest.numbers]
    · rw [NInfer.Serve.number, List.length_cons, List.length_cons, ← Nat.add_assoc,
        Nat.add_right_comm, hrest.next]
      omega
    · simp only [NInfer.Serve.number, List.filterMap_cons, hrest.marks]
    · intro event hevent
      rcases List.mem_cons.mp hevent with rfl | hevent
      · exact hordinary payload List.mem_cons_self
      · exact hrest.ordinary event hevent

end Emits

/-- The marks of an item. -/
abbrev ItemBlock (L : Type) : Type := Block ItemId (Item L) Char

/-- A call that sends what the second list of blocks has more than the first. -/
def Sends (s : ResponsesEventStream) (blocks blocks' : List (ItemBlock L))
    (result : ResponsesEventStream × List (Event L)) : Prop :=
  result.1.setup = s.setup ∧ ∃ marks, Emits s.sequence result.1.sequence result.2 marks ∧
    blockMarks 0 blocks' = blockMarks 0 blocks ++ marks

namespace Sends

variable {s : ResponsesEventStream} {blocks blocks' blocks'' : List (ItemBlock L)}
  {x y : ResponsesEventStream × List (Event L)}

lemma refl : Sends s blocks blocks (s, []) := ⟨rfl, [], Emits.nil, (List.append_nil _).symm⟩

lemma trans (h : Sends s blocks blocks' x) (h' : Sends x.1 blocks' blocks'' y) :
    Sends s blocks blocks'' (y.1, x.2 ++ y.2) := by
  obtain ⟨hsetup, marks, hemits, hblocks⟩ := h
  obtain ⟨hsetup', marks', hemits', hblocks'⟩ := h'
  refine ⟨hsetup'.trans hsetup, marks ++ marks', hemits.append hemits', ?_⟩
  rw [hblocks', hblocks, List.append_assoc]

end Sends

/-! ## The reasoning item and the message -/

/-- The item of texts that were sent; the first of them opened it. -/
def textBlock (id : ItemId) (pieces : List Text) (final : Option (Item L)) :
    Option (ItemBlock L) :=
  if pieces = [] then none else some ⟨id, pieces, final⟩

/-- What the stream keeps of one of the two items. -/
structure Kept (kind : String) (position : ℕ) (block : Option (ItemBlock L)) (started done : Bool)
    (index : ℕ) (id : ItemId) (text : Text) : Prop where
  isSome : started = block.isSome
  closed : done = block.any (·.final.isSome)
  item : ∀ b ∈ block, index = position ∧ id = b.id ∧ id.kind = kind
  spelled : done = false → text = (block.elim [] (·.pieces)).flatten

/-- The item stays the same while its text grows or it is closed. -/
lemma Kept.update {kind : String} {position index : ℕ} {b b' : ItemBlock L}
    {started done done' : Bool} {id : ItemId} {text text' : Text}
    (h : Kept kind position (some b) started done index id text) (hid : b'.id = b.id)
    (hclosed : done' = b'.final.isSome) (hspelled : done' = false → text' = b'.pieces.flatten) :
    Kept kind position (some b') started done' index id text' := by
  refine ⟨h.isSome, hclosed, fun c hc => ?_, hspelled⟩
  cases hc
  rw [hid]
  exact h.item b rfl

/-- The state of the stream when it has opened these items, before `finish` or in it. -/
structure Tracks (s : ResponsesEventStream) (finishing : Bool) (r m : Option (ItemBlock L)) :
    Prop where
  started : s.started = true
  finishBuilt : s.finishBuilt = finishing
  terminalEmitted : s.terminalEmitted = false
  functionCalls : s.ids.functionCalls = []
  next : s.nextOutputIndex = r.toList.length + m.toList.length
  reasoning : Kept "rs" 0 r s.reasoningStarted s.reasoningDone s.reasoningIndex s.ids.reasoning
    s.reasoningText
  message : Kept "msg" r.toList.length m s.messageStarted s.messageDone s.messageIndex
    s.ids.message s.contentText

/-- A call that takes the stream from some items to others and sends the marks between them. -/
def Moves (s : ResponsesEventStream) (finishing : Bool) (r m r' m' : Option (ItemBlock L))
    (result : ResponsesEventStream × List (Event L)) : Prop :=
  Tracks result.1 finishing r' m' ∧ Sends s (r.toList ++ m.toList) (r'.toList ++ m'.toList) result

variable {s : ResponsesEventStream} {setup : ResponseSetup} {outcome : GenerationOutcome L}

section Items

variable {finishing : Bool} {r r' r'' m m' m'' : Option (ItemBlock L)} {id : ItemId}
  {pieces : List Text} {text : Text} {status : ItemStatus}

namespace Moves

variable {x y : ResponsesEventStream × List (Event L)}

lemma refl (h : Tracks s finishing r m) : Moves s finishing r m r m (s, []) := ⟨h, Sends.refl⟩

lemma trans (h : Moves s finishing r m r' m' x) (h' : Moves x.1 finishing r' m' r'' m'' y) :
    Moves s finishing r m r'' m'' (y.1, x.2 ++ y.2) :=
  ⟨h'.1, h.2.trans h'.2⟩

end Moves

namespace Tracks

lemma ensureReasoning (h : Tracks (L := L) s finishing (textBlock id pieces none) none) :
    ∃ id', Moves (L := L) s finishing (textBlock id pieces none) none (some ⟨id', pieces, none⟩)
      none s.ensureReasoning := by
  by_cases hpieces : pieces = []
  · subst hpieces
    rw [ResponsesEventStream.ensureReasoning, if_neg (by simp [h.reasoning.isSome, textBlock])]
    refine ⟨s.newResponseItemId "rs", { h with
      next := by simp [event, h.next, textBlock]
      reasoning := ⟨rfl, h.reasoning.closed, fun b hb => ?_, h.reasoning.spelled⟩
      message := { h.message with item := nofun } }, rfl, _, Emits.number _, ?_⟩
    · cases hb
      exact ⟨h.next, rfl, rfl⟩
    · simp [mark?, textBlock, h.next, Item.id, blockMarks, Block.marks]
  · rw [textBlock, if_neg hpieces] at h ⊢
    rw [ResponsesEventStream.ensureReasoning, if_pos (by exact h.reasoning.isSome)]
    exact ⟨id, .refl h⟩

lemma ensureMessage (h : Tracks s finishing r (textBlock id pieces none)) :
    ∃ id', Moves s finishing r (textBlock id pieces none) r (some ⟨id', pieces, none⟩)
      s.ensureMessage := by
  by_cases hpieces : pieces = []
  · subst hpieces
    rw [ResponsesEventStream.ensureMessage, if_neg (by simp [h.message.isSome, textBlock])]
    refine ⟨s.newResponseItemId "msg", { h with
      next := by simp [event, h.next, textBlock]
      message := ⟨rfl, h.message.closed, fun b hb => ?_, h.message.spelled⟩ }, rfl, _,
      Emits.number _, ?_⟩
    · cases hb
      exact ⟨h.next, rfl, rfl⟩
    · simp [mark?, textBlock, h.next, Item.id, blockMarks_open]
  · rw [textBlock, if_neg hpieces] at h ⊢
    rw [ResponsesEventStream.ensureMessage, if_pos (by exact h.message.isSome)]
    exact ⟨id, .refl h⟩

lemma reasoningPiece {whole : Text}
    (h : Tracks (L := L) s finishing (some ⟨id, pieces, none⟩) none) (text : Text)
    (hwhole : whole = pieces.flatten ++ text) :
    Moves (L := L) s finishing (some ⟨id, pieces, none⟩) none (some ⟨id, pieces ++ [text], none⟩)
      none ({ s with reasoningText := whole }.event
        [.reasoningTextDelta s.ids.reasoning s.reasoningIndex text]) := by
  obtain ⟨hindex, -⟩ := h.reasoning.item _ rfl
  refine ⟨{ h with
    reasoning := h.reasoning.update rfl h.reasoning.closed fun _ => by simp [event, hwhole] }, rfl,
    _, Emits.number _, ?_⟩
  simp [mark?, hindex, blockMarks, Block.marks]

lemma messagePiece (h : Tracks s finishing r (some ⟨id, pieces, none⟩)) (text : Text)
    (logprobs : List L) :
    Moves s finishing r (some ⟨id, pieces, none⟩) r (some ⟨id, pieces ++ [text], none⟩)
      ({ s with contentText := s.contentText ++ text }.event
        [.outputTextDelta s.ids.message s.messageIndex text logprobs]) := by
  obtain ⟨hindex, -⟩ := h.message.item _ rfl
  refine ⟨{ h with
    message := h.message.update rfl h.message.closed fun hopen => by
      simp [event, h.message.spelled hopen] }, rfl, _, Emits.number _, ?_⟩
  simp [mark?, hindex, blockMarks_piece]

lemma closeReasoning (h : Tracks (L := L) s finishing (some ⟨id, pieces, none⟩) none) :
    Moves (L := L) s finishing (some ⟨id, pieces, none⟩) none
      (some ⟨id, pieces, some (.reasoning id status [text])⟩) none
      (s.closeReasoning text status) := by
  obtain ⟨hindex, hid, -⟩ := h.reasoning.item _ rfl
  rw [ResponsesEventStream.closeReasoning,
    if_neg (by simp [h.reasoning.isSome, h.reasoning.closed])]
  refine ⟨{ h with reasoning := h.reasoning.update rfl rfl nofun }, rfl, _, Emits.number _, ?_⟩
  simp [mark?, hindex, hid, blockMarks, Block.marks]

lemma closeReasoning_of_closed (h : Tracks s finishing r m)
    (hclosed : ∀ b ∈ r, b.final.isSome = true) :
    s.closeReasoning text status = (s, ([] : List (Event L))) := by
  refine if_pos ?_
  rw [h.reasoning.isSome, h.reasoning.closed]
  cases r with
  | none => exact .inl rfl
  | some b => exact .inr (hclosed b rfl)

lemma closeMessage {logprobs : List L} (h : Tracks s finishing r (some ⟨id, pieces, none⟩))
    (hsetup : s.setup = setup) :
    Moves s finishing r (some ⟨id, pieces, none⟩) r
      (some ⟨id, pieces, some (.message id status [outputTextPart setup text logprobs])⟩)
      (s.closeMessage text logprobs status) := by
  subst hsetup
  obtain ⟨hindex, hid, -⟩ := h.message.item _ rfl
  rw [ResponsesEventStream.closeMessage,
    if_neg (by simp [h.message.isSome, h.message.closed])]
  refine ⟨{ h with message := h.message.update rfl rfl nofun }, rfl, _, Emits.number _, ?_⟩
  simp [mark?, hindex, hid, blockMarks_close]

end Tracks

/-! ### Deltas -/

/-- A delta that sends something. -/
def effective (delta : Text × List L) : Bool := delta.1 ≠ [] ∨ delta.2 ≠ []

lemma textBlock_append (final : Option (Item L)) :
    textBlock id (pieces ++ [text]) final = some ⟨id, pieces ++ [text], final⟩ :=
  if_neg (by simp)

lemma reasoningDelta_moves (h : Tracks (L := L) s false (textBlock id pieces none) none)
    (text : Text) :
    Succeeds (s.reasoningDelta text) fun result => ∃ id', Moves (L := L) s false
      (textBlock id pieces none) none
      (textBlock id' (pieces ++ [text].filter (· ≠ [])) none) none result := by
  refine (Succeeds.refuse (by simp [h.started, h.finishBuilt])).bind fun _ _ => ?_
  by_cases htext : text = []
  · subst htext
    rw [List.filter_cons_of_neg (by simp), List.filter_nil, List.append_nil]
    exact .pure ⟨id, .refl h⟩
  · rw [if_neg htext, List.filter_cons_of_pos (by simpa using htext), List.filter_nil]
    obtain ⟨id', hopened⟩ := h.ensureReasoning
    have hpiece := hopened.1.reasoningPiece text
      (congrArg (· ++ text) (hopened.1.reasoning.spelled hopened.1.reasoning.closed))
    refine .pure ⟨id', ?_⟩
    rw [textBlock_append]
    exact hopened.trans hpiece

lemma sendReasoning_moves (id : ItemId) (pieces : List Text)
    (h : Tracks (L := L) s false (textBlock id pieces none) none) (texts : List Text) :
    Succeeds (s.sendReasoning texts) fun result => ∃ id', Moves (L := L) s false
      (textBlock id pieces none) none
      (textBlock id' (pieces ++ texts.filter (· ≠ [])) none) none result := by
  induction texts generalizing s id pieces with
  | nil =>
    rw [List.filter_nil, List.append_nil]
    exact .pure ⟨id, .refl h⟩
  | cons text texts ih =>
    refine (reasoningDelta_moves h text).bind fun _ ⟨id', hfirst⟩ => ?_
    refine (ih _ _ hfirst.1).bind fun _ ⟨id'', hrest⟩ => ?_
    rw [List.append_assoc, ← List.filter_append] at hrest
    exact .pure ⟨id'', hfirst.trans hrest⟩

/-- The reasoning item after all deltas: the first content delta closed it. -/
def reasoningBlock (id : ItemId) (reasoning content : List Text) : Option (ItemBlock L) :=
  textBlock id reasoning
    (if content = [] then none else some (.reasoning id .completed [reasoning.flatten]))

variable {rid mid : ItemId} {reasoning content : List Text}

lemma closeReasoning_content (h : Tracks (L := L) s false (reasoningBlock rid reasoning content)
      (textBlock mid content none)) :
    Moves (L := L) s false (reasoningBlock rid reasoning content) (textBlock mid content none)
      (textBlock rid reasoning (some (.reasoning rid .completed [reasoning.flatten])))
      (textBlock mid content none) (s.closeReasoning s.reasoningText .completed) := by
  by_cases hopen : content = [] ∧ reasoning ≠ []
  · obtain ⟨rfl, hreasoning⟩ := hopen
    simp only [reasoningBlock, textBlock, if_pos, if_neg hreasoning] at h ⊢
    rw [← show s.reasoningText = reasoning.flatten from h.reasoning.spelled h.reasoning.closed]
    exact h.closeReasoning
  · have hclosed : reasoningBlock rid reasoning content = textBlock rid reasoning
        (some (.reasoning (L := L) rid .completed [reasoning.flatten])) := by
      by_cases hcontent : content = []
      · obtain rfl : reasoning = [] := by tauto
        rfl
      · rw [reasoningBlock, if_neg hcontent]
    rw [hclosed] at h ⊢
    rw [h.closeReasoning_of_closed]
    · exact .refl h
    · intro b hb
      unfold textBlock at hb
      split at hb
      · cases hb
      · cases hb
        rfl

lemma contentDelta_moves (h : Tracks (L := L) s false (reasoningBlock rid reasoning content)
      (textBlock mid content none)) (delta : Text × List L) :
    Succeeds (s.contentDelta delta.1 delta.2) fun result => ∃ mid', Moves s false
      (reasoningBlock rid reasoning content) (textBlock mid content none)
      (reasoningBlock rid reasoning (content ++ ([delta].filter effective).map (·.1)))
      (textBlock mid' (content ++ ([delta].filter effective).map (·.1)) none) result := by
  obtain ⟨text, logprobs⟩ := delta
  refine (Succeeds.refuse (by simp [h.started, h.finishBuilt])).bind fun _ _ => ?_
  by_cases heffective : text = [] ∧ logprobs = []
  · obtain ⟨rfl, rfl⟩ := heffective
    refine .pure ⟨mid, ?_⟩
    simpa [effective] using Moves.refl h
  · rw [if_neg heffective,
      List.filter_cons_of_pos (by simpa [effective, imp_iff_not_or] using heffective)]
    have hclosed := closeReasoning_content h
    obtain ⟨mid', hopened⟩ := hclosed.1.ensureMessage
    have hblock : reasoningBlock rid reasoning (content ++ [text]) = textBlock rid reasoning
        (some (.reasoning (L := L) rid .completed [reasoning.flatten])) := by simp [reasoningBlock]
    refine .pure ⟨mid', ?_⟩
    rw [List.filter_nil, List.map_cons, List.map_nil, textBlock_append, hblock]
    exact (hclosed.trans hopened).trans (hopened.1.messagePiece text logprobs)

lemma sendContent_moves (mid : ItemId) (content : List Text)
    (h : Tracks (L := L) s false (reasoningBlock rid reasoning content)
      (textBlock mid content none)) (deltas : List (Text × List L)) :
    Succeeds (s.sendContent deltas) fun result => ∃ mid', Moves s false
      (reasoningBlock rid reasoning content) (textBlock mid content none)
      (reasoningBlock rid reasoning (content ++ (deltas.filter effective).map (·.1)))
      (textBlock mid' (content ++ (deltas.filter effective).map (·.1)) none) result := by
  induction deltas generalizing s mid content with
  | nil =>
    rw [List.filter_nil, List.map_nil, List.append_nil]
    exact .pure ⟨mid, .refl h⟩
  | cons delta deltas ih =>
    refine (contentDelta_moves h delta).bind fun _ ⟨mid', hfirst⟩ => ?_
    refine (ih _ _ hfirst.1).bind fun _ ⟨mid'', hrest⟩ => ?_
    rw [List.append_assoc, ← List.map_append, ← List.filter_append] at hrest
    exact .pure ⟨mid'', hfirst.trans hrest⟩

/-! ## `finish` -/

/-- The reasoning item that `finish` closes. -/
def finalReasoning (outcome : GenerationOutcome L) (id : ItemId) (pieces : List Text) :
    ItemBlock L :=
  ⟨id, pieces, some (.reasoning id (reasoningStatus outcome) [outcome.reasoning])⟩

/-- The message item that `finish` closes. -/
def finalMessage (setup : ResponseSetup) (outcome : GenerationOutcome L) (id : ItemId)
    (pieces : List Text) : ItemBlock L :=
  ⟨id, pieces, some (.message id (itemStatus outcome.finishReason)
    [outputTextPart setup outcome.text outcome.contentLogprobs])⟩

/-- A needed message item is opened if no delta did so, completed and closed. -/
lemma finishMessage_needed (h : Tracks s true r (textBlock mid content none))
    (hneeded : needsMessage outcome) (hpre : content.flatten <+: outcome.text) :
    Succeeds (s.finishMessage outcome) fun result =>
      ∃ mid' pieces, pieces.flatten = outcome.text ∧
        Moves s true r (textBlock mid content none) r
          (some (finalMessage s.setup outcome mid' pieces)) result := by
  obtain ⟨mid', hopened⟩ := h.ensureMessage
  rw [finishMessage, if_pos hneeded]
  generalize s.ensureMessage = result at hopened ⊢
  obtain ⟨s₁, opened⟩ := result
  simp only []
  have htext : s₁.contentText = content.flatten :=
    hopened.1.message.spelled hopened.1.message.closed
  have hmatches : ¬(outcome.text ≠ s₁.contentText ∧ ¬s₁.contentText.isPrefixOf outcome.text) := by
    simp [htext, hpre]
  refine (Succeeds.refuse hmatches).bind fun _ _ => ?_
  obtain ⟨rest, hrest⟩ := hpre
  by_cases hsuffix : outcome.text ≠ s₁.contentText ∧
      outcome.text.drop s₁.contentText.length ≠ []
  · rw [if_pos hsuffix]
    have hpiece := hopened.1.messagePiece (outcome.text.drop s₁.contentText.length) []
    exact .pure ⟨mid', _, by simp [htext, ← hrest],
      (hopened.trans hpiece).trans (hpiece.1.closeMessage (hpiece.2.1.trans hopened.2.1))⟩
  · rw [if_neg hsuffix]
    have hnil : rest = [] := by
      by_contra hne
      apply hsuffix
      simp [htext, ← hrest, hne]
    exact .pure ⟨mid', _, by simp [← hrest, hnil],
      (hopened.trans (.refl hopened.1)).trans (hopened.1.closeMessage hopened.2.1)⟩

/-! ### Tool calls -/

def callItem (id : ItemId) (call : ToolCall) : Item L :=
  .functionCall id .completed call.id call.name call.argumentsJson

/-- The item of a tool call, sent in one turn of the loop. -/
def callBlock (id : ItemId) (call : ToolCall) : ItemBlock L :=
  ⟨id, if call.argumentsJson ≠ [] then [call.argumentsJson] else [], some (callItem id call)⟩

lemma callBlock_spells (id : ItemId) (call : ToolCall) :
    (callBlock (L := L) id call).Spells Item.id Item.text (callItem id call) := by
  refine ⟨rfl, rfl, ?_⟩
  by_cases h : call.argumentsJson = []
  · simp [callBlock, callItem, Item.text, h]
  · simp [callBlock, callItem, Item.text, h]

lemma sendCall_spec {blocks : List (ItemBlock L)}
    (hnext : s.nextOutputIndex = blocks.length) (call : ToolCall) :
    ∃ s' events id, s.sendCall call = (s', events) ∧ id.kind = "fc" ∧
      s'.ids = { s.ids with functionCalls := s.ids.functionCalls ++ [id] } ∧
      s'.finishBuilt = s.finishBuilt ∧ s'.terminalEmitted = s.terminalEmitted ∧
      s'.nextOutputIndex = (blocks ++ [callBlock (L := L) id call]).length ∧
      Sends s blocks (blocks ++ [callBlock id call]) (s', events) := by
  refine ⟨_, _, s.newResponseItemId "fc", rfl, rfl, rfl, rfl, rfl, by simp [hnext], rfl, _,
    Emits.number _ ?_, ?_⟩
  · by_cases h : call.argumentsJson = []
    · simp [h, terminal?]
    · simp [h, terminal?]
  · rw [blockMarks_append]
    by_cases h : call.argumentsJson = []
    · simp [h, mark?, callBlock, callItem, blockMarks, Block.marks, hnext, Item.id]
    · simp [h, mark?, callBlock, callItem, blockMarks, Block.marks, hnext, Item.id]

lemma sendCalls_spec {blocks : List (ItemBlock L)}
    (hnext : s.nextOutputIndex = blocks.length) (calls : List ToolCall) :
    ∃ s' events ids, s.sendCalls calls = (s', events) ∧ ids.length = calls.length ∧
      (∀ id ∈ ids, id.kind = "fc") ∧
      s'.ids = { s.ids with functionCalls := s.ids.functionCalls ++ ids } ∧
      s'.finishBuilt = s.finishBuilt ∧ s'.terminalEmitted = s.terminalEmitted ∧
      Sends s blocks (blocks ++ List.zipWith (callBlock (L := L)) ids calls) (s', events) := by
  induction calls generalizing s blocks with
  | nil =>
    refine ⟨s, [], [], rfl, rfl, by simp, by simp, rfl, rfl, ?_⟩
    rw [List.zipWith_nil_left, List.append_nil]
    exact Sends.refl
  | cons call calls ih =>
    obtain ⟨s₁, events, id, hcall, hkind, hids, hbuilt, hended, hnext₁, hsends⟩ :=
      sendCall_spec hnext call
    obtain ⟨s₂, rest, ids, hcalls, hlength, hkinds, hids₂, hbuilt₂, hended₂, hsends₂⟩ := ih hnext₁
    refine ⟨s₂, events ++ rest, id :: ids, ?_, by simp [hlength], ?_, ?_, hbuilt₂.trans hbuilt,
      hended₂.trans hended, ?_⟩
    · rw [sendCalls, hcall]
      simp only [hcalls]
    · intro id' hid'
      rcases List.mem_cons.mp hid' with rfl | hid'
      · exact hkind
      · exact hkinds id' hid'
    · simp [hids₂, hids]
    · rw [List.append_assoc] at hsends₂
      exact hsends.trans hsends₂

/-! ### The output array -/

/-- The reasoning item of the terminal response. -/
def reasoningItems (outcome : GenerationOutcome L) (id : ItemId) : List (Item L) :=
  if outcome.reasoning ≠ [] then [.reasoning id (reasoningStatus outcome) [outcome.reasoning]]
  else []

/-- The message item of the terminal response. -/
def messageItems (setup : ResponseSetup) (outcome : GenerationOutcome L) (id : ItemId) :
    List (Item L) :=
  if needsMessage outcome then
    [.message id (itemStatus outcome.finishReason)
      [outputTextPart setup outcome.text outcome.contentLogprobs]]
  else []

lemma orDrawn_of_kind {kind : String} {drawn : ℕ} {id : ItemId} (h : id.kind ≠ "") :
    orDrawn setup kind drawn id = id := by
  rw [orDrawn, if_neg]
  rintro rfl
  exact h rfl

/-- `build_response` keeps the ids of the items that the stream has opened. -/
lemma outputItems_eq {drawn : ℕ} {ids : ItemIds} (rid mid : ItemId)
    (hreasoning : outcome.reasoning ≠ [] → ids.reasoning = rid ∧ rid.kind = "rs")
    (hmessage : needsMessage outcome → ids.message = mid ∧ mid.kind = "msg")
    (hlength : ids.functionCalls.length = outcome.toolCalls.length)
    (hcalls : ∀ id ∈ ids.functionCalls, id.kind = "fc") :
    outputItems setup drawn outcome ids = reasoningItems outcome rid ++
      (messageItems setup outcome mid ++
        List.zipWith callItem ids.functionCalls outcome.toolCalls) := by
  rw [outputItems, ← List.append_assoc]
  congr 1
  · congr 1
    · unfold reasoningItems
      by_cases h : outcome.reasoning ≠ []
      · obtain ⟨hid, hkind⟩ := hreasoning h
        rw [if_pos h, if_pos h, hid, orDrawn_of_kind (by simp [hkind])]
      · rw [if_neg h, if_neg h]
    · unfold messageItems
      by_cases h : needsMessage outcome
      · obtain ⟨hid, hkind⟩ := hmessage h
        rw [if_pos h, if_pos h, hid, orDrawn_of_kind (by simp [hkind])]
      · rw [if_neg h, if_neg h]
  · refine List.ext_getElem (by simp [hlength]) fun i hi hi' => ?_
    have hid : i < ids.functionCalls.length := by
      simp only [List.length_zipWith] at hi'
      omega
    have hkind := hcalls _ (List.getElem_mem hid)
    simp only [List.getElem_map, List.getElem_zipIdx, List.getElem_zipWith, Nat.zero_add]
    rw [List.getD_eq_getElem?_getD, List.getElem?_eq_getElem hid, orDrawn_of_kind (by simp [hkind])]
    rfl

lemma callBlocks_spell (ids : List ItemId) (calls : List ToolCall) :
    List.Forall₂ (Block.Spells Item.id Item.text)
      (List.zipWith (callBlock (L := L)) ids calls) (List.zipWith callItem ids calls) := by
  induction ids generalizing calls with
  | nil => exact .nil
  | cons id ids ih =>
    rcases calls with _ | ⟨call, calls⟩
    · exact .nil
    · exact .cons (callBlock_spells id call) (ih calls)

lemma messageBlocks_spell (hneeded : needsMessage outcome) (hpieces : pieces.flatten = outcome.text)
    (ids : List ItemId) :
    List.Forall₂ (Block.Spells Item.id Item.text)
      ([finalMessage setup outcome mid pieces] ++ List.zipWith callBlock ids outcome.toolCalls)
      (messageItems setup outcome mid ++ List.zipWith callItem ids outcome.toolCalls) := by
  rw [messageItems, if_pos hneeded]
  refine .cons ⟨rfl, rfl, ?_⟩ (callBlocks_spell ids _)
  simp [finalMessage, Item.text, outputTextPart, hpieces]

/-- Without a message item in the output, no message may be open. -/
lemma openBlocks_spell_iff (hunneeded : ¬needsMessage outcome) (ids : List ItemId) :
    List.Forall₂ (Block.Spells Item.id Item.text)
      ((textBlock mid content none).toList ++ List.zipWith callBlock ids outcome.toolCalls)
      (messageItems setup outcome mid ++ List.zipWith callItem ids outcome.toolCalls) ↔
      content = [] := by
  rw [messageItems, if_neg hunneeded]
  by_cases hcontent : content = []
  · rw [textBlock, if_pos hcontent]
    exact ⟨fun _ => hcontent, fun _ => callBlocks_spell ids _⟩
  · rw [textBlock, if_neg hcontent]
    refine ⟨fun h => ?_, fun h => absurd h hcontent⟩
    -- The first item would have to close the open message.
    obtain ⟨item, items, hopen, -, -⟩ := List.forall₂_cons_left_iff.mp h
    cases hopen.final

/-! ### All of `finish` -/

/-- The reasoning item that was sent agrees with that of the response exactly if `P` holds. -/
structure ReasoningAgrees (outcome : GenerationOutcome L) (rid : ItemId)
    (done : Option (ItemBlock L)) (P : Prop) : Prop where
  opened : outcome.reasoning ≠ [] → ∃ b ∈ done, b.id = rid
  agrees : ∀ blocks items, List.Forall₂ (Block.Spells Item.id Item.text) (done.toList ++ blocks)
    (reasoningItems outcome rid ++ items) ↔
      P ∧ List.Forall₂ (Block.Spells Item.id Item.text) blocks items

namespace ReasoningAgrees

lemma of_iff {done : Option (ItemBlock L)} {P Q : Prop} (h : ReasoningAgrees outcome rid done P)
    (hiff : P ↔ Q) : ReasoningAgrees outcome rid done Q :=
  propext hiff ▸ h

lemma empty (h : outcome.reasoning = []) : ReasoningAgrees outcome rid none True where
  opened hne := absurd h hne
  agrees blocks items := by simp [reasoningItems, h]

lemma single {final : Option (Item L)} {P : Prop} (h : outcome.reasoning ≠ [])
    (hspells : Block.Spells Item.id Item.text ⟨rid, pieces, final⟩
      (.reasoning rid (reasoningStatus outcome) [outcome.reasoning]) ↔ P) :
    ReasoningAgrees outcome rid (some ⟨rid, pieces, final⟩) P where
  opened _ := ⟨_, rfl, rfl⟩
  agrees blocks items := by
    rw [reasoningItems, if_pos h, Option.toList_some, List.singleton_append, List.singleton_append,
      List.forall₂_cons, hspells]

lemma final (h : outcome.reasoning ≠ []) :
    ReasoningAgrees outcome rid (some (finalReasoning outcome rid pieces))
      (pieces.flatten = outcome.reasoning) := by
  refine single h ⟨fun hspells => ?_, fun hpieces => ⟨rfl, rfl, ?_⟩⟩
  · simpa [Item.text] using hspells.text
  · simpa [Item.text] using hpieces

/-- A content delta closed the item as completed. -/
lemma closed (h : outcome.reasoning ≠ []) (hpieces : pieces.flatten = outcome.reasoning) :
    ReasoningAgrees outcome rid (some ⟨rid, pieces, some (.reasoning rid .completed
      [pieces.flatten])⟩) (reasoningStatus outcome = .completed) := by
  refine single h ⟨fun hspells => ?_, fun hstatus => ⟨?_, rfl, ?_⟩⟩
  · have hfinal := hspells.final
    simp only [Option.some.injEq, Item.reasoning.injEq] at hfinal
    exact hfinal.2.1.symm
  · simp [hstatus, hpieces]
  · simp [Item.text, hpieces]

end ReasoningAgrees

lemma finishReasoning_of_closed (h : Tracks s finishing r m)
    (hclosed : ∀ b ∈ r, b.final.isSome = true) (hnone : r = none → outcome.reasoning = []) :
    s.finishReasoning outcome = (s, []) := by
  have hopened : ¬(outcome.reasoning ≠ [] ∧ s.reasoningStarted = false) := by
    rintro ⟨hne, hfresh⟩
    rw [h.reasoning.isSome] at hfresh
    exact hne (hnone (by simpa using hfresh))
  rw [finishReasoning, if_neg hopened]
  simp only [h.closeReasoning_of_closed hclosed, List.append_nil]

/-- `finish` on the reasoning item, after all deltas. -/
lemma finishReasoning_moves (h : Tracks (L := L) s true (reasoningBlock rid reasoning content)
      (textBlock mid content none))
    (hpre : reasoning.flatten <+: outcome.reasoning) (hpieces : ∀ piece ∈ reasoning, piece ≠ [])
    (hwhole : content ≠ [] → reasoning.flatten = outcome.reasoning) :
    ∃ rid' done, Moves s true (reasoningBlock rid reasoning content) (textBlock mid content none)
        done (textBlock mid content none) (s.finishReasoning outcome) ∧
      ReasoningAgrees outcome rid' done
        ((reasoning = [] ∨ reasoning.flatten = outcome.reasoning) ∧
          (content ≠ [] → outcome.reasoning = [] ∨ reasoningStatus outcome = .completed)) := by
  have hempty : reasoning ≠ [] → outcome.reasoning ≠ [] := by
    intro hne hnil
    obtain ⟨piece, pieces, rfl⟩ := List.exists_cons_of_ne_nil hne
    rw [hnil, List.prefix_nil, List.flatten_cons, List.append_eq_nil_iff] at hpre
    exact hpieces piece List.mem_cons_self hpre.1
  by_cases hreasoning : reasoning = []
  · subst hreasoning
    by_cases hnil : outcome.reasoning = []
    · refine ⟨rid, none, ?_, (ReasoningAgrees.empty hnil).of_iff (by simp [hnil])⟩
      rw [finishReasoning_of_closed h nofun fun _ => hnil]
      exact .refl h
    · obtain rfl : content = [] := by
        by_contra hne
        exact hnil (hwhole hne).symm
      have hfresh : Tracks (L := L) s true (textBlock rid [] none) none := h
      obtain ⟨rid', hopened⟩ := hfresh.ensureReasoning
      have hpiece := hopened.1.reasoningPiece outcome.reasoning rfl
      refine ⟨rid', some (finalReasoning outcome rid' [outcome.reasoning]), ?_,
        (ReasoningAgrees.final hnil).of_iff (by simp)⟩
      rw [finishReasoning, if_pos ⟨hnil, h.reasoning.isSome⟩]
      exact (hopened.trans hpiece).trans hpiece.1.closeReasoning
  · have hne := hempty hreasoning
    by_cases hcontent : content = []
    · subst hcontent
      simp only [reasoningBlock, textBlock, if_neg hreasoning, if_true] at h ⊢
      refine ⟨rid, some (finalReasoning outcome rid reasoning), ?_,
        (ReasoningAgrees.final hne).of_iff (by simp [hreasoning])⟩
      rw [finishReasoning, if_neg (by simp [h.reasoning.isSome])]
      exact (Moves.refl h).trans h.closeReasoning
    · have hall := hwhole hcontent
      simp only [reasoningBlock, textBlock, if_neg hreasoning, if_neg hcontent] at h ⊢
      refine ⟨rid, _, ?_, (ReasoningAgrees.closed hne hall).of_iff (by simp [hall, hne, hcontent])⟩
      rw [finishReasoning_of_closed h (fun b hb => by cases hb; rfl) nofun]
      exact .refl h

/-- The tool calls complete the stream; the output array has the ids of the stream's items. -/
lemma sendCalls_tracks (mid : ItemId) (h : Tracks s true r m)
    (hreasoning : outcome.reasoning ≠ [] → ∃ b ∈ r, b.id = rid)
    (hmessage : needsMessage outcome → ∃ b ∈ m, b.id = mid) :
    ∃ s' events ids, s.sendCalls outcome.toolCalls = (s', events) ∧ s'.finishBuilt = true ∧
      s'.terminalEmitted = false ∧
      Sends s (r.toList ++ m.toList)
        (r.toList ++ (m.toList ++ List.zipWith callBlock ids outcome.toolCalls)) (s', events) ∧
      ∀ setup drawn, outputItems setup drawn outcome s'.ids = reasoningItems outcome rid ++
        (messageItems setup outcome mid ++ List.zipWith callItem ids outcome.toolCalls) := by
  have hnext : s.nextOutputIndex = (r.toList ++ m.toList).length := by
    rw [List.length_append, h.next]
  obtain ⟨s', events, ids, hcalls, hlength, hkinds, hids, hbuilt, hended, hsends⟩ :=
    sendCalls_spec hnext outcome.toolCalls
  rw [List.append_assoc] at hsends
  rw [h.functionCalls, List.nil_append] at hids
  refine ⟨s', events, ids, hcalls, hbuilt.trans h.finishBuilt, hended.trans h.terminalEmitted,
    hsends, fun setup drawn => ?_⟩
  rw [hids]
  refine outputItems_eq rid mid (fun hne => ?_) (fun hneeded => ?_) hlength hkinds
  · obtain ⟨b, hb, rfl⟩ := hreasoning hne
    obtain ⟨-, hid, hkind⟩ := h.reasoning.item b hb
    exact ⟨hid, hid ▸ hkind⟩
  · obtain ⟨b, hb, rfl⟩ := hmessage hneeded
    obtain ⟨-, hid, hkind⟩ := h.message.item b hb
    exact ⟨hid, hid ▸ hkind⟩

/-- What `finish` makes of the deltas. -/
lemma finish_sends (h : Tracks (L := L) s false (reasoningBlock rid reasoning content)
      (textBlock mid content none))
    (hpre : reasoning.flatten <+: outcome.reasoning) (hpieces : ∀ piece ∈ reasoning, piece ≠ [])
    (hcontent : content.flatten <+: outcome.text)
    (hwhole : content ≠ [] → reasoning.flatten = outcome.reasoning) :
    Succeeds (s.finish outcome) fun (s', events, response) => ∃ blocks,
      s'.finishBuilt = true ∧ s'.terminalEmitted = false ∧
      Sends s ((reasoningBlock rid reasoning content).toList ++
        (textBlock mid content none).toList) blocks (s', events) ∧
      (List.Forall₂ (Block.Spells Item.id Item.text) blocks response.output ↔
        ((reasoning = [] ∨ reasoning.flatten = outcome.reasoning) ∧
          (content ≠ [] → outcome.reasoning = [] ∨ reasoningStatus outcome = .completed)) ∧
        (content ≠ [] → needsMessage outcome)) := by
  have hfinishing : Tracks { s with finishBuilt := true } true
      (reasoningBlock rid reasoning content) (textBlock mid content none) :=
    { h with finishBuilt := rfl }
  obtain ⟨rid', done, hreasoned, hagrees⟩ :=
    finishReasoning_moves hfinishing hpre hpieces hwhole
  refine (Succeeds.refuse (by simp [h.started, h.finishBuilt])).bind fun _ _ => ?_
  generalize { s with finishBuilt := true }.finishReasoning outcome = result at hreasoned ⊢
  obtain ⟨s₁, reasoned⟩ := result
  by_cases hneeded : needsMessage outcome
  · refine (finishMessage_needed hreasoned.1 hneeded hcontent).bind
      fun (s₂, messaged) ⟨mid', pieces, htext, hmessage⟩ => ?_
    obtain ⟨s₃, called, ids, hcalls, hbuilt, hended, hsends, houtput⟩ :=
      sendCalls_tracks mid' hmessage.1 hagrees.opened fun _ => ⟨_, rfl, rfl⟩
    simp only [hcalls]
    refine .pure ⟨_, hbuilt, hended, (hreasoned.2.trans hmessage.2).trans hsends, ?_⟩
    have hsetup : s₃.setup = s₁.setup := hsends.1.trans hmessage.2.1
    simp only [buildResponse, houtput]
    rw [hagrees.agrees, hsetup]
    exact and_congr_right fun _ =>
      ⟨fun _ _ => hneeded, fun _ => messageBlocks_spell hneeded htext ids⟩
  · have hkept : Succeeds (s₁.finishMessage outcome) (· = (s₁, [])) := ⟨_, if_neg hneeded, rfl⟩
    obtain ⟨s₃, called, ids, hcalls, hbuilt, hended, hsends, houtput⟩ :=
      sendCalls_tracks mid hreasoned.1 hagrees.opened fun h => absurd h hneeded
    refine hkept.bind fun result hresult => ?_
    subst hresult
    simp only [hcalls]
    refine .pure ⟨_, hbuilt, hended, (hreasoned.2.trans .refl).trans hsends, ?_⟩
    simp only [buildResponse, houtput]
    rw [hagrees.agrees, openBlocks_spell_iff hneeded]
    exact and_congr_right fun _ => by simp [hneeded]

end Items

/-! ## The whole stream -/

lemma start_spec (setup : ResponseSetup) :
    Succeeds (start (L := L) { setup }) fun result =>
      Tracks (L := L) result.1 false none none ∧ Sends { setup } [] [] result := by
  refine (Succeeds.refuse (by simp)).bind fun _ _ => ?_
  refine .pure ⟨⟨rfl, rfl, rfl, rfl, rfl, ⟨rfl, rfl, nofun, fun _ => rfl⟩,
    ⟨rfl, rfl, nofun, fun _ => rfl⟩⟩, rfl, _, Emits.number _, ?_⟩
  · simp [mark?]

lemma terminal_spec (hbuilt : s.finishBuilt = true) (hended : s.terminalEmitted = false)
    (response : ResponseBody L) :
    Succeeds (s.terminal response) fun result => ∃ payload,
      result.2 = [⟨s.sequence, payload⟩] ∧ payload.terminal? = some response ∧
        payload.mark? = none := by
  refine (Succeeds.refuse (by simp [hbuilt, hended])).bind fun _ _ => ?_
  refine .pure ⟨_, rfl, ?_⟩
  cases response.status <;> exact ⟨rfl, rfl⟩

/-- Events that end with the terminal one are faithful exactly if their items agree with the
output. -/
lemma faithful_iff {events : List (Event L)} {blocks : List (ItemBlock L)}
    {payload : Payload L} {response : ResponseBody L} (h : Sends { setup } [] blocks (s, events))
    (hterminal : payload.terminal? = some response) (hmark : payload.mark? = none) :
    Faithful (events ++ [⟨s.sequence, payload⟩]) response ↔
      List.Forall₂ (Block.Spells Item.id Item.text) blocks response.output := by
  obtain ⟨-, marks, hemits, hblocks⟩ := h
  have hmarks : (events ++ [(⟨s.sequence, payload⟩ : Event L)]).filterMap (·.payload.mark?) =
      blockMarks 0 blocks := by
    rw [List.filterMap_append, hemits.marks, hblocks]
    simp [hmark, blockMarks]
  rw [← mirrors_iff, ← hmarks]
  refine ⟨fun hfaithful => hfaithful.mirrors, fun hmirrors => ⟨?_, ?_, hmirrors⟩⟩
  · have hnext : s.sequence = events.length := by simpa using hemits.next
    rw [List.map_append, hemits.numbers, List.length_append, List.length_singleton,
      List.range_succ, List.range_eq_range', hnext]
    rfl
  · exact ⟨events, _, rfl, hterminal, hemits.ordinary⟩

lemma flatten_effective (deltas : List (Text × List L)) :
    ((deltas.filter effective).map (·.1)).flatten = (deltas.map (·.1)).flatten := by
  induction deltas with
  | nil => rfl
  | cons delta deltas ih =>
    by_cases h : effective delta
    · simp [h, ih]
    · have hempty : delta.1 = [] := by
        by_contra hne
        exact h (by simp [effective, hne])
      simp [h, ih, hempty]

/-- The condition in terms of the outcome: a content delta that sent something needs a message item
in the output, and the reasoning item that it closed has to be a completed one there. -/
lemma contentAgrees_iff (outcome : GenerationOutcome L) :
    (outcome.reasoning = [] ∨ reasoningStatus outcome = .completed) ∧ needsMessage outcome ↔
      outcome.text ≠ [] ∨ outcome.toolCalls = [] ∧ (outcome.reasoning = [] ∨
        outcome.finishReason ∉ [.outputLimit, .contextCapacity, .cancelled]) := by
  have hstatus : itemStatus outcome.finishReason = .completed ↔
      outcome.finishReason ∉ [.outputLimit, .contextCapacity, .cancelled] := by
    cases outcome.finishReason <;> decide
  rw [← hstatus, needsMessage, reasoningStatus]
  by_cases htext : outcome.text = []
  · by_cases hcalls : outcome.toolCalls = []
    · simp [htext, hcalls]
    · simp [hcalls]
  · simp [htext]

/-- What `finish` asks of the pieces that were sent, in terms of the deltas. -/
lemma agree_iff {d : Deltas L} :
    (((d.reasoning.filter (· ≠ []) = [] ∨
        (d.reasoning.filter (· ≠ [])).flatten = outcome.reasoning) ∧
      ((d.content.filter effective).map (·.1) ≠ [] →
        outcome.reasoning = [] ∨ reasoningStatus outcome = .completed)) ∧
      ((d.content.filter effective).map (·.1) ≠ [] → needsMessage outcome)) ↔ d.Agree outcome := by
  have hreasoning : d.reasoning.filter (· ≠ []) = [] ↔ d.reasoningText = [] := by
    simp [Deltas.reasoningText]
  have hcontent : (d.content.filter effective).map (·.1) ≠ [] ↔
      ∃ delta ∈ d.content, delta.1 ≠ [] ∨ delta.2 ≠ [] := by
    simp [effective, imp_iff_not_or]
  rw [hreasoning, hcontent, List.flatten_filter_ne_nil, and_assoc, ← imp_and, contentAgrees_iff]
  exact ⟨fun ⟨h, h'⟩ => ⟨h, h'⟩, fun h => ⟨h.reasoning, h.content⟩⟩

/-- The request is answered, and the events tell the client what the terminal response says exactly
if the deltas and the outcome `Agree`. -/
theorem respond_faithful_iff (setup : ResponseSetup) (d : Deltas L)
    (outcome : GenerationOutcome L) (h : d.Streams outcome) :
    ∃ events response, respond setup d outcome = .ok (events, response) ∧
      (Faithful events response ↔ d.Agree outcome) := by
  have hrespond : Succeeds (respond setup d outcome) fun (events, response) =>
      (Faithful events response ↔ d.Agree outcome) := by
    refine (start_spec setup).bind fun (s₁, started) ⟨h₁, hsends₁⟩ => ?_
    refine (sendReasoning_moves .unset [] h₁ d.reasoning).bind
      fun (s₂, reasoned) ⟨rid, h₂, hsends₂⟩ => ?_
    refine (sendContent_moves .unset [] h₂ d.content).bind
      fun (s₃, sent) ⟨mid, h₃, hsends₃⟩ => ?_
    refine (finish_sends h₃ ?_ ?_ ?_ ?_).bind
      fun (s₄, finished, response) ⟨blocks, hbuilt, hended, hsends₄, hagrees⟩ => ?_
    · rw [List.nil_append, List.flatten_filter_ne_nil]
      exact h.reasoning
    · intro piece hpiece
      simpa using (List.mem_filter.mp hpiece).2
    · rw [List.nil_append, flatten_effective]
      exact h.content
    · intro hne
      rw [List.nil_append, List.flatten_filter_ne_nil]
      refine h.whole fun hnil => hne ?_
      rw [hnil]
      rfl
    · refine (terminal_spec hbuilt hended response).bind
        fun (s₅, ended) ⟨payload, hevents, hterminal, hmark⟩ => ?_
      have hsends := ((hsends₁.trans hsends₂).trans hsends₃).trans hsends₄
      subst hevents
      exact .pure <| (faithful_iff hsends hterminal hmark).trans (hagrees.trans agree_iff)
  obtain ⟨⟨events, response⟩, hok, hiff⟩ := hrespond
  exact ⟨events, response, hok, hiff⟩

/-- A request with log probabilities. -/
def logprobSetup : ResponseSetup := ⟨"resp", 0, true, 0, id⟩

/-- One reasoning delta, one content delta, and a text that is longer than what was streamed. -/
def shortDeltas : Deltas Unit := ⟨[['a']], [(['b'], [()])]⟩

def shortOutcome : GenerationOutcome Unit :=
  ⟨.stopToken, ['a'], ['b', 'c'], [(), ()], [], 3, 4, 1, 0⟩

theorem respond_faithful_short :
    shortDeltas.Streams shortOutcome ∧ ∃ events response,
      respond logprobSetup shortDeltas shortOutcome = .ok (events, response) ∧
        Faithful events response := by
  have hstreams : shortDeltas.Streams shortOutcome :=
    ⟨⟨[], rfl⟩, ⟨['c'], rfl⟩, fun _ => rfl⟩
  obtain ⟨events, response, hok, hiff⟩ :=
    respond_faithful_iff logprobSetup shortDeltas shortOutcome hstreams
  exact ⟨hstreams, events, response, hok, hiff.mpr ⟨.inr rfl, fun _ => .inl (by decide)⟩⟩

/-- A content delta with log probabilities and no text. -/
def emptyTextDeltas : Deltas Unit := ⟨[], [([], [()])]⟩

/-- The generation turns out to be one tool call. -/
def callOutcome : GenerationOutcome Unit :=
  ⟨.stopToken, [], [], [()], [⟨['c'], ['f'], []⟩], 3, 4, 0, 0⟩

/-- The delta opens a message at output index 0, which is never closed; element 0 of the terminal
response is the tool call, whose own events carry output index 1. -/
theorem emptyText_unfaithful :
    emptyTextDeltas.Streams callOutcome ∧ ∃ events response,
      respond logprobSetup emptyTextDeltas callOutcome = .ok (events, response) ∧
        ¬Faithful events response := by
  refine ⟨⟨⟨[], rfl⟩, ⟨[], rfl⟩, fun _ => rfl⟩, _, _, rfl, fun hfaithful => ?_⟩
  obtain ⟨item, hitem, hid⟩ := hfaithful.mirrors.opened 0 ⟨"msg", 0⟩ List.mem_cons_self
  cases hitem
  exact absurd hid (by decide)

end NInfer.Serve
