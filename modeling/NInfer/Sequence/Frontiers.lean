import NInfer.Sequence.LaneInvariant

/-!
# The frontiers of every lane agree

In every reachable state a lane that is active, or retained and complete, has a ledger and an
identity of one token more than its execution frontier `E`, text KV up to `E`, backend extents that
its backend can continue from, and no checkpoint beyond `E`.

The lanes only meet in rounds, which clear all their lanes if they fail, and in forks, which read
their source.  So the invariant of each lane (`LaneOk`) is the invariant of the program, next to
that of the host tiers: they store committed sequences.
-/

namespace NInfer.Sequence

open Throwing

/-! ## The program's lanes -/

section

variable {n : ℕ} {p : Program} {lanes : Fin n → Lane}

/-- Every lane is in order. -/
def AllOk (p : Program) (lanes : Fin n → Lane) : Prop := ∀ i, LaneOk p (lanes i)

/-- Lanes that were not touched stay in order. -/
lemma AllOk.of_within {is : List (Fin n)} {lanes' : Fin n → Lane} (h : AllOk p lanes)
    (hwithin : Within is lanes lanes') (his : ∀ i ∈ is, LaneOk p (lanes' i)) : AllOk p lanes' := by
  intro i
  by_cases hi : i ∈ is
  · exact his i hi
  · rw [hwithin i hi]
    exact h i

variable {a : Admission n} {rows : List (DecodeRow n)} {plan : RequestPlan} {i : Fin n}
    {s : State n} {failure : Option Error}

lemma AllOk.update (h : AllOk p lanes) {lane : Lane} (hlane : LaneOk p lane) :
    AllOk p (Function.update lanes i lane) := by
  refine h.of_within (Within.update i [] lanes lane) fun j hj => ?_
  rw [List.mem_singleton.mp hj, Function.update_self]
  exact hlane

/-- An operation on one lane. -/
lemma wp_focus_allOk {α : Type} {m : LaneM α} (h : AllOk p lanes)
    (hm : wp m (fun _ => LaneOk p) (fun _ => LaneOk p) (lanes i)) :
    wp (focus i m) (fun _ => AllOk p) (fun _ => AllOk p) lanes := by
  rw [wp_focus]
  exact wp_mono hm (fun _ _ hlane => h.update hlane) (fun _ _ hlane => h.update hlane)

/-- The rows that passed the checks of a round are distinct lanes that decode. -/
lemma wp_requireDecodeRows {seen : List (Fin n)} :
    wp (requireDecodeRows p seen rows)
      (fun _ lanes' => lanes' = lanes ∧ (rows.map DecodeRow.lane).Nodup ∧
        (∀ row ∈ rows, row.lane ∉ seen) ∧
        ∀ row ∈ rows, (lanes row.lane).lifecycle = .active)
      (fun _ lanes' => lanes' = lanes) lanes := by
  induction rows generalizing seen with
  | nil => exact ⟨rfl, List.nodup_nil, by simp, by simp⟩
  | cons row rows ih =>
    rw [requireDecodeRows]
    simp only [wp_bind, wp_get, wp_throwIf]
    refine ⟨fun _ => trivial, fun hfresh => ⟨fun _ => trivial, fun hready => ?_⟩⟩
    refine wp_imp ih fun _ lanes' hrest => ?_
    obtain ⟨rfl, hnodup, hseen, hactive⟩ := hrest
    have hactive' : (lanes' row.lane).lifecycle = .active := by
      simp only [Lane.decodeReady, decide_eq_true_eq, not_not] at hready
      exact hready.1
    refine ⟨rfl, ?_, ?_, ?_⟩
    · rw [List.map_cons, List.nodup_cons]
      refine ⟨fun hmem => ?_, hnodup⟩
      obtain ⟨row', hrow', heq⟩ := List.mem_map.mp hmem
      exact hseen row' hrow' (heq ▸ List.mem_cons_self)
    · intro row' hrow'
      rcases List.mem_cons.mp hrow' with rfl | hrow'
      · exact hfresh
      · exact fun hmem => hseen row' hrow' (List.mem_cons_of_mem _ hmem)
    · intro row' hrow'
      rcases List.mem_cons.mp hrow' with rfl | hrow'
      · exact hactive'
      · exact hactive row' hrow'

/-- A round touches only its own lanes and leaves them in order, on both exits. -/
lemma wp_decodeBatch (h : AllOk p lanes) :
    wp (decodeBatch p rows failure)
      (fun _ lanes' => AllOk p lanes' ∧ Within (rows.map DecodeRow.lane) lanes lanes')
      (fun _ lanes' => AllOk p lanes' ∧ Within (rows.map DecodeRow.lane) lanes lanes') lanes := by
  rw [decodeBatch, wp_bind, wp_throwIf]
  refine ⟨fun _ => ⟨h, Within.refl _ _⟩, fun _ => ?_⟩
  rw [wp_bind]
  refine wp_mono wp_requireDecodeRows (fun _ lanes' hrows => ?_) (fun _ lanes' heq => ?_)
  swap
  · rw [heq]
    exact ⟨h, Within.refl _ _⟩
  obtain ⟨rfl, hnodup, -, hactive⟩ := hrows
  have hbody : ∀ row ∈ rows, wp (decodeRow p row) (fun _ => LaneOk p) (fun _ _ => True)
      (lanes' row.lane) := by
    intro row hrow
    unfold decodeRow
    split
    · next hnone => exact wp_decodeOrdinaryRow hnone (h _) (hactive row hrow)
    · next hspeculative => exact wp_decodeSpeculativeRow hspeculative (h _) (hactive row hrow)
  have hbatch : wp (resettingOnThrow rows DecodeRow.lane clearLane
      (deviceWork failure >>= fun _ => forEach rows fun row => focus row.lane (decodeRow p row)))
      (fun _ lanes'' => (∀ row ∈ rows, LaneOk p (lanes'' row.lane)) ∧
        Within (rows.map DecodeRow.lane) lanes' lanes'')
      (fun _ lanes'' => (∀ row ∈ rows, LaneOk p (lanes'' row.lane)) ∧
        Within (rows.map DecodeRow.lane) lanes' lanes'') lanes' := by
    refine wp_resettingOnThrow (fun lane => wp_clearLane (LaneOk.cleared p lane)) ?_
    rw [wp_bind, wp_deviceWork]
    exact ⟨fun _ => wp_forEach_focus hnodup hbody, fun _ _ => Within.refl _ _⟩
  have hall : ∀ lanes'', (∀ row ∈ rows, LaneOk p (lanes'' row.lane)) ∧
      Within (rows.map DecodeRow.lane) lanes' lanes'' →
      AllOk p lanes'' ∧ Within (rows.map DecodeRow.lane) lanes' lanes'' := by
    rintro lanes'' ⟨hrows, hwithin⟩
    refine ⟨h.of_within hwithin fun i hi => ?_, hwithin⟩
    obtain ⟨row, hrow, rfl⟩ := List.mem_map.mp hi
    exact hrows row hrow
  exact wp_mono hbatch (fun _ => hall) (fun _ => hall)

/-- Every lane but `i` is in order. -/
def OthersOk (p : Program) (i : Fin n) (lanes : Fin n → Lane) : Prop :=
  ∀ j, j ≠ i → LaneOk p (lanes j)

lemma AllOk.others (h : AllOk p lanes) (i : Fin n) : OthersOk p i lanes := fun j _ => h j

lemma OthersOk.update (h : OthersOk p i lanes) (lane : Lane) :
    OthersOk p i (Function.update lanes i lane) := by
  intro j hj
  rw [Function.update_of_ne hj]
  exact h j hj

lemma OthersOk.allOk (h : OthersOk p i lanes) {lane : Lane} (hlane : LaneOk p lane) :
    AllOk p (Function.update lanes i lane) := by
  intro j
  by_cases hj : j = i
  · rw [hj, Function.update_self]
    exact hlane
  · exact h.update lane j hj

/-- A handler that clears one lane needs the others in order. -/
lemma wp_orClearAt {m : ProgramM n Unit}
    (h : wp m (fun _ => AllOk p) (fun _ => OthersOk p i) lanes) :
    wp (tryCatch m fun e => do
      focus i clearLane
      throw e) (fun _ => AllOk p) (fun _ => AllOk p) lanes := by
  rw [wp_tryCatch]
  refine wp_mono h (fun _ _ h => h) (fun e lanes' hothers => ?_)
  rw [wp_bind, wp_focus]
  exact wp_clearLane (hothers.allOk (LaneOk.cleared p _))

lemma wp_decodeBatchWithPrefill {owner : Fin n} {chunk : Chunk} (h : AllOk p lanes) :
    wp (decodeBatchWithPrefill p rows owner chunk) (fun _ => AllOk p) (fun _ => AllOk p)
      lanes := by
  rw [decodeBatchWithPrefill, wp_bind, wp_get, wp_bind, wp_throwIf]
  refine ⟨fun _ => h, fun hmixed => wp_orClearAt ?_⟩
  push Not at hmixed
  rw [wp_bind, wp_focus]
  refine wp_mono (wp_beforeChunk (h owner)) (fun staged lane hlane => ?_)
    (fun _ lane _ => (h.others owner).update lane)
  have hall : AllOk p (Function.update lanes owner lane) := h.update hlane.laneOk
  rw [wp_bind]
  refine wp_mono (wp_decodeBatch hall) (fun _ lanes' hround => ?_)
    (fun _ _ hround => hround.1.others owner)
  obtain ⟨hround, hwithin⟩ := hround
  -- The round has not touched its owner.
  have howner : lanes' owner = lane := by rw [hwithin owner hmixed.2, Function.update_self]
  rw [wp_focus, howner]
  exact wp_mono (wp_afterChunk .shared chunk hlane) (fun _ _ hok => hround.update hok)
    (fun _ lane' _ => (hround.others owner).update lane')

/-- The checks on the rows of a resolution change nothing. -/
lemma wp_requireSpeculativeRows {rows : List (ResolveRow n)} :
    wp (forEach rows fun row => do
      let lanes ← get
      ofExcept id (requireSpeculativeRow p row.resolution (lanes row.lane)))
      (fun _ lanes' => lanes' = lanes ∧
        ∀ row ∈ rows, requireSpeculativeRow p row.resolution (lanes row.lane) = .ok ())
      (fun _ lanes' => lanes' = lanes) lanes := by
  induction rows with
  | nil => exact ⟨rfl, by simp⟩
  | cons row rows ih =>
    simp only [forEach, wp_bind, wp_get, wp_ofExcept]
    refine ⟨fun _ hrow => ?_, fun _ _ => trivial⟩
    refine wp_imp ih fun _ lanes' hrest => ⟨hrest.1, fun row' hrow' => ?_⟩
    rcases List.mem_cons.mp hrow' with rfl | hrow'
    · exact hrow
    · exact hrest.2 row' hrow'

lemma wp_resolvePendingBatch {rows : List (ResolveRow n)} (h : AllOk p lanes)
    (hnodup : (rows.map ResolveRow.lane).Nodup) :
    wp (resolvePendingBatch p rows failure) (fun _ => AllOk p) (fun _ => AllOk p) lanes := by
  rw [resolvePendingBatch, wp_bind, wp_throwIf]
  refine ⟨fun _ => h, fun _ => ?_⟩
  split
  · exact wp_forEach rows (fun row _ lanes' hall => wp_focus_allOk hall
      (wp_resolveOrdinaryRow (hall _))) h
  · rw [wp_bind]
    refine wp_mono wp_requireSpeculativeRows (fun _ lanes' hrows => ?_) (fun _ lanes' heq => ?_)
    swap
    · rw [heq]
      exact h
    obtain ⟨rfl, hrows⟩ := hrows
    have hsettled : ∀ lanes'', (∀ row ∈ rows, LaneOk p (lanes'' (ResolveRow.lane row))) ∧
        Within (rows.map ResolveRow.lane) lanes' lanes'' → AllOk p lanes'' := by
      rintro lanes'' ⟨hrows, hwithin⟩
      refine h.of_within hwithin fun i hi => ?_
      obtain ⟨row, hrow, rfl⟩ := List.mem_map.mp hi
      exact hrows row hrow
    refine wp_mono (wp_resettingOnThrow (fun lane => wp_clearLane (LaneOk.cleared p lane)) ?_)
      (fun _ => hsettled) (fun _ => hsettled)
    rw [wp_bind, wp_deviceWork]
    refine ⟨fun _ => wp_forEach_focus hnodup fun row hrow => ?_, fun _ _ => Within.refl _ _⟩
    exact wp_commitSpeculativeRow (h _) (hrows row hrow)

/-! ## Admission -/

lemma Admission.wp_start (h : OthersOk p a.lane lanes) (hstart : Startable p plan (lanes a.lane)) :
    wp (a.start p plan) (fun _ => AllOk p) (fun _ => OthersOk p a.lane) lanes := by
  rw [Admission.start, wp_focus]
  exact wp_mono (wp_startPrefillLane hstart) (fun _ _ hlane => h.allOk hlane)
    (fun _ lane _ => h.update lane)

/-- An admission that first changes its lane to one that the plan can start from. -/
lemma Admission.wp_startAfter {m : LaneM Unit} (h : OthersOk p a.lane lanes)
    (hm : wp m (fun _ => Startable p plan) (fun _ _ => True) (lanes a.lane)) :
    wp (focus a.lane m >>= fun _ => a.start p plan) (fun _ => AllOk p)
      (fun _ => OthersOk p a.lane) lanes := by
  rw [wp_bind, wp_focus]
  refine wp_mono hm (fun _ lane hstart => ?_) (fun _ lane _ => h.update lane)
  apply Admission.wp_start (h.update lane)
  rw [Function.update_self]
  exact hstart

lemma Admission.wp_fromResident (h : AllOk p lanes) (hbusy : (lanes a.lane).busy = false) :
    wp (a.fromResident p (lanes a.lane)) (fun _ => AllOk p) (fun _ => OthersOk p a.lane)
      lanes := by
  unfold Admission.fromResident
  dsimp only
  split
  · obtain ⟨view, selected, hplan⟩ :=
      planRequestForLane_finished p (lanes a.lane) a.prompt a.options a.hashMatches
    refine Admission.wp_startAfter (h.others _) ?_
    refine wp_imp (wp_evictRetainedLane_vacant (h a.lane) hbusy) fun _ lane hvacant => ?_
    rw [hplan]
    exact Startable.of_reset hvacant.ok.unforked hvacant.rewrite
  · next hreset => exact Admission.wp_start (h.others _) ((h a.lane).startable rfl hreset)

/-- An admission that fills its evicted lane. -/
lemma Admission.wp_startEvicted {m : LaneM Unit} (h : AllOk p lanes)
    (hbusy : (lanes a.lane).busy = false)
    (hm : ∀ lane, Vacant p lane → wp m (fun _ => Startable p plan) (fun _ _ => True) lane) :
    wp (focus a.lane evictRetainedLane >>= fun _ => focus a.lane m >>= fun _ => a.start p plan)
      (fun _ => AllOk p) (fun _ => OthersOk p a.lane) lanes := by
  rw [wp_bind, wp_focus]
  refine wp_mono (wp_evictRetainedLane_vacant (h a.lane) hbusy) (fun _ lane hvacant => ?_)
    (fun _ lane _ => (h.others _).update lane)
  apply Admission.wp_startAfter ((h.others _).update lane)
  rw [Function.update_self]
  exact hm lane hvacant

lemma Admission.wp_attempt (h : AllOk p lanes) (hbusy : (lanes a.lane).busy = false)
    (himage : ∀ image present, a.source = .host image present → image.Committed) :
    wp (a.attempt p) (fun _ => AllOk p) (fun _ => OthersOk p a.lane) lanes := by
  rw [Admission.attempt, wp_bind, wp_get]
  split
  · exact Admission.wp_fromResident h hbusy
  · next image present hsource =>
    exact Admission.wp_startEvicted h hbusy fun lane hvacant =>
      wp_restoreHostEntry hvacant (himage image present hsource) rfl
  · next source _ =>
    rw [wp_bind, wp_throwIf]
    refine ⟨fun _ => h.others _, fun _ => ?_⟩
    exact Admission.wp_startEvicted h hbusy fun lane hvacant =>
      wp_forkRetainedLane hvacant rfl

/-! ## Every reachable state -/

/-- The invariant of the program. -/
structure Inv (p : Program) (s : State n) : Prop where
  lanes : AllOk p s.lanes
  images : ∀ image ∈ s.images, image.Committed

lemma Inv.apply {α : Type} {m : ProgramM n α} (h : Inv p s)
    (hm : wp m (fun _ => AllOk p) (fun _ => AllOk p) s.lanes) : Inv p (s.apply m) :=
  ⟨wp_after hm, h.images⟩

lemma Inv.capture (h : Inv p s) (i : Fin n) (mode : CacheCaptureMode) :
    Inv p (s.capture p (s.lanes i) mode) := by
  unfold State.capture
  split
  · next image hcapture =>
    split
    · exact h
    · refine ⟨h.lanes, fun image' himage' => ?_⟩
      rcases List.mem_cons.mp himage' with rfl | himage'
      · exact ramCaptureSource_committed (h.lanes i) hcapture
      · exact h.images image' himage'
  · exact h

lemma AllOk.init : AllOk p (fun _ : Fin n => ({} : Lane)) := fun _ => LaneOk.cleared p {}

lemma Inv.step (h : Inv p s) (op : Op n) (henabled : op.enabled s) :
    Inv p (s.step p op) := by
  cases op with
  | attempt a =>
    refine h.apply (wp_orClearAt (Admission.wp_attempt h.lanes henabled.1 ?_))
    intro image present hsource
    have hmem := henabled.2
    rw [hsource] at hmem
    exact h.images image hmem
  | advancePrefill i pace chunk =>
    exact h.apply (wp_focus_allOk h.lanes (wp_advancePrefill pace chunk (h.lanes i)))
  | resolvePrefill i terminal failure =>
    exact h.apply (wp_focus_allOk h.lanes (wp_resolvePrefillLane (h.lanes i)))
  | decode rows failure =>
    exact h.apply (wp_mono (wp_decodeBatch h.lanes) (fun _ _ h => h.1) (fun _ _ h => h.1))
  | decodeWithPrefill rows owner chunk => exact h.apply (wp_decodeBatchWithPrefill h.lanes)
  | resolve rows failure => exact h.apply (wp_resolvePendingBatch h.lanes henabled)
  | retain i => exact h.apply (wp_focus_allOk h.lanes (wp_retainReusableLane (h.lanes i)))
  | revertCancelledPrefill i failure =>
    exact h.apply (wp_focus_allOk h.lanes (wp_revertCancelledPrefillLane (h.lanes i)))
  | abort i => exact h.apply (wp_focus_allOk h.lanes (wp_clearLane (LaneOk.cleared p _)))
  | evict i =>
    exact h.apply (wp_focus_allOk h.lanes
      (wp_evictRetainedLane (fun _ => LaneOk.cleared p _) fun _ => h.lanes i))
  | markTurnClosed i => exact h.apply (wp_focus_allOk h.lanes (wp_markTurnClosed (h.lanes i)))
  | capture i mode => exact h.capture i mode
  | restart => exact ⟨AllOk.init, h.images⟩

lemma Reachable.inv (h : Reachable p s) : Inv p s := by
  induction h with
  | init => exact ⟨AllOk.init, by simp⟩
  | step op _ henabled ih => exact ih.step op henabled

/-- In every state that the program can reach, the frontiers of a lane that decodes or is retained
after its request agree. -/
theorem frontiers_agree {s : State n} (h : Reachable p s) (i : Fin n)
    (hlane : (s.lanes i).lifecycle = .active ∨
      ((s.lanes i).retained = true ∧ (s.lanes i).lifecycle = .complete)) :
    FrontiersAgree p (s.lanes i) := by
  apply (h.inv.lanes i).frontiersAgree
  rcases hlane with hactive | ⟨-, hcomplete⟩
  · exact .inl hactive
  · exact .inr hcomplete

end

/-- An engine that drafts two tokens with MTP. -/
def mtpProgram : Program where
  target := .qwen3627b
  options := { maxContext := 8192, backend := .mtp, draftTokens := 2 }
  valid := rfl

/-- A text prompt with a turn checkpoint behind its second token. -/
def turnPrompt (tokens : List (BitVec 32)) : Prompt where
  tokenIds := tokens
  tokenTypes := tokens.map fun _ => 0
  positions := (tokens ++ tokens ++ tokens).map fun _ => 0
  visionItems := []
  rewriteCheckpoint := some ⟨.turnClosure, 2, false⟩

/-- A request that is cancelled in its second round, and a second one that is cancelled while it
prefills from the first one's turn checkpoint. -/
def cancelledTwice : State 1 :=
  [Op.attempt ⟨0, .resident, turnPrompt [1, 2, 3], {}, fun _ => true, fun _ => true, none, {},
      .shared, { processedTokens := 2, finalized := false }⟩,
    .advancePrefill 0 .shared { processedTokens := 1, finalized := true, token := 7 },
    .resolvePrefill 0 false none,
    .decode [{ lane := 0, budget := 8, count := 3 }] none,
    .resolve [⟨0, { acceptedTokens := 2 }⟩] none,
    .decode [{ lane := 0, budget := 6, count := 2 }] none,
    .resolve [⟨0, { acceptedTokens := 0, cancelled := true }⟩] none,
    .attempt ⟨0, .resident, turnPrompt [1, 2, 9, 9], {}, fun _ => true, fun _ => true, none, {},
      .shared, { processedTokens := 1, finalized := false }⟩,
    .revertCancelledPrefill 0 none].foldl (State.step mtpProgram) {}

theorem frontiers_agree_cancelledTwice :
    FrontiersAgree mtpProgram (cancelledTwice.lanes 0) ∧
      (cancelledTwice.lanes 0).executionFrontier = 2 ∧ (cancelledTwice.lanes 0).mtpKvValid = 1 := by
  have hlane : (cancelledTwice.lanes 0).retained = true ∧
      (cancelledTwice.lanes 0).lifecycle = .complete := by decide +kernel
  have hreachable : Reachable mtpProgram cancelledTwice := by
    apply Reachable.init.run
    refine ⟨⟨rfl, trivial⟩, trivial, trivial, trivial, List.nodup_singleton _, trivial,
      List.nodup_singleton _, ⟨?_, trivial⟩, trivial, trivial⟩
    decide +kernel
  exact ⟨frontiers_agree hreachable 0 (.inr hlane), by decide +kernel, by decide +kernel⟩

end NInfer.Sequence
