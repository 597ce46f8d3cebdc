import NInfer.Foundation.Brackets
import NInfer.Foundation.Fallible

/-!
# The Responses event stream

The serving layer sends a generation as server-sent events while it runs and builds the terminal
response from its outcome (`responses_schema.cpp`).  Items are opened by the deltas that arrive, or
by `finish`; the output array of the terminal response is rebuilt by `build_response`, which looks
at the outcome only.

Events are the JSON objects before they are written out: a text that is not UTF-8 cannot be written,
so texts are lists of characters.  Every part has `content_index` 0, every text part an empty list
of annotations and every reasoning item an empty summary; these are left out, and so are the fields
of a response that only echo the request.
-/

namespace NInfer.Serve

abbrev Text := List Char

/-- `FinishReason`. -/
inductive FinishReason where
  | none
  | stopToken
  | stopString
  | outputLimit
  | contextCapacity
  | cancelled
  deriving DecidableEq

/-- The status of a response. -/
inductive ResponseStatus where
  | inProgress
  | completed
  | incomplete
  | cancelled
  | failed
  deriving DecidableEq

/-- `response_status`. -/
def responseStatus : FinishReason → ResponseStatus
  | .outputLimit | .contextCapacity => .incomplete
  | .cancelled => .cancelled
  | .none | .stopToken | .stopString => .completed

/-- The status of an output item. -/
inductive ItemStatus where
  | inProgress
  | completed
  | incomplete
  deriving DecidableEq

/-- An id that `random_id` drew. -/
structure ItemId where
  kind : String
  nonce : ℕ
  deriving DecidableEq

namespace ItemId

/-- The empty string, which stands for an id that was not drawn yet. -/
def unset : ItemId := ⟨"", 0⟩

end ItemId

/-- `ToolCall`. -/
structure ToolCall where
  id : Text
  name : Text
  argumentsJson : Text
  deriving DecidableEq

variable {L : Type}

/-- `GenerationOutcome`, as far as the schema reads it; `L` are the entries of a logprob report. -/
structure GenerationOutcome (L : Type) where
  finishReason : FinishReason
  reasoning : Text
  text : Text
  contentLogprobs : List L
  toolCalls : List ToolCall
  promptTokens : ℕ
  completionTokens : ℕ
  reasoningTokens : ℕ
  prefixCacheHitTokens : ℕ

/-- The assistant `output_text` part. -/
structure OutputTextPart (L : Type) where
  text : Text
  logprobs : Option (List L)
  deriving DecidableEq

/-- An output item. -/
inductive Item (L : Type) where
  | reasoning (id : ItemId) (status : ItemStatus) (content : List Text)
  | message (id : ItemId) (status : ItemStatus) (content : List (OutputTextPart L))
  | functionCall (id : ItemId) (status : ItemStatus) (callId name arguments : Text)
  deriving DecidableEq

namespace Item

def id : Item L → ItemId
  | .reasoning id _ _ => id
  | .message id _ _ => id
  | .functionCall id _ _ _ _ => id

/-- The text or the arguments of an item. -/
def text : Item L → Text
  | .reasoning _ _ content => content.flatten
  | .message _ _ content => (content.map (·.text)).flatten
  | .functionCall _ _ _ _ arguments => arguments

end Item

/-- A part of an item. -/
inductive Part (L : Type) where
  | reasoningText (text : Text)
  | outputText (part : OutputTextPart L)

/-- `usage`. -/
structure Usage where
  inputTokens : ℕ
  cachedTokens : ℕ
  outputTokens : ℕ
  reasoningTokens : ℕ
  totalTokens : ℕ

/-- The body of a response. -/
structure ResponseBody (L : Type) where
  id : String
  createdAt : Int
  status : ResponseStatus
  output : List (Item L)
  incompleteReason : Option String
  usage : Option Usage

/-- The `type` of an event and its fields. -/
inductive Payload (L : Type) where
  | created (response : ResponseBody L)
  | inProgress (response : ResponseBody L)
  | outputItemAdded (outputIndex : ℕ) (item : Item L)
  | contentPartAdded (itemId : ItemId) (outputIndex : ℕ) (part : Part L)
  | reasoningTextDelta (itemId : ItemId) (outputIndex : ℕ) (delta : Text)
  | reasoningTextDone (itemId : ItemId) (outputIndex : ℕ) (text : Text)
  | outputTextDelta (itemId : ItemId) (outputIndex : ℕ) (delta : Text) (logprobs : List L)
  | outputTextDone (itemId : ItemId) (outputIndex : ℕ) (text : Text) (logprobs : List L)
  | functionCallArgumentsDelta (itemId : ItemId) (outputIndex : ℕ) (delta : Text)
  | functionCallArgumentsDone (itemId : ItemId) (outputIndex : ℕ) (name arguments : Text)
  | contentPartDone (itemId : ItemId) (outputIndex : ℕ) (part : Part L)
  | outputItemDone (outputIndex : ℕ) (item : Item L)
  | completed (response : ResponseBody L)
  | incomplete (response : ResponseBody L)
  | cancelled (response : ResponseBody L)
  | failed (response : ResponseBody L)

structure Event (L : Type) where
  sequenceNumber : ℕ
  payload : Payload L

/-! ## The terminal response -/

/-- `ItemIds`. -/
structure ItemIds where
  reasoning : ItemId := .unset
  message : ItemId := .unset
  functionCalls : List ItemId := []

/-- What the stream keeps of the request and of the values that the runtime resolved. -/
structure ResponseSetup where
  id : String
  createdAt : Int
  topLogprobs : Bool
  cachedInputTokens : ℕ
  /-- The numbers that `random_id` draws. -/
  draws : ℕ → ℕ

/-- `output_text_part`. -/
def outputTextPart (setup : ResponseSetup) (text : Text) (logprobs : List L) : OutputTextPart L :=
  ⟨text, if setup.topLogprobs then some logprobs else none⟩

/-- The status of the items of a response. -/
def itemStatus (reason : FinishReason) : ItemStatus :=
  if responseStatus reason = .completed then .completed else .incomplete

/-- The status of the reasoning item. -/
def reasoningStatus (outcome : GenerationOutcome L) : ItemStatus :=
  if outcome.text ≠ [] ∨ outcome.toolCalls ≠ [] then .completed
  else itemStatus outcome.finishReason

/-- Whether the outcome has a message item. -/
def needsMessage (outcome : GenerationOutcome L) : Prop :=
  outcome.text ≠ [] ∨ outcome.toolCalls = []

instance (outcome : GenerationOutcome L) : Decidable (needsMessage outcome) :=
  inferInstanceAs (Decidable (_ ∨ _))

/-- The id in use, or a new one. -/
def orDrawn (setup : ResponseSetup) (kind : String) (drawn : ℕ) (id : ItemId) : ItemId :=
  if id = .unset then ⟨kind, setup.draws drawn⟩ else id

/-- The output items of `build_response`. -/
def outputItems (setup : ResponseSetup) (drawn : ℕ) (outcome : GenerationOutcome L)
    (ids : ItemIds) : List (Item L) :=
  let reasoning :=
    if outcome.reasoning ≠ [] then
      [.reasoning (orDrawn setup "rs" drawn ids.reasoning) (reasoningStatus outcome)
        [outcome.reasoning]]
    else []
  let message :=
    if needsMessage outcome then
      [.message (orDrawn setup "msg" (drawn + 1) ids.message) (itemStatus outcome.finishReason)
        [outputTextPart setup outcome.text outcome.contentLogprobs]]
    else []
  let calls := outcome.toolCalls.zipIdx.map fun (call, index) =>
    .functionCall (orDrawn setup "fc" (drawn + 2 + index) (ids.functionCalls.getD index .unset))
      .completed call.id call.name call.argumentsJson
  reasoning ++ message ++ calls

/-- `build_response`. -/
def buildResponse (setup : ResponseSetup) (drawn : ℕ) (outcome : GenerationOutcome L)
    (ids : ItemIds) : ResponseBody L where
  id := setup.id
  createdAt := setup.createdAt
  status := responseStatus outcome.finishReason
  output := outputItems setup drawn outcome ids
  incompleteReason :=
    if responseStatus outcome.finishReason = .incomplete then some "max_output_tokens" else none
  usage := some
    { inputTokens := outcome.promptTokens
      cachedTokens :=
        min (max setup.cachedInputTokens outcome.prefixCacheHitTokens) outcome.promptTokens
      outputTokens := outcome.completionTokens
      reasoningTokens := outcome.reasoningTokens
      totalTokens := outcome.promptTokens + outcome.completionTokens }

/-- `in_progress_response`. -/
def inProgressResponse (setup : ResponseSetup) : ResponseBody L where
  id := setup.id
  createdAt := setup.createdAt
  status := .inProgress
  output := []
  incompleteReason := none
  usage := none

/-! ## The stream -/

/-- `ResponsesEventStream::Impl`. -/
structure ResponsesEventStream where
  setup : ResponseSetup
  drawn : ℕ := 0
  sequence : ℕ := 0
  nextOutputIndex : ℕ := 0
  reasoningIndex : ℕ := 0
  messageIndex : ℕ := 0
  started : Bool := false
  reasoningStarted : Bool := false
  reasoningDone : Bool := false
  messageStarted : Bool := false
  messageDone : Bool := false
  finishBuilt : Bool := false
  terminalEmitted : Bool := false
  reasoningText : Text := []
  contentText : Text := []
  ids : ItemIds := {}

/-- Consecutive events from a sequence number on. -/
def number (sequence : ℕ) : List (Payload L) → List (Event L)
  | [] => []
  | payload :: payloads => ⟨sequence, payload⟩ :: number (sequence + 1) payloads

namespace ResponsesEventStream

variable (s : ResponsesEventStream)

/-- `event`, for the events that one call makes one after another. -/
def event (payloads : List (Payload L)) : ResponsesEventStream × List (Event L) :=
  ({ s with sequence := s.sequence + payloads.length }, number s.sequence payloads)

/-- `new_response_item_id`. -/
def newResponseItemId (kind : String) : ItemId := ⟨kind, s.setup.draws s.drawn⟩

/-- `ensure_reasoning`. -/
def ensureReasoning : ResponsesEventStream × List (Event L) :=
  if s.reasoningStarted then (s, [])
  else
    let id := s.newResponseItemId "rs"
    let s :=
      { s with
        reasoningStarted := true
        drawn := s.drawn + 1
        ids := { s.ids with reasoning := id }
        reasoningIndex := s.nextOutputIndex
        nextOutputIndex := s.nextOutputIndex + 1 }
    s.event
      [.outputItemAdded s.reasoningIndex (.reasoning id .inProgress []),
        .contentPartAdded id s.reasoningIndex (.reasoningText [])]

/-- `close_reasoning`. -/
def closeReasoning (finalText : Text) (status : ItemStatus) :
    ResponsesEventStream × List (Event L) :=
  if s.reasoningStarted = false ∨ s.reasoningDone then (s, [])
  else
    let s := { s with reasoningDone := true, reasoningText := finalText }
    s.event
      [.reasoningTextDone s.ids.reasoning s.reasoningIndex s.reasoningText,
        .contentPartDone s.ids.reasoning s.reasoningIndex (.reasoningText s.reasoningText),
        .outputItemDone s.reasoningIndex (.reasoning s.ids.reasoning status [s.reasoningText])]

/-- `ensure_message`. -/
def ensureMessage : ResponsesEventStream × List (Event L) :=
  if s.messageStarted then (s, [])
  else
    let id := s.newResponseItemId "msg"
    let s :=
      { s with
        messageStarted := true
        drawn := s.drawn + 1
        ids := { s.ids with message := id }
        messageIndex := s.nextOutputIndex
        nextOutputIndex := s.nextOutputIndex + 1 }
    s.event
      [.outputItemAdded s.messageIndex (.message id .inProgress []),
        .contentPartAdded id s.messageIndex (.outputText ⟨[], none⟩)]

/-- `close_message`. -/
def closeMessage (finalText : Text) (logprobs : List L) (status : ItemStatus) :
    ResponsesEventStream × List (Event L) :=
  if s.messageStarted = false ∨ s.messageDone then (s, [])
  else
    let s := { s with messageDone := true, contentText := finalText }
    let part := outputTextPart s.setup s.contentText logprobs
    s.event
      [.outputTextDone s.ids.message s.messageIndex s.contentText logprobs,
        .contentPartDone s.ids.message s.messageIndex (.outputText part),
        .outputItemDone s.messageIndex (.message s.ids.message status [part])]

/-- `start`. -/
def start : Except String (ResponsesEventStream × List (Event L)) := do
  refuseIf (s.started = true) "Responses event stream already started"
  pure ({ s with started := true }.event
    [.created (inProgressResponse s.setup), .inProgress (inProgressResponse s.setup)])

/-- `reasoning_delta`. -/
def reasoningDelta (text : Text) : Except String (ResponsesEventStream × List (Event L)) := do
  refuseIf (s.started = false ∨ s.finishBuilt = true) "invalid reasoning delta event state"
  if text = [] then pure (s, [])
  else
    let (s, opened) := s.ensureReasoning
    let s := { s with reasoningText := s.reasoningText ++ text }
    let (s, delta) := s.event [.reasoningTextDelta s.ids.reasoning s.reasoningIndex text]
    pure (s, opened ++ delta)

/-- `content_delta`. -/
def contentDelta (text : Text) (logprobs : List L) :
    Except String (ResponsesEventStream × List (Event L)) := do
  refuseIf (s.started = false ∨ s.finishBuilt = true) "invalid content delta event state"
  if text = [] ∧ logprobs = [] then pure (s, [])
  else
    let (s, closed) := s.closeReasoning s.reasoningText .completed
    let (s, added) := s.ensureMessage
    let s := { s with contentText := s.contentText ++ text }
    let (s, delta) := s.event [.outputTextDelta s.ids.message s.messageIndex text logprobs]
    pure (s, closed ++ added ++ delta)

/-- One turn of the loop of `finish` over the tool calls. -/
def sendCall (call : ToolCall) : ResponsesEventStream × List (Event L) :=
  let id := s.newResponseItemId "fc"
  let index := s.nextOutputIndex
  let s :=
    { s with
      drawn := s.drawn + 1
      ids := { s.ids with functionCalls := s.ids.functionCalls ++ [id] }
      nextOutputIndex := s.nextOutputIndex + 1 }
  s.event <|
    [.outputItemAdded index (.functionCall id .inProgress call.id call.name [])] ++
    (if call.argumentsJson ≠ [] then
      [.functionCallArgumentsDelta id index call.argumentsJson] else []) ++
    [.functionCallArgumentsDone id index call.name call.argumentsJson,
      .outputItemDone index (.functionCall id .completed call.id call.name call.argumentsJson)]

/-- The loop of `finish` over the tool calls. -/
def sendCalls (s : ResponsesEventStream) : List ToolCall → ResponsesEventStream × List (Event L)
  | [] => (s, [])
  | call :: calls =>
    let (s, events) := s.sendCall call
    let (s, rest) := s.sendCalls calls
    (s, events ++ rest)

/-- The reasoning item in `finish`. -/
def finishReasoning (outcome : GenerationOutcome L) : ResponsesEventStream × List (Event L) :=
  let (s, opened) :=
    if outcome.reasoning ≠ [] ∧ s.reasoningStarted = false then
      let (s, opened) := s.ensureReasoning
      let s := { s with reasoningText := outcome.reasoning }
      let (s, delta) :=
        s.event [.reasoningTextDelta s.ids.reasoning s.reasoningIndex outcome.reasoning]
      (s, opened ++ delta)
    else (s, [])
  let (s, closed) := s.closeReasoning outcome.reasoning (reasoningStatus outcome)
  (s, opened ++ closed)

/-- The message item in `finish`. -/
def finishMessage (outcome : GenerationOutcome L) :
    Except String (ResponsesEventStream × List (Event L)) := do
  if needsMessage outcome then
    let (s, opened) := s.ensureMessage
    refuseIf (outcome.text ≠ s.contentText ∧ ¬s.contentText.isPrefixOf outcome.text)
      "streamed content does not match terminal content"
    let suffix := outcome.text.drop s.contentText.length
    let (s, delta) :=
      if outcome.text ≠ s.contentText ∧ suffix ≠ [] then
        { s with contentText := s.contentText ++ suffix }.event
          [.outputTextDelta s.ids.message s.messageIndex suffix []]
      else (s, [])
    let (s, closed) :=
      s.closeMessage outcome.text outcome.contentLogprobs (itemStatus outcome.finishReason)
    pure (s, opened ++ delta ++ closed)
  else pure (s, [])

/-- `finish`. -/
def finish (outcome : GenerationOutcome L) :
    Except String (ResponsesEventStream × List (Event L) × ResponseBody L) := do
  refuseIf (s.started = false ∨ s.finishBuilt = true) "invalid Responses stream finish state"
  let (s, reasoning) := { s with finishBuilt := true }.finishReasoning outcome
  let (s, message) ← s.finishMessage outcome
  let (s, calls) := s.sendCalls outcome.toolCalls
  pure (s, reasoning ++ message ++ calls, buildResponse s.setup s.drawn outcome s.ids)

/-- `terminal`. -/
def terminal (response : ResponseBody L) :
    Except String (ResponsesEventStream × List (Event L)) := do
  refuseIf (s.finishBuilt = false ∨ s.terminalEmitted = true)
    "invalid Responses terminal event state"
  let payload :=
    match response.status with
    | .completed => .completed response
    | .incomplete => .incomplete response
    | .cancelled => .cancelled response
    | .failed | .inProgress => .failed response
  pure ({ s with terminalEmitted := true }.event [payload])

end ResponsesEventStream

end NInfer.Serve
