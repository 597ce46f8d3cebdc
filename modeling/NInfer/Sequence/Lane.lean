import NInfer.Foundation.Throwing
import NInfer.Prefill.Plan
import NInfer.Prefix.Matching

/-!
# Request lanes

A lane holds one sequence (`SequenceState`) and the request that drives it (`RequestControl`).  This
file models what the program does to one lane (`program_impl.h`): planning a request against the
resident sequence, occupying the lane for a prefill, the prefill's steps, the rows of a decode round
and of its resolution, retaining, reverting a cancelled prefill, capturing the sequence for a host
tier and restoring or forking it.

The sequence's own part is the `Continuation`: token ledger, prefix identity, the KV extents and the
checkpoints it can be cut back to.  It is also what a host tier stores of a lane and what the reuse
decision reads.

Device work only matters here by failing, so a call takes the failure of its device work, if any,
as an argument.  KV page tables, draft tokens, sampling state and timings are left out, as are the
hashes of checkpoint heads: a head whose hash differs from the prompt's is a head that
`hashMatches` rejects.
-/

namespace NInfer.Sequence

open Throwing
open Prefix (ResidentPrefixIdentity prefixMatches prefixItemsCompleteAt)
open Prefill (PrefixReusePath PrefillPace prefillStepTokens selectPrefillChunk)

/-- What the program throws.  `device` stands for a failed CUDA call or allocation. -/
inductive Error where
  | logicError (what : String)
  | invalidArgument (what : String)
  | runtimeError (what : String)
  | identity (e : Prefix.Exception)
  | device
  deriving DecidableEq

/-! ## State -/

inductive RewriteCheckpointKind where
  | turnClosure
  | responseReplay
  deriving DecidableEq

structure RewriteCheckpointSpec where
  kind : RewriteCheckpointKind
  frontier : ℕ
  generationOpener : Bool := false
  deriving DecidableEq

structure RewriteCheckpoint where
  valid : Bool := false
  kind : RewriteCheckpointKind := .turnClosure
  frontier : ℕ := 0
  deriving DecidableEq

inductive ContextCheckpointKind where
  | ladder
  | turnRollback
  deriving DecidableEq

structure ContextCheckpointHead where
  frontier : ℕ
  kind : ContextCheckpointKind
  deriving DecidableEq

/-- The part of a `SequenceState` that outlives the request: what a host tier stores. -/
structure Continuation where
  executionFrontier : ℕ := 0
  ledgerFrontier : ℕ := 0
  ledger : List (BitVec 32) := []
  prefixIdentity : ResidentPrefixIdentity := {}
  ropeDelta : BitVec 32 := 0
  textKvValid : ℕ := 0
  mtpKvValid : ℕ := 0
  dflashContextFrontier : ℕ := 0
  tailHiddenValid : Bool := false
  rewriteCheckpoint : RewriteCheckpoint := {}
  contextCheckpoints : List ContextCheckpointHead := []
  deriving DecidableEq

inductive Lifecycle where
  | empty
  | prefilling
  | active
  | pending
  | complete
  deriving DecidableEq

inductive PendingKind where
  | none
  | begin
  | ordinary
  | speculative
  deriving DecidableEq

structure PendingCandidate where
  kind : PendingKind := .none
  baseE : ℕ := 0
  baseS : ℕ := 0
  promptTokens : ℕ := 0
  produced : ℕ := 0
  deriving DecidableEq

inductive MtpBridgeMode where
  | none
  | beforeSuffix
  | afterExactHit
  deriving DecidableEq

/-- `RequestControl::Prefill`. -/
structure StagedPrefill where
  base : ℕ
  cursor : ℕ
  promptTokens : ℕ
  rewriteCheckpointCapture : Option RewriteCheckpointSpec
  prepareMtp : Bool
  mtpBridge : MtpBridgeMode
  captureContextCheckpoints : Bool
  deriving DecidableEq

/-- `SequenceKVBundle`, by whether it has a backend allocation. -/
structure SequenceKVBundle where
  backend : Bool
  deriving DecidableEq

structure Lane extends Continuation where
  kv : Option SequenceKVBundle := none
  retained : Bool := false
  disposable : Bool := false
  forkInitialized : Bool := false
  turnClosed : Bool := false
  closureFrontier : ℕ := 0
  tierUnpackedContextBase : ℕ := 0
  lifecycle : Lifecycle := .empty
  pending : PendingCandidate := {}
  prefill : Option StagedPrefill := none
  deriving DecidableEq

/-- A request is running in the lane. -/
def Lane.busy (lane : Lane) : Bool :=
  lane.lifecycle = .prefilling ∨ lane.lifecycle = .active ∨ lane.lifecycle = .pending

abbrev LaneM := Throwing Lane Error

/-- Device work, which fails or not. -/
def deviceWork {σ : Type} : Option Error → Throwing σ Error Unit
  | none => pure ()
  | some e => throw e

/-- A call on the lane's prefix identity, whose exceptions pass through. -/
def identityCall (x : Except Prefix.Exception ResidentPrefixIdentity) :
    LaneM ResidentPrefixIdentity :=
  ofExcept Error.identity x

/-- The lane that `clear_lane` leaves: only the RoPE delta is not reset. -/
def Lane.cleared (lane : Lane) : Lane := { ropeDelta := lane.ropeDelta }

/-- `clear_lane`, which is also `abort_lane`. -/
def clearLane : LaneM Unit := modify Lane.cleared

/-- `try { m } catch (...) { clear_lane; throw; }`. -/
def orClear (m : LaneM Unit) : LaneM Unit :=
  tryCatch m fun e => do
    clearLane
    throw e

/-- `evict_retained_lane`. -/
def evictRetainedLane : LaneM Unit :=
  modify fun lane => if lane.retained then lane.cleared else lane

/-- `mark_turn_closed`. -/
def markTurnClosed : LaneM Unit :=
  modify fun lane => if lane.retained then { lane with turnClosed := true } else lane

/-- `drop_context_checkpoints_after`. -/
def Lane.dropContextCheckpointsAfter (lane : Lane) (frontier : ℕ) : Lane :=
  { lane with contextCheckpoints := lane.contextCheckpoints.filter (·.frontier ≤ frontier) }

/-- The first head at `frontier`. -/
def Continuation.headAt (c : Continuation) (frontier : ℕ) : Option ContextCheckpointHead :=
  c.contextCheckpoints.find? fun head => head.frontier = frontier

/-- `reserve_sequence_kv`: MTP and a DFlash drafter with full layers grow a backend cache. -/
def reserveSequenceKv (p : Program) : SequenceKVBundle :=
  ⟨p.options.backend = .mtp ∨ (p.options.backend = .dflash ∧ p.target.dflashFullLayers)⟩

/-! ## Planning -/

/-- `PreparedPromptData`, as far as planning and occupying a lane read it. -/
structure Prompt extends Prefix.PreparedPrompt where
  rewriteCheckpoint : Option RewriteCheckpointSpec := none
  ropeDelta : BitVec 32 := 0
  reusable : Bool := true

def Prompt.tokens (prompt : Prompt) : ℕ := prompt.tokenIds.length

/-- `RequestBasePlan`, as far as reuse reads it. -/
structure BaseOptions where
  allowPrefixReuse : Bool := true
  forceColdPrefill : Bool := false
  cacheWrite : Bool := true
  captureContextCheckpoint : Bool := false

def isRewriteCheckpointRestore (path : PrefixReusePath) : Bool :=
  path = .restoreTurnCheckpoint ∨ path = .restoreResponseCheckpoint

def isStagedCheckpointRestore (path : PrefixReusePath) : Bool :=
  path = .restoreContextCheckpoint ∨ path = .restoreTurnRollback

def isCompleteCheckpointRestore (path : PrefixReusePath) : Bool :=
  isRewriteCheckpointRestore path || isStagedCheckpointRestore path

/-- `rewrite_restore_path`. -/
def rewriteRestorePath : RewriteCheckpointKind → PrefixReusePath
  | .turnClosure => .restoreTurnCheckpoint
  | .responseReplay => .restoreResponseCheckpoint

/-- `reuse_path_for_context_checkpoint_kind`. -/
def reusePathForContextCheckpointKind : ContextCheckpointKind → PrefixReusePath
  | .ladder => .restoreContextCheckpoint
  | .turnRollback => .restoreTurnRollback

/-- `mtp_prefix_reuse_ready`. -/
def mtpPrefixReuseReady (state : Continuation) (path : PrefixReusePath) (frontier : ℕ) : Bool :=
  match path with
  | .fullReset => true
  | .appendAtFrontier =>
    state.tailHiddenValid ∧ (frontier = 0 ∨ state.mtpKvValid ≥ frontier - 1)
  | _ => frontier ≠ 0 ∧ state.mtpKvValid ≥ frontier - 1

/-- `reuse_candidate_ready`. -/
def reuseCandidateReady (p : Program) (state : Continuation) (backendImagePresent : Bool)
    (promptTokens : ℕ) (path : PrefixReusePath) (frontier : ℕ) : Bool :=
  if path = .appendAtFrontier ∧ promptTokens = frontier ∧ ¬state.tailHiddenValid then false
  else if path = .appendAtFrontier ∧ p.options.backend = .dflash ∧
      state.dflashContextFrontier ≠ frontier then false
  else if p.options.backend = .mtp ∧ ¬mtpPrefixReuseReady state path frontier then false
  else if isRewriteCheckpointRestore path ∧ p.options.backend = .dflash ∧
      (state.dflashContextFrontier < frontier ∨
        (p.target.dflashFullLayers ∧ ¬backendImagePresent)) then false
  else true

/-- `PrefillReuseSelection`. -/
structure ReuseSelection where
  path : PrefixReusePath := .fullReset
  frontier : ℕ := 0

/-- One iteration of the loop over matching heads: a strictly longer one wins. -/
def ReuseSelection.longer (best : ReuseSelection) (head : ContextCheckpointHead) :
    ReuseSelection :=
  if head.frontier > best.frontier then
    ⟨reusePathForContextCheckpointKind head.kind, head.frontier⟩
  else best

/-- `decide_resident_reuse`: an append at the execution frontier wins, then the longest usable
checkpoint, the rewrite checkpoint first among equals. -/
def decideResidentReuse (p : Program) (state : Continuation) (backendImagePresent : Bool)
    (prompt : Prompt) (hashMatches : ContextCheckpointHead → Bool) : ReuseSelection :=
  let ready := reuseCandidateReady p state backendImagePresent prompt.tokens
  let matching := prefixMatches prompt.toPreparedPrompt state.ledger state.prefixIdentity
  if state.executionFrontier ≠ 0 ∧ ready .appendAtFrontier state.executionFrontier ∧
      matching state.executionFrontier then
    ⟨.appendAtFrontier, state.executionFrontier⟩
  else
    let rewrite := state.rewriteCheckpoint
    let rewritePath := rewriteRestorePath rewrite.kind
    let matchingHeads := state.contextCheckpoints.filter fun head =>
      head.frontier ≠ 0 ∧ head.frontier ≤ prompt.tokens ∧ hashMatches head ∧
        matching head.frontier ∧ ready (reusePathForContextCheckpointKind head.kind) head.frontier
    matchingHeads.foldl ReuseSelection.longer
      (if rewrite.valid ∧ rewrite.frontier ≠ 0 ∧ matching rewrite.frontier ∧
          ready rewritePath rewrite.frontier then
        ⟨rewritePath, rewrite.frontier⟩ else {})

inductive RewriteCheckpointAction where
  | drop
  | keepExisting
  | reclassifyExisting
  | captureNew
  | deferCapture
  deriving DecidableEq

/-- `PrefixReuseSource`. -/
inductive ReuseSource where
  | none
  | vramResident
  | hostTier
  deriving DecidableEq

/-- `CacheReadIntent`. -/
inductive CacheReadIntent where
  | consume
  | fork
  deriving DecidableEq

/-- `RequestPlanImpl`, as far as occupying a lane reads it. -/
structure RequestPlan where
  reuse : PrefixReusePath
  reuseBase : ℕ
  reuseSource : ReuseSource
  rewriteCheckpointAction : RewriteCheckpointAction
  rewriteCheckpointCapture : Option RewriteCheckpointSpec
  prepareMtp : Bool
  mtpBridge : MtpBridgeMode
  cacheReadIntent : CacheReadIntent
  captureContextCheckpoints : Bool
  captureContextCheckpoint : Bool

/-- What `finish_request_plan` does with the checkpoint the prompt asks for. -/
def rewriteCheckpointAction (view : Option Continuation) (prompt : Prompt) (options : BaseOptions)
    (selected : ReuseSelection) : RewriteCheckpointAction :=
  match prompt.rewriteCheckpoint with
  | none => .drop
  | some desired =>
    if ¬options.cacheWrite then .drop
    else
      match view.filter fun state => selected.path ≠ .fullReset ∧ state.rewriteCheckpoint.valid ∧
          state.rewriteCheckpoint.frontier = desired.frontier ∧
          prefixMatches prompt.toPreparedPrompt state.ledger state.prefixIdentity
            desired.frontier with
      | some state =>
        if state.rewriteCheckpoint.kind = desired.kind then .keepExisting else .reclassifyExisting
      | none => if desired.frontier > selected.frontier then .captureNew else .deferCapture

/-- The bridge that MTP needs from its reuse base, one slot behind the text. -/
def plannedMtpBridge (p : Program) (prompt : Prompt) (selected : ReuseSelection) :
    MtpBridgeMode :=
  if p.options.backend = .mtp ∧ (selected.path = .appendAtFrontier ∨
      isCompleteCheckpointRestore selected.path) then
    if selected.frontier < prompt.tokens then .beforeSuffix else .afterExactHit
  else .none

/-- `finish_request_plan`. -/
def finishRequestPlan (p : Program) (view : Option Continuation) (prompt : Prompt)
    (options : BaseOptions) (source : ReuseSource) (selected : ReuseSelection) : RequestPlan where
  reuse := selected.path
  reuseBase := if selected.path = .fullReset then 0 else selected.frontier
  reuseSource := if selected.path = .fullReset then .none else source
  rewriteCheckpointAction := rewriteCheckpointAction view prompt options selected
  rewriteCheckpointCapture :=
    if rewriteCheckpointAction view prompt options selected = .captureNew then
      prompt.rewriteCheckpoint else none
  prepareMtp := p.options.backend = .mtp
  mtpBridge := plannedMtpBridge p prompt selected
  cacheReadIntent := if options.cacheWrite then .consume else .fork
  captureContextCheckpoints := options.cacheWrite ∧ options.allowPrefixReuse ∧
    p.options.backend ≠ .none
  captureContextCheckpoint := options.captureContextCheckpoint

/-- `apply_reuse_decision`: the reuse that a request gets from a resident or stored sequence. -/
def applyReuseDecision (p : Program) (state : Continuation) (backendImagePresent : Bool)
    (prompt : Prompt) (options : BaseOptions) (hashMatches : ContextCheckpointHead → Bool) :
    ReuseSelection :=
  if ¬options.allowPrefixReuse ∨ options.forceColdPrefill ∨ ¬prompt.reusable then {}
  else decideResidentReuse p state backendImagePresent prompt hashMatches

/-- `plan_request_for_lane`. -/
def planRequestForLane (p : Program) (lane : Lane) (prompt : Prompt) (options : BaseOptions)
    (hashMatches : ContextCheckpointHead → Bool) : RequestPlan :=
  if lane.retained then
    finishRequestPlan p (some lane.toContinuation) prompt options .vramResident
      (applyReuseDecision p lane.toContinuation (lane.kv.any (·.backend)) prompt options
        hashMatches)
  else finishRequestPlan p none prompt options .vramResident {}

/-- `plan_ram_reuse` and `plan_disk_reuse`, at the entry that matched. -/
def planHostReuse (p : Program) (image : Continuation) (backendImagePresent : Bool)
    (prompt : Prompt) (options : BaseOptions) (hashMatches : ContextCheckpointHead → Bool) :
    RequestPlan :=
  let selected := applyReuseDecision p image backendImagePresent prompt options hashMatches
  if selected.frontier = 0 then finishRequestPlan p none prompt options .hostTier selected
  else finishRequestPlan p (some image) prompt options .hostTier selected

/-! ## Occupying a lane -/

/-- What allocators and the device decide while a lane is occupied. -/
structure Occupation where
  /-- The staging slot exists. -/
  staging : Bool := false
  /-- The head pool has a free head. -/
  headAvailable : Bool := false
  /-- `tier_unpacked_context_hash` is the hash of the head at the base. -/
  unpackedHashMatches : Bool := true
  failure : Option Error := none

/-- The checks of `start_prefill_lane` on the plan, made before anything is written. -/
def requirePlan (prompt : Prompt) (plan : RequestPlan) : LaneM Unit := do
  let lane ← get
  let matching := prefixMatches prompt.toPreparedPrompt lane.ledger lane.prefixIdentity
  let rewrite := lane.rewriteCheckpoint
  throwIf lane.busy (.logicError "staged prefill requires a free request lane")
  throwIf (∃ spec ∈ prompt.rewriteCheckpoint, spec.frontier = 0 ∨ spec.frontier > prompt.tokens)
    (.invalidArgument "prepared prompt has an invalid rewrite checkpoint")
  throwIf (plan.reuse ≠ .fullReset ∧
      ((¬lane.retained ∧ ¬lane.forkInitialized) ∨ ¬matching plan.reuseBase))
    (.logicError "planned resident prefix is no longer reusable")
  throwIf (lane.forkInitialized ∧ (plan.cacheReadIntent ≠ .fork ∨
      plan.reuseSource ≠ .vramResident ∨ lane.executionFrontier ≠ plan.reuseBase ∨
      lane.textKvValid ≠ plan.reuseBase ∨ ¬lane.tailHiddenValid))
    (.logicError "initialized fork does not describe the selected current state")
  throwIf (¬lane.forkInitialized ∧ isRewriteCheckpointRestore plan.reuse ∧
      (¬rewrite.valid ∨ rewrite.frontier ≠ plan.reuseBase ∨
        plan.reuse ≠ rewriteRestorePath rewrite.kind))
    (.logicError "planned rewrite checkpoint is unavailable")
  throwIf (¬lane.forkInitialized ∧ isStagedCheckpointRestore plan.reuse ∧
      ¬(∃ head ∈ lane.headAt plan.reuseBase,
        (head.kind = .turnRollback ↔ plan.reuse = .restoreTurnRollback) ∧
          matching plan.reuseBase))
    (.logicError "planned context checkpoint is unavailable")
  throwIf (plan.rewriteCheckpointAction = .keepExisting ∧
      ¬(∃ spec ∈ prompt.rewriteCheckpoint, rewrite.valid ∧ rewrite.kind = spec.kind ∧
        rewrite.frontier = spec.frontier ∧ plan.reuse ≠ .fullReset ∧ matching rewrite.frontier))
    (.logicError "planned rewrite checkpoint retention is unavailable")
  throwIf (plan.rewriteCheckpointAction = .reclassifyExisting ∧
      ¬(∃ spec ∈ prompt.rewriteCheckpoint, rewrite.valid ∧ rewrite.kind ≠ spec.kind ∧
        rewrite.frontier = spec.frontier ∧ plan.reuse ≠ .fullReset ∧ matching rewrite.frontier))
    (.logicError "planned rewrite checkpoint reclassification is unavailable")
  throwIf (plan.rewriteCheckpointAction = .captureNew ∧
      ¬(∃ capture ∈ plan.rewriteCheckpointCapture, ∃ spec ∈ prompt.rewriteCheckpoint,
        capture.kind = spec.kind ∧ capture.frontier = spec.frontier ∧
          capture.frontier > plan.reuseBase ∧ capture.frontier ≤ prompt.tokens))
    (.logicError "planned rewrite checkpoint capture is invalid")
  throwIf (plan.rewriteCheckpointAction = .drop ∧ plan.cacheReadIntent = .consume ∧
      prompt.rewriteCheckpoint.isSome)
    (.logicError "planned rewrite checkpoint drop does not describe the prompt")
  throwIf (plan.rewriteCheckpointAction = .deferCapture ∧
      ¬(∃ spec ∈ prompt.rewriteCheckpoint, plan.reuse ≠ .fullReset ∧
        spec.frontier ≤ plan.reuseBase))
    (.logicError "planned rewrite checkpoint deferral is invalid")

/-- `std::vector::resize`. -/
def resize (tokens : List (BitVec 32)) (size : ℕ) : List (BitVec 32) :=
  tokens.take size ++ List.replicate (size - tokens.length) 0

/-- `should_capture_turn_rollback`. -/
def shouldCaptureTurnRollback (reuse : PrefixReusePath) (base promptTokens : ℕ)
    (enabled tailHiddenValid already complete : Bool) : Bool :=
  reuse = .appendAtFrontier ∧ base ≠ 0 ∧ promptTokens > base ∧ enabled ∧ tailHiddenValid ∧
    ¬already ∧ complete

/-- `should_capture_exact_hit_pin`. -/
def shouldCaptureExactHitPin (requestPin : Bool) (base promptTokens : ℕ)
    (enabled tailHiddenValid already complete : Bool) : Bool :=
  requestPin ∧ base ≠ 0 ∧ promptTokens = base ∧ enabled ∧ tailHiddenValid ∧ ¬already ∧ complete

/-- The rollback head at `base`, in the place of an older one or in a head from the pool. -/
def Lane.pinTurnRollback (lane : Lane) (base : ℕ) (headAvailable : Bool) : Lane :=
  if lane.contextCheckpoints.any (·.kind = .turnRollback) then
    { lane with
      contextCheckpoints :=
        lane.contextCheckpoints.eraseP (·.kind = .turnRollback) ++ [⟨base, .turnRollback⟩] }
  else if headAvailable then
    { lane with contextCheckpoints := lane.contextCheckpoints ++ [⟨base, .turnRollback⟩] }
  else lane

/-- `maybe_capture_turn_rollback`. -/
def maybeCaptureTurnRollback (prompt : Prompt) (plan : RequestPlan) (occupation : Occupation)
    (cutRestore : Bool) : LaneM Unit :=
  modify fun lane =>
    let base := plan.reuseBase
    let enabled := plan.captureContextCheckpoints && occupation.staging
    let already := lane.contextCheckpoints.any (·.frontier = base)
    let complete := prefixItemsCompleteAt prompt.visionItems base
    let autoRollback := !(cutRestore && lane.closureFrontier ≠ 0)
    if ¬(autoRollback ∧ shouldCaptureTurnRollback plan.reuse base prompt.tokens enabled
          lane.tailHiddenValid already complete) ∧
        ¬shouldCaptureExactHitPin plan.captureContextCheckpoint base prompt.tokens enabled
          lane.tailHiddenValid already complete then lane
    else if lane.ledger.length < base then lane
    else lane.pinTurnRollback base occupation.headAvailable

/-- MTP keeps the slots before the base, one fewer than the text: the last one is bridged. -/
def rewindMtp (plan : RequestPlan) (shorter : String) : LaneM Unit := do
  let lane ← get
  throwIf (¬plan.prepareMtp ∨ lane.mtpKvValid < plan.reuseBase - 1) (.logicError shorter)
  modify fun lane => { lane with mtpKvValid := plan.reuseBase - 1 }

/-- The DFlash context is cut back to a checkpoint. -/
def rewindDFlash (p : Program) (plan : RequestPlan) (unavailable : String) : LaneM Unit := do
  let lane ← get
  throwIf (lane.dflashContextFrontier < plan.reuseBase ∨
      (p.target.dflashFullLayers ∧ ¬lane.kv.any (·.backend))) (.logicError unavailable)
  modify fun lane => { lane with dflashContextFrontier := plan.reuseBase }

/-- The backend of a restored checkpoint. -/
def rewindBackend (p : Program) (plan : RequestPlan) (mtpShorter dflashUnavailable : String) :
    LaneM Unit :=
  match p.options.backend with
  | .none => pure ()
  | .mtp => rewindMtp plan mtpShorter
  | .dflash => rewindDFlash p plan dflashUnavailable

/-- An initialized fork is already at the base. -/
def occupyFork : LaneM Unit := modify fun lane => { lane with forkInitialized := false }

/-- `FullReset`.  The rewrite checkpoint is not touched here. -/
def occupyFullReset (p : Program) : LaneM Unit :=
  modify fun lane =>
    { lane with
      kv := some (reserveSequenceKv p)
      contextCheckpoints := []
      ledger := []
      textKvValid := 0
      mtpKvValid := 0
      dflashContextFrontier := 0 }

/-- The ledger and the checkpoints of a sequence that continues from `base`. -/
def Lane.continueFrom (lane : Lane) (base : ℕ) : Lane :=
  Lane.dropContextCheckpointsAfter
    { lane with textKvValid := base, ledger := resize lane.ledger base } base

/-- The backend at an append: MTP is rewound, a DFlash context must end there. -/
def appendBackend (p : Program) (plan : RequestPlan) : LaneM Unit :=
  match p.options.backend with
  | .none => pure ()
  | .mtp => rewindMtp plan "resident MTP KV is shorter than the bridge frontier"
  | .dflash => do
    let lane ← get
    throwIf (lane.dflashContextFrontier ≠ plan.reuseBase)
      (.logicError "resident DFlash context is not at the append frontier")

/-- `AppendAtFrontier`. -/
def occupyAppend (p : Program) (prompt : Prompt) (plan : RequestPlan) (occupation : Occupation) :
    LaneM Unit := do
  let lane ← get
  throwIf lane.kv.isNone (.logicError "resident prefix has no KV allocation bundle")
  throwIf (lane.textKvValid < plan.reuseBase)
    (.logicError "resident Text KV is shorter than the append frontier")
  appendBackend p plan
  modify fun lane => lane.continueFrom plan.reuseBase
  let cutRestore := plan.reuseSource = .hostTier ∧ ¬lane.rewriteCheckpoint.valid
  maybeCaptureTurnRollback prompt plan occupation cutRestore

/-- `RestoreTurnCheckpoint` and `RestoreResponseCheckpoint`. -/
def occupyRewriteCheckpoint (p : Program) (prompt : Prompt) (plan : RequestPlan)
    (occupation : Occupation) : LaneM Unit := do
  let lane ← get
  throwIf (lane.kv.isNone ∨ lane.textKvValid < plan.reuseBase)
    (.logicError "resident rewrite checkpoint has no complete KV allocation")
  rewindBackend p plan "rewrite-checkpoint MTP KV is shorter than the bridge frontier"
    "planned DFlash rewrite checkpoint is unavailable"
  modify fun lane =>
    Lane.continueFrom
      { lane with tailHiddenValid := lane.tailHiddenValid ∨ plan.reuseBase = prompt.tokens }
      plan.reuseBase
  maybeCaptureTurnRollback prompt plan occupation false

/-- `restore_context_checkpoint_state`.  A host tier has already unpacked the head it restored
from. -/
def restoreContextCheckpointState (p : Program) (base : ℕ) (unpackedHashMatches : Bool) :
    LaneM Unit := do
  let lane ← get
  match lane.headAt base with
  | none =>
    throwIf (lane.tierUnpackedContextBase ≠ base)
      (.logicError "context checkpoint head is missing at restore")
  | some head =>
    if lane.tierUnpackedContextBase = base ∧ unpackedHashMatches then pure ()
    else
      modify fun lane =>
        { lane with
          tailHiddenValid := true
          dflashContextFrontier :=
            if p.options.backend = .dflash then head.frontier else lane.dflashContextFrontier }

/-- `occupy_drops_rewrite_ahead_of_restore`, for a staged restore to `base`. -/
def Lane.dropRewriteAhead (lane : Lane) (base : ℕ) : Lane :=
  if lane.rewriteCheckpoint.valid ∧ lane.rewriteCheckpoint.frontier > base then
    { lane with rewriteCheckpoint := {} } else lane

/-- `RestoreContextCheckpoint` and `RestoreTurnRollback`. -/
def occupyContextCheckpoint (p : Program) (prompt : Prompt) (plan : RequestPlan)
    (occupation : Occupation) : LaneM Unit := do
  let lane ← get
  throwIf (lane.kv.isNone ∨ lane.textKvValid < plan.reuseBase)
    (.logicError "resident context checkpoint has no complete KV allocation")
  rewindBackend p plan "context-checkpoint MTP KV is shorter than the bridge frontier"
    "planned DFlash context checkpoint is unavailable"
  restoreContextCheckpointState p plan.reuseBase occupation.unpackedHashMatches
  modify fun lane => (lane.dropRewriteAhead plan.reuseBase).continueFrom plan.reuseBase
  maybeCaptureTurnRollback prompt plan occupation false

/-- The branches of `start_prefill_lane` over the reuse path. -/
def occupy (p : Program) (prompt : Prompt) (plan : RequestPlan) (occupation : Occupation) :
    LaneM Unit := do
  let lane ← get
  if lane.forkInitialized then occupyFork
  else
    match plan.reuse with
    | .fullReset => occupyFullReset p
    | .appendAtFrontier => occupyAppend p prompt plan occupation
    | .restoreTurnCheckpoint | .restoreResponseCheckpoint =>
      occupyRewriteCheckpoint p prompt plan occupation
    | .restoreContextCheckpoint | .restoreTurnRollback =>
      occupyContextCheckpoint p prompt plan occupation

/-- A request that forks its source keeps none of its checkpoints. -/
def Lane.dropForkedCheckpoints (lane : Lane) (plan : RequestPlan) : Lane :=
  if plan.cacheReadIntent = .fork then
    { lane with contextCheckpoints := [], rewriteCheckpoint := {} } else lane

/-- The checkpoint that the plan drops, or keeps under another kind. -/
def Lane.applyRewriteAction (lane : Lane) (prompt : Prompt) (plan : RequestPlan) : Lane :=
  match plan.rewriteCheckpointAction, prompt.rewriteCheckpoint with
  | .drop, _ => { lane with rewriteCheckpoint := {} }
  | .reclassifyExisting, some spec =>
    { lane with rewriteCheckpoint.kind := spec.kind }
  | _, _ => lane

/-- The request's prefill, at its base. -/
def StagedPrefill.ofPlan (prompt : Prompt) (plan : RequestPlan) : StagedPrefill where
  base := plan.reuseBase
  cursor := plan.reuseBase
  promptTokens := prompt.tokens
  rewriteCheckpointCapture := plan.rewriteCheckpointCapture
  prepareMtp := plan.prepareMtp
  mtpBridge := plan.mtpBridge
  captureContextCheckpoints := plan.captureContextCheckpoints

/-- The lane that starts a prefill of `prompt`. -/
def Lane.stagePrefill (lane : Lane) (prompt : Prompt) (plan : RequestPlan)
    (identity : ResidentPrefixIdentity) : Lane :=
  { lane with
    ropeDelta := prompt.ropeDelta
    pending := {}
    tierUnpackedContextBase := 0
    tailHiddenValid := plan.reuseBase = prompt.tokens ∧ lane.tailHiddenValid
    ledger := prompt.tokenIds
    prefixIdentity := identity
    prefill := some (StagedPrefill.ofPlan prompt plan)
    lifecycle := .prefilling }

/-- The lane as its new owner first writes it: idle, and the source's retention gone. -/
def Lane.takeOver (lane : Lane) (prompt : Prompt) (plan : RequestPlan) : Lane :=
  { lane with
    lifecycle := .empty
    retained := false
    turnClosed := false
    disposable := plan.cacheReadIntent = .fork
    closureFrontier :=
      if plan.cacheReadIntent = .consume then
        ((prompt.rewriteCheckpoint.filter fun spec =>
          spec.kind = .turnClosure ∧ spec.generationOpener).map (·.frontier)).getD 0
      else 0 }

/-! ## Prefill -/

/-- What one prefill chunk does on the device. -/
structure Chunk where
  processedTokens : ℕ
  finalized : Bool
  token : BitVec 32 := 0
  /-- The chunk reached the next context mark and the head pool has a free head. -/
  freezes : Bool := false
  failure : Option Error := none

/-- The staged prefill of the lane. -/
def stagedPrefill : LaneM StagedPrefill := do
  let lane ← get
  match lane.prefill.filter fun _ => lane.lifecycle = .prefilling with
  | some staged => pure staged
  | none => throw (.logicError "staged prefill step requires an active concurrent request")

/-- The MTP bridge before the first suffix chunk. -/
def bridgeBeforeSuffix (staged : StagedPrefill) : LaneM StagedPrefill :=
  if staged.mtpBridge = .beforeSuffix then do
    throwIf (staged.cursor ≠ staged.base ∨ staged.base = 0 ∨ staged.cursor ≥ staged.promptTokens)
      (.logicError "staged MTP bridge is outside the reusable suffix")
    let bridged := { staged with mtpBridge := .none }
    modify fun lane => { lane with mtpKvValid := staged.base, prefill := some bridged }
    pure bridged
  else pure staged

/-- The extents after a chunk that ends at `cursor`. -/
def Lane.extendTo (p : Program) (lane : Lane) (staged : StagedPrefill) (cursor : ℕ) : Lane :=
  { lane with
    prefill := some { staged with cursor }
    textKvValid := cursor
    mtpKvValid := if staged.prepareMtp then cursor else lane.mtpKvValid
    dflashContextFrontier :=
      if p.options.backend = .dflash then cursor else lane.dflashContextFrontier }

/-- `maybe_freeze_context_checkpoint`. -/
def Lane.maybeFreezeContextCheckpoint (lane : Lane) (staged : StagedPrefill) (cursor : ℕ)
    (freezes : Bool) : Lane :=
  if staged.captureContextCheckpoints ∧ freezes ∧
      ¬lane.contextCheckpoints.any (·.frontier = cursor) ∧ cursor ≤ lane.ledger.length then
    { lane with contextCheckpoints := lane.contextCheckpoints ++ [⟨cursor, .ladder⟩] } else lane

/-- The rewrite checkpoint once its frontier is reached. -/
def Lane.captureRewriteAt (lane : Lane) (spec : RewriteCheckpointSpec) (cursor : ℕ) : Lane :=
  if cursor ≥ spec.frontier then
    { lane with rewriteCheckpoint := ⟨true, spec.kind, spec.frontier⟩ } else lane

/-- The capture of the prompt's rewrite checkpoint after a chunk from `start` to `cursor`. -/
def captureRewrite (staged : StagedPrefill) (cursor : ℕ) : LaneM Unit :=
  match staged.rewriteCheckpointCapture with
  | none => pure ()
  | some spec => do
    throwIf (staged.cursor < spec.frontier ∧ cursor ≥ spec.frontier ∧ cursor ≠ spec.frontier)
      (.logicError "prefill chunk crossed the rewrite checkpoint frontier")
    modify fun lane => lane.captureRewriteAt spec cursor

/-- A prompt chunk has run. -/
def commitChunk (p : Program) (pace : PrefillPace) (staged : StagedPrefill) (chunk : Chunk) :
    LaneM Unit := do
  let nominal := selectPrefillChunk (staged.promptTokens - staged.cursor) (prefillStepTokens p pace)
  throwIf (chunk.processedTokens = 0 ∨ chunk.processedTokens > nominal)
    (.logicError "ordinary prefill chunk made invalid progress")
  let cursor := staged.cursor + chunk.processedTokens
  modify fun lane =>
    (lane.extendTo p staged cursor).maybeFreezeContextCheckpoint staged cursor chunk.freezes
  captureRewrite staged cursor
  throwIf (¬chunk.finalized ∧ cursor = staged.promptTokens)
    (.logicError "staged prefill reached the prompt without sampling")
  throwIf (chunk.finalized ∧ cursor ≠ staged.promptTokens)
    (.logicError "staged prefill sampled before the prompt frontier")

/-- A prompt that is wholly resident: the first token is sampled from the retained hidden state. -/
def sampleExactHit (staged : StagedPrefill) : LaneM Unit := do
  let lane ← get
  throwIf (¬lane.tailHiddenValid) (.logicError "zero-suffix reuse has no target tail hidden")
  throwIf (staged.prepareMtp ∧ staged.mtpBridge ≠ .afterExactHit)
    (.logicError "zero-suffix MTP reuse has no exact-hit bridge")
  modify fun lane =>
    { lane with
      mtpKvValid := if staged.prepareMtp then staged.promptTokens else lane.mtpKvValid }

/-- The checks on the captured rewrite checkpoint when the prefill completes. -/
def finishRewriteCapture (p : Program) (staged : StagedPrefill) : LaneM Unit :=
  match staged.rewriteCheckpointCapture with
  | none => pure ()
  | some spec => do
    let lane ← get
    throwIf (spec.frontier = 0 ∨ spec.frontier > staged.promptTokens ∨
        lane.textKvValid < spec.frontier)
      (.logicError "rewrite checkpoint was not materialized by Text prefill")
    throwIf (p.options.backend = .mtp ∧
        (¬staged.prepareMtp ∨ lane.mtpKvValid < spec.frontier - 1))
      (.logicError "rewrite checkpoint has no complete MTP prefix")
    throwIf (p.options.backend = .dflash ∧
        (lane.kv.isNone ∨ lane.dflashContextFrontier < spec.frontier ∨
          (p.target.dflashFullLayers ∧ ¬lane.kv.any (·.backend))))
      (.logicError "rewrite checkpoint has no complete DFlash prefix")
    modify fun lane => { lane with rewriteCheckpoint := ⟨true, spec.kind, spec.frontier⟩ }

/-- The prompt is resident and its first token sampled. -/
def completePrefill (p : Program) (staged : StagedPrefill) (token : BitVec 32) : LaneM Unit := do
  let lane ← get
  throwIf (lane.ledger.length ≠ staged.promptTokens)
    (.logicError "candidate token ledger does not match prompt length")
  let identity ← identityCall (lane.prefixIdentity.appendGenerated 1 lane.ropeDelta)
  modify fun lane =>
    { lane with
      ledger := lane.ledger ++ [token]
      prefixIdentity := identity
      textKvValid := staged.promptTokens
      tailHiddenValid := true }
  throwIf (staged.prepareMtp ∧ lane.mtpKvValid ≠ staged.promptTokens)
    (.logicError "staged MTP prefill did not reach the prompt frontier")
  throwIf (¬staged.prepareMtp ∧ p.options.backend = .dflash ∧
      lane.dflashContextFrontier ≠ staged.promptTokens)
    (.logicError "staged DFlash prefill did not reach the prompt frontier")
  finishRewriteCapture p staged
  modify fun lane =>
    { lane with
      prefill := none
      pending := { kind := .begin, promptTokens := staged.promptTokens, produced := 1 }
      lifecycle := .pending }

/-- The part of `advance_prefill` before the chunk's device work. -/
def beforeChunk : LaneM StagedPrefill := do
  let staged ← stagedPrefill
  bridgeBeforeSuffix staged

/-- The part of `advance_prefill` after the chunk's device work. -/
def afterChunk (p : Program) (pace : PrefillPace) (staged : StagedPrefill) (chunk : Chunk) :
    LaneM Unit :=
  if staged.cursor < staged.promptTokens then do
    commitChunk p pace staged chunk
    if chunk.finalized then completePrefill p staged chunk.token else pure ()
  else do
    sampleExactHit staged
    completePrefill p staged chunk.token

/-- `advance_prefill`. -/
def advancePrefill (p : Program) (pace : PrefillPace) (chunk : Chunk) : LaneM Unit := do
  discard stagedPrefill
  orClear do
    let staged ← beforeChunk
    deviceWork chunk.failure
    afterChunk p pace staged chunk

/-- `start_prefill_lane`, with the first step of the prefill. -/
def startPrefillLane (p : Program) (prompt : Prompt) (plan : RequestPlan) (occupation : Occupation)
    (pace : PrefillPace) (chunk : Chunk) : LaneM Unit := do
  requirePlan prompt plan
  modify fun lane => lane.takeOver prompt plan
  orClear do
    occupy p prompt plan occupation
    modify fun lane => lane.dropForkedCheckpoints plan
    deviceWork occupation.failure
    modify fun lane => lane.applyRewriteAction prompt plan
    let identity ← identityCall (ResidentPrefixIdentity.assign prompt.toPreparedPrompt)
    modify fun lane => lane.stagePrefill prompt plan identity
    advancePrefill p pace chunk

end NInfer.Sequence
