import NInfer.Foundation.Focus
import NInfer.Sequence.Lane

/-!
# Rounds, resolutions and the program's lanes

The rest of what a lane can go through: the rows of a decode round and of its resolution, retaining,
reverting a cancelled prefill, and the ways in and out of a lane other than a request's own prefill
(host tiers and forks).

The program is a family of lanes and the entries that its host tiers hold.  A round works on several
lanes at once and clears them all if it fails; a request is admitted into a lane from the lane's own
sequence, from a host entry or from another lane.  `Reachable` are the states that any sequence of
these operations leads to, with every failure the code can meet.
-/

namespace NInfer.Sequence

open Throwing
open Prefix (ResidentPrefixIdentity)
open Prefill (PrefillPace)

/-! ## Decode rounds -/

/-- What the checks of `decode_*_batch` ask of the backend. -/
def Lane.backendReady (p : Program) (lane : Lane) : Bool :=
  match p.options.backend with
  | .none => true
  | .mtp => lane.kv = some ⟨true⟩ ∧ lane.mtpKvValid = lane.executionFrontier
  | .dflash =>
    (p.target.dflashFullLayers → lane.kv = some ⟨true⟩) ∧
      lane.textKvValid = lane.executionFrontier ∧
      lane.dflashContextFrontier ≤ lane.executionFrontier ∧
      lane.executionFrontier - lane.dflashContextFrontier ≤ p.dflashVerifyWidth

/-- The checks of `decode_ordinary_batch`, `decode_mtp_batch` and `decode_dflash_batch` on one
row. -/
def Lane.decodeReady (p : Program) (lane : Lane) (budget : ℕ) : Bool :=
  lane.lifecycle = .active ∧ budget ≠ 0 ∧ lane.kv.isSome ∧ lane.executionFrontier < p.capacity ∧
    lane.ledgerFrontier = lane.executionFrontier + 1 ∧
    lane.ledger.length = lane.ledgerFrontier ∧ lane.prefixIdentity.size = lane.ledgerFrontier ∧
    lane.backendReady p

/-- How many tokens a speculative row may return. -/
def speculativeWidth (p : Program) : ℕ :=
  if p.options.backend = .dflash then p.dflashVerifyWidth else p.draftWindow + 1

/-- The commit of one row of `decode_ordinary_batch`. -/
def decodeOrdinaryRow (token : BitVec 32) (failure : Option Error) : LaneM Unit := do
  let lane ← get
  deviceWork failure
  modify fun lane =>
    { lane with
      textKvValid := lane.executionFrontier + 1
      tailHiddenValid := true
      ledger := lane.ledger ++ [token] }
  let identity ← identityCall (lane.prefixIdentity.appendGenerated 1 lane.ropeDelta)
  modify fun lane =>
    { lane with
      prefixIdentity := identity
      pending :=
        { kind := .ordinary, baseE := lane.executionFrontier, baseS := lane.ledgerFrontier,
          produced := 1 }
      lifecycle := .pending }

/-- The commit of one row of `decode_mtp_batch` or `decode_dflash_batch`: `count` tokens are
offered, and nothing but the DFlash context moves yet. -/
def decodeSpeculativeRow (p : Program) (budget count : ℕ) (failure : Option Error) :
    LaneM Unit := do
  let lane ← get
  throwIf (count = 0 ∨ count > speculativeWidth p ∨ count > budget ∨
      lane.executionFrontier + count > p.capacity)
    (.runtimeError "batch returned invalid row metadata")
  deviceWork failure
  modify fun lane =>
    { lane with
      dflashContextFrontier :=
        if p.options.backend = .dflash then lane.executionFrontier
        else lane.dflashContextFrontier
      pending :=
        { kind := .speculative, baseE := lane.executionFrontier, baseS := lane.ledgerFrontier,
          produced := count }
      lifecycle := .pending }

/-! ## Resolution -/

/-- The frontiers that a resolved round establishes. -/
def Lane.resolvedFrontiers (lane : Lane) : Lane :=
  match lane.pending.kind with
  | .begin =>
    { lane with
      executionFrontier := lane.pending.promptTokens
      ledgerFrontier := lane.pending.promptTokens + 1 }
  | _ =>
    { lane with
      executionFrontier := lane.pending.baseE + lane.pending.produced
      ledgerFrontier := lane.pending.baseS + lane.pending.produced }

/-- The lane after its round is settled: retained if the request is over. -/
def Lane.settle (lane : Lane) (terminal : Bool) : Lane :=
  { lane with
    retained := lane.retained ∨ terminal
    lifecycle := if terminal then .complete else .active
    pending := {} }

/-- `resolve_non_speculative_pending`. -/
def resolveNonSpeculativePending (acceptedTokens : ℕ) (terminal : Bool) (failure : Option Error) :
    LaneM Unit := do
  let lane ← get
  throwIf (lane.lifecycle ≠ .pending)
    (.logicError "pending resolution requires a pending generated round")
  throwIf ((lane.pending.kind ≠ .begin ∧ lane.pending.kind ≠ .ordinary) ∨
      lane.pending.produced ≠ 1 ∨ acceptedTokens ≠ 1)
    (.logicError "non-speculative pending round must commit its single token")
  modify Lane.resolvedFrontiers
  let lane ← get
  throwIf (lane.ledgerFrontier ≠ lane.executionFrontier + 1 ∨
      lane.ledger.length ≠ lane.ledgerFrontier ∨ lane.prefixIdentity.size ≠ lane.ledgerFrontier)
    (.logicError "resolved round did not establish a valid frontier")
  deviceWork failure
  modify fun lane => lane.settle terminal

/-- `resolve_prefill_lane`. -/
def resolvePrefillLane (terminal : Bool) (failure : Option Error) : LaneM Unit := do
  let lane ← get
  throwIf (lane.pending.kind ≠ .begin)
    (.logicError "resolve_prefill_lane requires a pending prefill token")
  resolveNonSpeculativePending 1 terminal failure

/-- How a row of a decode round is resolved: `token` are its licensed tokens. -/
structure Resolution where
  acceptedTokens : ℕ
  terminal : Bool := false
  cancelled : Bool := false
  rejected : Bool := false
  token : ℕ → BitVec 32 := fun _ => 0
  failure : Option Error := none

/-- One row of `resolve_pending_batch` without a speculative backend. -/
def resolveOrdinaryRow (row : Resolution) : LaneM Unit := do
  let lane ← get
  throwIf (lane.lifecycle ≠ .pending ∨ lane.pending.kind ≠ .ordinary)
    (.logicError "ordinary pending batch no longer matches Program state")
  if row.cancelled then do
    throwIf (lane.pending.produced ≠ 1 ∨ lane.ledger.length ≠ lane.pending.baseS + 1 ∨
        lane.ledgerFrontier ≠ lane.pending.baseS ∨ lane.executionFrontier ≠ lane.pending.baseE)
      (.logicError "cancelled ordinary pending round is not a single staged token")
    clearLane
  else if row.rejected then throw (.logicError "ordinary pending rounds cannot be rejected")
  else resolveNonSpeculativePending row.acceptedTokens row.terminal row.failure

/-- The checks of `resolve_pending_batch` on a speculative row, which is still at its base. -/
def requireSpeculativeRow (p : Program) (row : Resolution) (lane : Lane) : Except Error Unit := do
  refuseIf (lane.lifecycle ≠ .pending ∨ lane.pending.kind ≠ .speculative)
    (.logicError "speculative pending batch no longer matches Program state")
  refuseIf (lane.executionFrontier ≠ lane.pending.baseE ∨
      lane.ledgerFrontier ≠ lane.pending.baseS ∨ lane.ledger.length ≠ lane.pending.baseS ∨
      lane.prefixIdentity.size ≠ lane.pending.baseS ∨ lane.textKvValid ≠ lane.pending.baseE ∨
      (p.options.backend = .mtp ∧ lane.mtpKvValid ≠ lane.pending.baseE) ∨
      (p.options.backend = .dflash ∧ lane.dflashContextFrontier ≠ lane.pending.baseE))
    (.logicError "speculative pending row is not at its recorded base")
  refuseIf ((row.cancelled ∧ row.acceptedTokens ≠ 0) ∨
      (row.rejected ∧ (row.cancelled ∨ row.terminal ∨ row.acceptedTokens ≠ 0)) ∨
      (¬row.cancelled ∧ ¬row.rejected ∧
        (row.acceptedTokens = 0 ∨ row.acceptedTokens > lane.pending.produced)))
    (.logicError "speculative pending row has an invalid committed prefix")

/-- `retain_committed_sequence`. -/
def retainCommittedSequence : LaneM Unit := do
  let lane ← get
  throwIf lane.kv.isNone (.logicError "cannot retain a lane with no KV allocation bundle")
  modify fun lane =>
    { lane with prefill := none, pending := {}, retained := true, lifecycle := .complete }

/-- The extents of a speculative row that commits `committed` tokens. -/
def Lane.commitTokens (p : Program) (lane : Lane) (row : Resolution)
    (identity : ResidentPrefixIdentity) : Lane :=
  let frontier := lane.pending.baseE + row.acceptedTokens
  { lane with
    ledger := lane.ledger ++ (List.range row.acceptedTokens).map row.token
    prefixIdentity := identity
    executionFrontier := frontier
    ledgerFrontier := lane.pending.baseS + row.acceptedTokens
    textKvValid := frontier
    tailHiddenValid := true
    mtpKvValid := if p.options.backend = .mtp then frontier else lane.mtpKvValid
    dflashContextFrontier :=
      if p.options.backend = .mtp then lane.dflashContextFrontier
      else if row.terminal then frontier else lane.pending.baseE }

/-- The commit of one speculative row of `resolve_pending_batch`. -/
def commitSpeculativeRow (p : Program) (row : Resolution) : LaneM Unit :=
  if row.cancelled then do
    modify fun lane => { lane with tailHiddenValid := false }
    deviceWork row.failure
    retainCommittedSequence
  else if row.rejected then do
    deviceWork row.failure
    modify fun lane =>
      { lane with tailHiddenValid := false, lifecycle := .active, pending := {} }
  else do
    let lane ← get
    let identity ←
      identityCall (lane.prefixIdentity.appendGenerated row.acceptedTokens lane.ropeDelta)
    modify fun lane => lane.commitTokens p row identity
    deviceWork row.failure
    modify fun lane => lane.settle row.terminal

/-- `retain_reusable_lane`. -/
def retainReusableLane : LaneM Bool := do
  let lane ← get
  if lane.lifecycle = .active then
    if lane.kv.isNone then pure false
    else do
      retainCommittedSequence
      pure true
  else pure (lane.retained ∧ lane.kv.isSome ∧ lane.lifecycle = .complete)

/-! ## Reverting a cancelled prefill -/

/-- Where a cancelled prefill can go back to, and whether through a staged head. -/
def Lane.revertTarget (lane : Lane) : Option (ℕ × Bool) :=
  let inBounds (frontier : ℕ) : Bool :=
    frontier ≠ 0 ∧ frontier ≤ lane.ledger.length ∧ frontier ≤ lane.prefixIdentity.size
  let rewrite := lane.rewriteCheckpoint
  let rewriteOk : Bool := rewrite.valid ∧ inBounds rewrite.frontier
  let atBase : Option (ℕ × Bool) := lane.prefill.bind fun staged =>
    if ¬inBounds staged.base then none
    else if rewriteOk ∧ rewrite.frontier = staged.base then some (staged.base, false)
    else if lane.contextCheckpoints.any (·.frontier = staged.base) then some (staged.base, true)
    else none
  atBase.or (if rewriteOk then some (rewrite.frontier, false) else none)

/-- The state that the checkpoint at `frontier` restores. -/
def revertState (p : Program) (frontier : ℕ) (staged : Bool) : LaneM Unit :=
  if staged then do
    restoreContextCheckpointState p frontier true
    modify fun lane => lane.dropRewriteAhead frontier
  else
    modify fun lane =>
      { lane with
        tailHiddenValid := true
        dflashContextFrontier :=
          if p.options.backend = .dflash then frontier else lane.dflashContextFrontier }

/-- The identity cut back to one token behind `frontier`, generated if the prompt ends there. -/
def revertIdentity (lane : Lane) (frontier : ℕ) : Except Prefix.Exception ResidentPrefixIdentity :=
  if lane.ledger.length > frontier then lane.prefixIdentity.truncate (frontier + 1)
  else do
    let identity ← lane.prefixIdentity.truncate frontier
    identity.appendGenerated 1 lane.ropeDelta

/-- The ledger cut back to one token behind `frontier`, its last token repeated if needed. -/
def revertLedger (ledger : List (BitVec 32)) (frontier : ℕ) : List (BitVec 32) :=
  if ledger.length > frontier then resize ledger (frontier + 1)
  else ledger ++ [ledger.getD (frontier - 1) 0]

/-- The extents after a revert to `frontier`: one ledger token stays behind it. -/
def Lane.revertedTo (p : Program) (lane : Lane) (frontier : ℕ)
    (identity : ResidentPrefixIdentity) : Lane :=
  { lane with
    textKvValid := frontier
    mtpKvValid := if p.options.backend = .mtp then frontier - 1 else lane.mtpKvValid
    ledger := revertLedger lane.ledger frontier
    prefixIdentity := identity
    executionFrontier := frontier
    ledgerFrontier := frontier + 1 }

/-- The body of `revert_cancelled_prefill_lane`. -/
def revertTo (p : Program) (frontier : ℕ) (staged : Bool) (failure : Option Error) :
    LaneM Unit := do
  revertState p frontier staged
  let lane ← get
  let identity ← identityCall (revertIdentity lane frontier)
  modify fun lane => (lane.revertedTo p frontier identity).dropContextCheckpointsAfter frontier
  deviceWork failure
  retainCommittedSequence

/-- `revert_cancelled_prefill_lane`. -/
def revertCancelledPrefillLane (p : Program) (failure : Option Error) : LaneM Bool := do
  let lane ← get
  if lane.lifecycle ≠ .prefilling ∨ lane.kv.isNone then pure false
  else
    match lane.revertTarget with
    | none => pure false
    | some (frontier, staged) =>
      tryCatch (do
        revertTo p frontier staged failure
        pure true) fun _ => do
        clearLane
        pure false

/-! ## Host tiers and forks -/

/-- `capture_cuts_at_rewrite`. -/
def Lane.captureCutsAtRewrite (lane : Lane) : Bool :=
  let checkpoint := lane.rewriteCheckpoint
  lane.turnClosed ∧ checkpoint.valid ∧ checkpoint.kind = .turnClosure ∧ checkpoint.frontier ≠ 0 ∧
    checkpoint.frontier = lane.closureFrontier ∧ checkpoint.frontier < lane.executionFrontier ∧
    checkpoint.frontier ≤ lane.textKvValid ∧ checkpoint.frontier < lane.ledger.length ∧
    checkpoint.frontier < lane.prefixIdentity.size

/-- `CacheCaptureMode`. -/
inductive CacheCaptureMode where
  | completeOriginal
  | reachableTurn
  deriving DecidableEq

/-- `cut_ram_capture_source`: the lane as of its turn checkpoint. -/
def cutRamCaptureSource (p : Program) (lane : Lane) : Except Error Continuation := do
  let frontier := lane.rewriteCheckpoint.frontier
  let identity ← (lane.prefixIdentity.truncate (frontier + 1)).mapError Error.identity
  return {
    executionFrontier := frontier
    ledgerFrontier := frontier + 1
    ledger := lane.ledger.take (frontier + 1)
    prefixIdentity := identity
    ropeDelta := lane.ropeDelta
    textKvValid := frontier
    mtpKvValid := if p.options.backend = .mtp then frontier - 1 else 0
    dflashContextFrontier := if p.options.backend = .dflash then frontier else 0
    tailHiddenValid := true
    contextCheckpoints := lane.contextCheckpoints.filter (·.frontier ≤ frontier) }

/-- `ram_capture_source`. -/
def ramCaptureSource (p : Program) (mode : CacheCaptureMode) (lane : Lane) :
    Except Error Continuation := do
  refuseIf (lane.kv.isNone ∨ ¬lane.retained)
    (.logicError "RAM capture requires a retained sequence bundle")
  if mode = .reachableTurn ∧ lane.captureCutsAtRewrite then cutRamCaptureSource p lane
  else return lane.toContinuation

/-- `tier_restore_keeps_rewrite`. -/
def tierRestoreKeepsRewrite (plan : RequestPlan) : Bool :=
  plan.rewriteCheckpointAction ≠ .drop || isRewriteCheckpointRestore plan.reuse

/-- The lane that a host tier's entry is unpacked into.  `keepsHead` says which heads the pool had
room for. -/
def Lane.unpack (p : Program) (lane : Lane) (image : Continuation) (plan : RequestPlan)
    (keepsHead : ContextCheckpointHead → Bool) : Lane :=
  { lane with
    toContinuation :=
      { image with
        rewriteCheckpoint := if tierRestoreKeepsRewrite plan then image.rewriteCheckpoint else {}
        tailHiddenValid := !isRewriteCheckpointRestore plan.reuse && image.tailHiddenValid
        contextCheckpoints := image.contextCheckpoints.filter fun head =>
          head.frontier ≤ plan.reuseBase ∧ keepsHead head }
    kv := some (reserveSequenceKv p)
    retained := true
    turnClosed := false
    closureFrontier := 0 }

/-- The planned head is unpacked into the current state. -/
def Lane.unpackStaged (p : Program) (lane : Lane) (base : ℕ) : Lane :=
  Lane.dropRewriteAhead { lane with
    tierUnpackedContextBase := base
    tailHiddenValid := true
    dflashContextFrontier :=
      if p.options.backend = .dflash then base else lane.dflashContextFrontier } base

/-- `restore_ram_entry` and `restore_disk_entry`. -/
def restoreHostEntry (p : Program) (image : Continuation) (plan : RequestPlan)
    (keepsHead : ContextCheckpointHead → Bool) (failure : Option Error) : LaneM Unit := do
  let lane ← get
  throwIf (plan.reuse = .fullReset ∨ plan.reuseSource ≠ .hostTier ∨ plan.reuseBase = 0)
    (.logicError "restore requires a winning host reuse plan")
  throwIf lane.busy (.logicError "restore requires a free request lane")
  orClear do
    throwIf lane.retained (.logicError "restore requires an empty lane")
    modify fun lane => lane.unpack p image plan keepsHead
    deviceWork failure
    if isStagedCheckpointRestore plan.reuse then
      modify fun lane => lane.unpackStaged p plan.reuseBase
    else pure ()

/-- Whether `source` holds the state that a fork at `frontier` starts from. -/
def forkSourceMissing (source : Lane) (plan : RequestPlan) : Bool :=
  match plan.reuse with
  | .restoreTurnCheckpoint | .restoreResponseCheckpoint =>
    ¬source.rewriteCheckpoint.valid ∨ source.rewriteCheckpoint.frontier ≠ plan.reuseBase
  | .restoreContextCheckpoint | .restoreTurnRollback =>
    ¬source.contextCheckpoints.any (·.frontier = plan.reuseBase)
  | .appendAtFrontier => source.executionFrontier ≠ plan.reuseBase
  | .fullReset => true

/-- The destination of a fork at the plan's base. -/
def Lane.forkFrom (p : Program) (lane source : Lane) (frontier : ℕ) : Lane :=
  { lane with
    ledger := source.ledger
    prefixIdentity := source.prefixIdentity
    ledgerFrontier := source.ledgerFrontier
    ropeDelta := source.ropeDelta
    executionFrontier := frontier
    textKvValid := frontier
    mtpKvValid := if p.options.backend = .mtp then frontier - 1 else 0
    dflashContextFrontier := if p.options.backend = .dflash then frontier else 0
    tailHiddenValid := true
    disposable := true
    kv := some (reserveSequenceKv p) }

/-- `fork_retained_lane`, at the destination. -/
def forkRetainedLane (p : Program) (source : Lane) (plan : RequestPlan) (failure : Option Error) :
    LaneM Unit := do
  let lane ← get
  throwIf (¬source.retained ∨ lane.kv.isSome ∨ lane.lifecycle ≠ .empty)
    (.logicError "resident fork requires a retained source and empty distinct destination")
  throwIf (plan.cacheReadIntent ≠ .fork ∨ plan.reuseBase = 0 ∨ plan.reuseSource ≠ .vramResident)
    (.logicError "resident fork requires a winning resident reuse plan")
  throwIf (source.kv.isNone ∨ plan.reuseBase > source.textKvValid)
    (.logicError "resident fork exceeds source KV frontier")
  orClear do
    modify fun lane => lane.forkFrom p source plan.reuseBase
    throwIf (forkSourceMissing source plan)
      (.logicError "resident fork current state is not at the selected frontier")
    deviceWork failure
    modify fun lane => { lane with forkInitialized := true }

/-! ## The program -/

variable {n : ℕ}

/-- The program's lanes and the entries of its host tiers. -/
structure State (n : ℕ) where
  lanes : Fin n → Lane := fun _ => {}
  images : List Continuation := []

abbrev ProgramM (n : ℕ) := Throwing (Fin n → Lane) Error

/-- One row of a decode round: what the device returns for it. -/
structure DecodeRow (n : ℕ) where
  lane : Fin n
  budget : ℕ
  count : ℕ := 1
  token : BitVec 32 := 0
  failure : Option Error := none

/-- The checks of a decode round on its rows, made before anything is written. -/
def requireDecodeRows (p : Program) : List (Fin n) → List (DecodeRow n) → ProgramM n Unit
  | _, [] => pure ()
  | seen, row :: rows => do
    throwIf (row.lane ∈ seen) (.invalidArgument "batch contains an invalid or duplicate lane")
    let lanes ← get
    throwIf (¬(lanes row.lane).decodeReady p row.budget)
      (.logicError "batch row is not decode-ready")
    requireDecodeRows p (row.lane :: seen) rows

/-- The commit of one row. -/
def decodeRow (p : Program) (row : DecodeRow n) : LaneM Unit :=
  if p.options.backend = .none then decodeOrdinaryRow row.token row.failure
  else decodeSpeculativeRow p row.budget row.count row.failure

/-- `decode_batch`. -/
def decodeBatch (p : Program) (rows : List (DecodeRow n)) (failure : Option Error) :
    ProgramM n Unit := do
  throwIf (rows.isEmpty) (.invalidArgument "batch membership is invalid")
  requireDecodeRows p [] rows
  resettingOnThrow rows DecodeRow.lane clearLane do
    deviceWork failure
    forEach rows fun row => focus row.lane (decodeRow p row)

/-- `prefill_mixable`, for a prompt without media or grammar. -/
def Lane.prefillMixable (p : Program) (lane : Lane) : Bool :=
  p.options.backend = .dflash ∧ p.mixedForward ≠ 0 ∧ lane.lifecycle = .prefilling ∧
    lane.prefill.any fun staged =>
      ¬staged.prepareMtp ∧ staged.mtpBridge = .none ∧ staged.cursor < staged.promptTokens

/-- `decode_batch_with_prefill`: the owner's chunk runs inside the round. -/
def decodeBatchWithPrefill (p : Program) (rows : List (DecodeRow n)) (owner : Fin n)
    (chunk : Chunk) : ProgramM n Unit := do
  let lanes ← get
  throwIf (¬(lanes owner).prefillMixable p ∨ owner ∈ rows.map DecodeRow.lane)
    (.logicError "mixed DFlash round requires a mixable owner outside the batch")
  tryCatch (do
    let staged ← focus owner beforeChunk
    decodeBatch p rows chunk.failure
    focus owner (afterChunk p .shared staged chunk)) fun e => do
    focus owner clearLane
    throw e

/-- One row of a resolution. -/
structure ResolveRow (n : ℕ) where
  lane : Fin n
  resolution : Resolution

/-- `resolve_pending_batch`.  Without a speculative backend each row is settled for itself. -/
def resolvePendingBatch (p : Program) (rows : List (ResolveRow n)) (failure : Option Error) :
    ProgramM n Unit := do
  throwIf (rows.isEmpty)
    (.invalidArgument "pending batch resolution has inconsistent membership")
  if p.options.backend = .none then
    forEach rows fun row => focus row.lane (resolveOrdinaryRow row.resolution)
  else do
    forEach rows fun row => do
      let lanes ← get
      ofExcept id (requireSpeculativeRow p row.resolution (lanes row.lane))
    resettingOnThrow rows ResolveRow.lane clearLane do
      deviceWork failure
      forEach rows fun row => focus row.lane (commitSpeculativeRow p row.resolution)

/-- Where an admitted request finds its prefix. -/
inductive Source (n : ℕ) where
  | resident
  | host (image : Continuation) (backendImagePresent : Bool)
  | fork (source : Fin n)

/-- The admission of a request to a lane. -/
structure Admission (n : ℕ) where
  lane : Fin n
  source : Source n
  prompt : Prompt
  options : BaseOptions := {}
  hashMatches : ContextCheckpointHead → Bool := fun _ => true
  keepsHead : ContextCheckpointHead → Bool := fun _ => true
  copyFailure : Option Error := none
  occupation : Occupation := {}
  pace : PrefillPace := .shared
  chunk : Chunk

namespace Admission

/-- The lane starts the prefill that was planned. -/
def start (p : Program) (a : Admission n) (plan : RequestPlan) : ProgramM n Unit :=
  focus a.lane (startPrefillLane p a.prompt plan a.occupation a.pace a.chunk)

/-- A request planned against the lane's own sequence.  The executor evicts a sequence of which
nothing is reused before it starts the prefill. -/
def fromResident (p : Program) (a : Admission n) (lane : Lane) : ProgramM n Unit := do
  let plan := planRequestForLane p lane a.prompt a.options a.hashMatches
  if plan.reuse = .fullReset then do
    focus a.lane evictRetainedLane
    a.start p plan
  else a.start p plan

/-- A request planned against a host entry, which is restored into the evicted lane. -/
def fromHost (p : Program) (a : Admission n) (image : Continuation) (backendImagePresent : Bool) :
    ProgramM n Unit := do
  let plan := planHostReuse p image backendImagePresent a.prompt a.options a.hashMatches
  focus a.lane evictRetainedLane
  focus a.lane (restoreHostEntry p image plan a.keepsHead a.copyFailure)
  a.start p plan

/-- A request planned against another lane's sequence, which is copied into the evicted lane. -/
def fromFork (p : Program) (a : Admission n) (source : Lane) : ProgramM n Unit := do
  let plan := planRequestForLane p source a.prompt a.options a.hashMatches
  focus a.lane evictRetainedLane
  focus a.lane (forkRetainedLane p source plan a.copyFailure)
  a.start p plan

/-- An attempt to admit the request. -/
def attempt (p : Program) (a : Admission n) : ProgramM n Unit := do
  let lanes ← get
  match a.source with
  | .resident => a.fromResident p (lanes a.lane)
  | .host image backendImagePresent => a.fromHost p image backendImagePresent
  | .fork source => do
    throwIf (source = a.lane)
      (.logicError "resident fork requires a retained source and empty distinct destination")
    a.fromFork p (lanes source)

/-- The executor aborts the lane of an attempt that fails. -/
def run (p : Program) (a : Admission n) : ProgramM n Unit :=
  tryCatch (a.attempt p) fun e => do
    focus a.lane clearLane
    throw e

end Admission

/-- What can happen to the program's lanes. -/
inductive Op (n : ℕ) where
  | attempt (a : Admission n)
  | advancePrefill (lane : Fin n) (pace : PrefillPace) (chunk : Chunk)
  | resolvePrefill (lane : Fin n) (terminal : Bool) (failure : Option Error)
  | decode (rows : List (DecodeRow n)) (failure : Option Error)
  | decodeWithPrefill (rows : List (DecodeRow n)) (owner : Fin n) (chunk : Chunk)
  | resolve (rows : List (ResolveRow n)) (failure : Option Error)
  | retain (lane : Fin n)
  | revertCancelledPrefill (lane : Fin n) (failure : Option Error)
  | abort (lane : Fin n)
  | evict (lane : Fin n)
  | markTurnClosed (lane : Fin n)
  | capture (lane : Fin n) (mode : CacheCaptureMode)
  | restart

/-- What the caller of an operation sees to: requests go to free lanes and host entries are entries
of the tiers, and a round is resolved once for each of its lanes. -/
def Op.enabled (s : State n) : Op n → Prop
  | .attempt a => (s.lanes a.lane).busy = false ∧
      match a.source with
      | .host image _ => image ∈ s.images
      | _ => True
  | .resolve rows _ => (rows.map ResolveRow.lane).Nodup
  | _ => True

/-- The lanes after a program has run on them, thrown or not. -/
def State.apply {α : Type} (s : State n) (m : ProgramM n α) : State n :=
  { s with lanes := m.after s.lanes }

/-- The host tiers after a lane was captured.  Only an ordinary sequence is stored. -/
def State.capture (p : Program) (s : State n) (lane : Lane) (mode : CacheCaptureMode) : State n :=
  match ramCaptureSource p mode lane with
  | .ok image => if lane.disposable then s else { s with images := image :: s.images }
  | .error _ => s

/-- One operation. -/
def State.step (p : Program) (s : State n) : Op n → State n
  | .attempt a => s.apply (a.run p)
  | .advancePrefill lane pace chunk => s.apply (focus lane (advancePrefill p pace chunk))
  | .resolvePrefill lane terminal failure =>
    s.apply (focus lane (resolvePrefillLane terminal failure))
  | .decode rows failure => s.apply (decodeBatch p rows failure)
  | .decodeWithPrefill rows owner chunk => s.apply (decodeBatchWithPrefill p rows owner chunk)
  | .resolve rows failure => s.apply (resolvePendingBatch p rows failure)
  | .retain lane => s.apply (focus lane retainReusableLane)
  | .revertCancelledPrefill lane failure =>
    s.apply (focus lane (revertCancelledPrefillLane p failure))
  | .abort lane => s.apply (focus lane clearLane)
  | .evict lane => s.apply (focus lane evictRetainedLane)
  | .markTurnClosed lane => s.apply (focus lane markTurnClosed)
  | .capture lane mode => s.capture p (s.lanes lane) mode
  | .restart => { images := s.images }

/-- The states that the program can be in. -/
inductive Reachable (p : Program) : State n → Prop
  | init : Reachable p {}
  | step {s : State n} (op : Op n) (hs : Reachable p s) (henabled : op.enabled s) :
      Reachable p (s.step p op)

/-- Every operation of a sequence is enabled when its turn comes. -/
def AllEnabled (p : Program) : State n → List (Op n) → Prop
  | _, [] => True
  | s, op :: ops => op.enabled s ∧ AllEnabled p (s.step p op) ops

lemma Reachable.run {p : Program} {s : State n} {ops : List (Op n)} (h : Reachable p s)
    (henabled : AllEnabled p s ops) : Reachable p (ops.foldl (State.step p) s) := by
  induction ops generalizing s with
  | nil => exact h
  | cons op ops ih => exact ih (h.step op henabled.1) henabled.2

end NInfer.Sequence
