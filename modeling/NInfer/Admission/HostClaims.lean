import NInfer.Foundation.Monitor
import NInfer.Foundation.Throwing

/-!
# Claims on host cache entries

A request whose prompt is cached in host memory or on disk is admitted through a *copy-hold*: the
executor claims the entry, which pins it, starts the copies, and lets the other lanes decode while
they land.  `admit_complete` then starts the prefill and consumes the claim.  Everything that can go
wrong in between (a throw, a stale plan, a cancellation, the end of the engine) has to release the
claim instead.

The functions below are those of `concurrent_executor.h` and of the two cache tiers, under the same
words, as far as they read or write a claim.  What they meet elsewhere (a copy that has not landed,
a plan that is gone, a call that throws) is an argument.  The two tiers keep their flags in fields
`ram_…` and `disk_…` of the same shape, which are one `HostSource` per tier here.

Copies of `ram_claimed` and its kin live in local variables of the two admission functions, and the
handler of an exception reads them; they are the `locals` of the state.  Each function notes in a
log what it does to claims and entries, and `Ledger` is what that log has to keep to.
-/

namespace NInfer.HostClaims

open Throwing

/-! ## Entries, holds and the log -/

inductive Tier where
  | ram
  | disk
  deriving DecidableEq

/-- `CacheRestoreFailureKind`. -/
inductive CacheRestoreFailureKind where
  | invalidSource
  | stalePlan
  | destinationUnavailable
  deriving DecidableEq

/-- A thrown error, as far as the executor tells errors apart: `RequestError`,
`CacheRestoreFailure`, anything else. -/
inductive Error where
  | request
  | cacheRestore (kind : CacheRestoreFailureKind)
  | engine
  deriving DecidableEq

/-- `is_request_local_error`. -/
def Error.isRequestLocal : Error → Bool
  | .engine => false
  | _ => true

/-- A record of a cache tier.  A retired RAM record and an evicted disk record are not `present`. -/
structure Entry where
  present : Bool := false
  pinned : Bool := false
  unavailable : Bool := false
  deriving DecidableEq

/-- The flags `…_hit`, `…_entry_id`, `…_claimed` and `…_consumed` of one tier. -/
structure HostSource where
  hit : Bool := false
  entryId : ℕ := 0
  claimed : Bool := false
  consumed : Bool := false
  deriving DecidableEq

/-- `CopyHold`; `recoveryBase` marks the retry of a request that already produced output. -/
structure CopyHold where
  request : ℕ
  sources : Tier → HostSource
  recoveryBase : Bool := false
  recoveryStaleRetries : ℕ := 0
  cancelPending : Bool := false
  restoreFailed : Bool := false
  discardFailedSource : Bool := true
  replanRestore : Bool := false

/-- The local variables of the admission in progress. -/
structure Locals where
  sources : Tier → HostSource := fun _ => {}
  /-- `captured_ram_ids`. -/
  captured : List ℕ := []

/-- What happens to claims and to the entries they are on. -/
inductive Action where
  /-- An admission attempt starts. -/
  | begins
  /-- The attempt saves a lane as a new RAM entry. -/
  | captures (id : ℕ)
  | claims (request : ℕ) (tier : Tier) (id : ℕ)
  | releases (request : ℕ) (tier : Tier) (id : ℕ)
  | consumes (request : ℕ) (tier : Tier) (id : ℕ)
  /-- A failed restore is classified. -/
  | fails (request : ℕ) (kind : CacheRestoreFailureKind)
  /-- A RAM entry is discarded, or a disk entry invalidated. -/
  | drops (tier : Tier) (id : ℕ)
  /-- A request is over, or goes back to the queue. -/
  | leaves (request : ℕ)
  /-- The engine stops, and with it every request. -/
  | stops
  deriving DecidableEq

structure State where
  entries : Tier → ℕ → Entry := fun _ _ => {}
  nextRamId : ℕ := 1
  copyHold : Option CopyHold := none
  locals : Locals := {}
  stopped : Bool := false
  log : List Action := []

abbrev Exec := Throwing State Error

namespace State

def setEntry (s : State) (tier : Tier) (id : ℕ) (entry : Entry) : State :=
  { s with entries := Function.update s.entries tier (Function.update (s.entries tier) id entry) }

def note (s : State) (action : Action) : State := { s with log := s.log ++ [action] }

/-- Pin an entry for a request. -/
def pin (s : State) (request : ℕ) (tier : Tier) (id : ℕ) : State :=
  (s.setEntry tier id { s.entries tier id with pinned := true }).note (.claims request tier id)

/-- Unpin an entry, which also leaves the tier if it is `retired`. -/
def unpin (s : State) (tier : Tier) (id : ℕ) (retired : Bool) : State :=
  s.setEntry tier id
    { s.entries tier id with pinned := false, present := (s.entries tier id).present && !retired }

/-- A new entry in the RAM tier. -/
def insertRam (s : State) : State :=
  { s.setEntry .ram s.nextRamId { present := true } with nextRamId := s.nextRamId + 1 }

def modifyHold (s : State) (f : CopyHold → CopyHold) : State :=
  { s with copyHold := s.copyHold.map f }

def modifyLocal (s : State) (tier : Tier) (f : HostSource → HostSource) : State :=
  { s with locals := { s.locals with
      sources := Function.update s.locals.sources tier (f (s.locals.sources tier)) } }

def dropHold (s : State) : State := { s with copyHold := none }

/-- Whether the copy-hold is this request's. -/
def holds (s : State) (request : ℕ) : Bool :=
  s.copyHold.any fun hold => hold.request = request

end State

def CopyHold.modifySource (hold : CopyHold) (tier : Tier) (f : HostSource → HostSource) :
    CopyHold :=
  { hold with sources := Function.update hold.sources tier (f (hold.sources tier)) }

def note (action : Action) : Exec Unit := modify fun s => s.note action

/-- A call that either returns or throws. -/
def outcome : Option Error → Exec Unit
  | none => pure ()
  | some error => throw error

/-- `run_secondary_cleanup`. -/
def runSecondaryCleanup (step : Exec Unit) : Exec Unit := tryCatch step fun _ => pure ()

/-! ## The tiers -/

/-- `claim_ram_entry`. -/
def claimRamEntry (request id : ℕ) : Exec Unit := do
  let s ← get
  throwIf ((s.entries .ram id).present = false) .engine
  throwIf ((s.entries .ram id).pinned = true) .engine
  modify fun s => s.pin request .ram id

/-- What a disk claim meets: whether the entry still is what the plan saw, and how discarding an
idle rewrite of the entry ended (`none` when there was none to discard, or it went well). -/
structure DiskLookup where
  fresh : Bool := true
  discardSpill : Option Error := none
  deriving DecidableEq

/-- `claim_disk_entry`.  The entry is pinned before an idle rewrite of it is discarded, and that
discard reclaims objects: it appends to the pack map, which can throw. -/
def claimDiskEntry (request id : ℕ) (lookup : DiskLookup) : Exec Bool := do
  let s ← get
  if (s.entries .disk id).present = false ∨ (s.entries .disk id).unavailable = true then
    return false
  else do
    throwIf ((s.entries .disk id).pinned = true) .engine
    if lookup.fresh then do
      modify fun s => s.pin request .disk id
      outcome lookup.discardSpill
      return true
    else return false

/-- `release_ram_entry` and `release_disk_entry`. -/
def releaseEntry (request : ℕ) (tier : Tier) (id : ℕ) : Exec Unit := do
  let s ← get
  throwIf ((s.entries tier id).present = false) .engine
  throwIf ((s.entries tier id).pinned = false) .engine
  modify fun s => (s.unpin tier id false).note (.releases request tier id)

/-- `finish_ram_restore` and `consume_disk_entry`.  Retiring a RAM entry frees its block when it
can, and that can throw after the claim is gone (`late`). -/
def consumeEntry (request : ℕ) (tier : Tier) (id : ℕ) (retires : Bool) (late : Option Error) :
    Exec Unit := do
  let s ← get
  throwIf ((s.entries tier id).present = false) .engine
  throwIf ((s.entries tier id).pinned = false) .engine
  modify fun s => (s.unpin tier id retires).note (.consumes request tier id)
  outcome late

/-- `finish_ram_restore`: with `cacheWrite` the read intent is `Consume`, otherwise `Fork`. -/
def finishRamRestore (request id : ℕ) (cacheWrite : Bool) (late : Option Error) : Exec Unit :=
  consumeEntry request .ram id cacheWrite late

/-- `consume_disk_entry`. -/
def consumeDiskEntry (request id : ℕ) : Exec Unit := consumeEntry request .disk id false none

/-- `discard_ram_capture`. -/
def discardRamCapture (id : ℕ) : Exec Unit := do
  let s ← get
  if id = 0 ∨ (s.entries .ram id).present = false then pure ()
  else do
    throwIf ((s.entries .ram id).pinned = true) .engine
    modify fun s => (s.unpin .ram id true).note (.drops .ram id)

/-- `invalidate_disk_entry`. -/
def invalidateDiskEntry (id : ℕ) : Exec Unit := do
  let s ← get
  if (s.entries .disk id).present = false then pure ()
  else modify fun s =>
    (s.setEntry .disk id { s.entries .disk id with unavailable := true }).note (.drops .disk id)

/-- Drop a source that must not be offered again. -/
def dropEntry : Tier → ℕ → Exec Unit
  | .ram => discardRamCapture
  | .disk => invalidateDiskEntry

/-- A lane is saved to the RAM tier for this attempt. -/
def captureLane : Exec ℕ := do
  let s ← get
  modify fun s => { s.insertRam.note (.captures s.nextRamId) with
    locals := { s.locals with captured := s.locals.captured ++ [s.nextRamId] } }
  return s.nextRamId

/-! ## Ending a hold -/

/-- One tier's part of `release_copy_hold_host`. -/
def releaseHoldSource (tier : Tier) : Exec Unit := do
  let s ← get
  match s.copyHold with
  | none => pure ()
  | some hold => do
    if (hold.sources tier).claimed ∧ (hold.sources tier).consumed = false then do
      runSecondaryCleanup (releaseEntry hold.request tier (hold.sources tier).entryId)
      modify fun s => s.modifyHold fun h => h.modifySource tier fun f => { f with claimed := false }
    if hold.restoreFailed ∧ hold.discardFailedSource ∧ (hold.sources tier).hit ∧
        (hold.sources tier).consumed = false then
      runSecondaryCleanup (dropEntry tier (hold.sources tier).entryId)

/-- `release_copy_hold_host`. -/
def releaseCopyHoldHost : Exec Unit := do
  releaseHoldSource .ram
  releaseHoldSource .disk

/-- `drain_copy_hold_before_abort`. -/
def drainCopyHoldBeforeAbort : Exec Unit := do
  releaseCopyHoldHost
  modify State.dropHold

/-- Drain the hold if it is this request's. -/
def drainHoldOf (request : ℕ) : Exec Unit := do
  let s ← get
  if s.holds request then drainCopyHoldBeforeAbort

/-- `fail_admitted_request`, with its caller's `if (!…) { throw; }`. -/
def failAdmittedRequest (request : ℕ) (error : Error) : Exec Unit := do
  drainHoldOf request
  note (.leaves request)
  throwIf (error.isRequestLocal = false) error

/-- `mark_restore_failure`. -/
def CopyHold.markRestoreFailure (hold : CopyHold) (kind : CacheRestoreFailureKind) : CopyHold :=
  { hold with
    restoreFailed := true
    discardFailedSource := kind = .invalidSource
    replanRestore := kind = .stalePlan }

/-- `mark_restore_failure`, for a hold that exists. -/
def markRestoreFailure (kind : CacheRestoreFailureKind) : Exec Unit :=
  modify fun s =>
    match s.copyHold with
    | none => s
    | some hold =>
      (s.modifyHold fun h => h.markRestoreFailure kind).note (.fails hold.request kind)

/-- `cancel_lane`; `abort` is what retaining or reverting the lane does. -/
def cancelLane (request : ℕ) (abort : Option Error) : Exec Unit := do
  drainHoldOf request
  outcome abort
  note (.leaves request)

/-! ## Restoring for a retry -/

/-- How a prefill that was started resolves. -/
inductive Resolution where
  | continues
  | finishes
  | throws (error : Error)
  deriving DecidableEq

def resolve (request : ℕ) : Resolution → Exec Unit
  | .continues => pure ()
  | .finishes => note (.leaves request)
  | .throws error => throw error

/-- A host plan for a retry, and what its claim and prefetch meet. -/
structure HostPlan where
  tier : Tier
  entryId : ℕ
  lookup : DiskLookup := {}
  prefetch : Option Error := none
  deriving DecidableEq

/-- The sources of a hold that restores one entry. -/
def HostPlan.sources (plan : HostPlan) (tier : Tier) : HostSource :=
  if tier = plan.tier then { hit := true, entryId := plan.entryId, claimed := true } else {}

/-- The hold of a retry. -/
def recoveryHold (request : ℕ) (plan : HostPlan) (staleRetries : ℕ) : CopyHold where
  request := request
  sources := plan.sources
  recoveryBase := true
  recoveryStaleRetries := staleRetries

/-- `copy_hold_.emplace` of a retry. -/
def emplaceRecovery (request : ℕ) (plan : HostPlan) (staleRetries : ℕ) : Exec Unit :=
  modify fun s => { s with copyHold := some (recoveryHold request plan staleRetries) }

/-- `hold_recovery_restore`. -/
def holdRecoveryRestore (request : ℕ) (plan : HostPlan) (staleRetries : ℕ) : Exec Bool :=
  match plan.tier with
  | .ram => do
    claimRamEntry request plan.entryId
    emplaceRecovery request plan staleRetries
    return true
  | .disk => do
    let claimed ← claimDiskEntry request plan.entryId plan.lookup
    if claimed then do
      tryCatch (outcome plan.prefetch) fun error => do
        runSecondaryCleanup (releaseEntry request .disk plan.entryId)
        throw error
      emplaceRecovery request plan staleRetries
      return true
    else return false

/-- What a failed restore falls back to. -/
structure Fallback where
  /-- How the new plan lookups end, and what they find. -/
  planning : Option Error := none
  replanned : Option HostPlan := none
  /-- `recovery_cold_prefill`. -/
  cold : Resolution := .continues
  /-- Putting a new request back into the queue. -/
  requeue : Option Error := none
  deriving DecidableEq

/-- The retry's part of `finish_failed_restore`, after the hold is gone. -/
def retryRestore (request : ℕ) (replan : Bool) (fallback : Fallback) : Exec Unit :=
  if replan then do
    outcome fallback.planning
    match fallback.replanned with
    | none => resolve request fallback.cold
    | some plan => do
      let held ← holdRecoveryRestore request plan 1
      if held then pure () else resolve request fallback.cold
  else resolve request fallback.cold

/-- The new request's part of `finish_failed_restore`. -/
def requeueRequest (request : ℕ) (requeue : Option Error) : Exec Unit := do
  let queued ← tryCatch (do outcome requeue; return true) fun error => do
    failAdmittedRequest request error
    return false
  if queued then do
    modify State.dropHold
    note (.leaves request)

/-- `finish_failed_restore`. -/
def finishFailedRestore (fallback : Fallback) : Exec Unit := do
  let s ← get
  match s.copyHold with
  | none => throw .engine
  | some hold => do
    releaseCopyHoldHost
    if hold.recoveryBase then do
      modify State.dropHold
      tryCatch
        (retryRestore hold.request (hold.replanRestore && hold.recoveryStaleRetries = 0) fallback)
        (failAdmittedRequest hold.request)
    else requeueRequest hold.request fallback.requeue

/-! ## Completing an admission -/

/-- How far the copies of a hold have come: victims, fork, restore and the start of the prefill. -/
inductive Copies where
  | waits
  | throws (error : Error)
  | prefills
  deriving DecidableEq

/-- What `admit_complete` meets. -/
structure Completion where
  membershipEmpty : Bool := false
  copies : Copies := .prefills
  cacheWrite : Bool := true
  ramLate : Option Error := none
  /-- `partial prefill did not retain its execution owner`. -/
  ownerLost : Bool := false
  resolution : Resolution := .continues
  /-- The request still has its prompt, nobody prefills, and a new request has produced nothing. -/
  mayFallBack : Bool := true
  /-- `begin_copy_hold_cancel`. -/
  fence : Option Error := none
  fallback : Fallback := {}
  deriving DecidableEq

/-- `hold.…_consumed = true; …_consumed = true;`. -/
def markConsumed (tier : Tier) : Exec Unit := modify fun s =>
  (s.modifyHold fun h => h.modifySource tier fun f => { f with consumed := true }).modifyLocal tier
    fun f => { f with consumed := true }

/-- The settling part of `admit_complete`, for one tier. -/
def consumeHoldSource (tier : Tier) (cacheWrite : Bool) (late : Option Error) : Exec Unit := do
  let s ← get
  match s.copyHold with
  | none => pure ()
  | some hold =>
    if (hold.sources tier).hit then do
      match tier with
      | .ram => finishRamRestore hold.request (hold.sources tier).entryId cacheWrite late
      | .disk => consumeDiskEntry hold.request (hold.sources tier).entryId
      markConsumed tier

/-- The body of `admit_complete`. -/
def completeCopies (request : ℕ) (c : Completion) : Exec Unit :=
  match c.copies with
  | .waits => pure ()
  | .throws error => throw error
  | .prefills => do
    consumeHoldSource .ram c.cacheWrite c.ramLate
    consumeHoldSource .disk c.cacheWrite none
    throwIf (c.ownerLost = true) .engine
    modify State.dropHold
    resolve request c.resolution

/-- A claim that the locals still own. -/
def releaseLocal (request : ℕ) (tier : Tier) : Exec Unit := do
  let s ← get
  if (s.locals.sources tier).claimed ∧ (s.locals.sources tier).consumed = false then do
    runSecondaryCleanup (releaseEntry request tier (s.locals.sources tier).entryId)
    modify fun s => s.modifyLocal tier fun f => { f with claimed := false }

/-- `release_host_if_needed`, which is also how `admit_complete` ends without a hold. -/
def releaseLocals (request : ℕ) : Exec Unit := do
  releaseLocal request .ram
  releaseLocal request .disk

/-- `restore_failure_falls_back`, for an error that is a `CacheRestoreFailure`. -/
def restoreFallsBack (s : State) (c : Completion) : Bool :=
  s.copyHold.any fun hold =>
    ((hold.sources .ram).hit || (hold.sources .disk).hit) && c.mayFallBack

/-- What `admit_complete` does with an error it cannot fall back from. -/
def abortCompletion (request : ℕ) (error : Error) : Exec Unit := do
  let s ← get
  if s.copyHold.isNone then releaseLocals request
  failAdmittedRequest request error

/-- The handler of `admit_complete`. -/
def completionFailed (request : ℕ) (c : Completion) (error : Error) : Exec Unit :=
  match error with
  | .cacheRestore kind => do
    let s ← get
    markRestoreFailure kind
    if restoreFallsBack s c then
      if c.membershipEmpty then finishFailedRestore c.fallback else outcome c.fence
    else abortCompletion request error
  | error => abortCompletion request error

/-- `admit_complete`. -/
def admitComplete (c : Completion) : Exec Unit := do
  let s ← get
  match s.copyHold with
  | none => throw .engine
  | some hold => do
    modify fun s => { s with locals := { sources := hold.sources } }
    tryCatch (completeCopies hold.request c) (completionFailed hold.request c)

/-! ## Admitting a planned request -/

/-- `LaneChoice`. -/
structure LaneChoice where
  ramEntryId : ℕ := 0
  diskEntryId : ℕ := 0
  preserveSource : Bool := false
  deriving DecidableEq

/-- How `capture_retained_lane` or `preserve_retained_lane` ends. -/
inductive Capture where
  | deferred
  | dropped
  | saved
  | throws (error : Error)
  deriving DecidableEq

/-- What happens to a request before its admission touches the tiers. -/
inductive Entrance where
  /-- Expired or cancelled, and still in the queue. -/
  | dismissed
  /-- Gone from the queue, or a RAM spill is pending. -/
  | waits
  /-- `selected … admission has no matching request plan`. -/
  | unplanned
  | proceeds
  deriving DecidableEq

/-- What `admit_planned_request` meets. -/
structure Attempt where
  entrance : Entrance := .proceeds
  preserve : Capture := .saved
  lookup : DiskLookup := {}
  prefetch : Option Error := none
  /-- The victims and the lane itself, in the order they are captured. -/
  victims : List Capture := []
  /-- Retargeting the plan, and taking the request out of the queue. -/
  retarget : Option Error := none
  erased : Bool := true
  /-- The reservations made before the request is bound to its lane. -/
  bind : Option Error := none
  publish : Option Error := none
  deriving DecidableEq

/-- `rollback_ram_captures`. -/
def rollbackRamCaptures : Exec Unit := do
  let s ← get
  forEach s.locals.captured fun id => runSecondaryCleanup (discardRamCapture id)
  modify fun s => { s with locals := { s.locals with captured := [] } }

/-- `defer_for_reclaim`. -/
def deferForReclaim (request : ℕ) : Exec Unit := do
  releaseLocals request
  rollbackRamCaptures

/-- `copy_hold_.emplace`: the claims pass from the locals to the hold. -/
def emplaceHold (request : ℕ) : Exec Unit := modify fun s =>
  { s with
    copyHold := some { request, sources := s.locals.sources }
    locals := { s.locals with sources := fun t => { s.locals.sources t with claimed := false } } }

/-- The rest of `admit_planned_request`, after the captures. -/
def bindRequest (request : ℕ) (a : Attempt) : Exec Unit := do
  outcome a.retarget
  if a.erased then do
    outcome a.bind
    emplaceHold request
    outcome a.publish
  else deferForReclaim request

/-- The captures that make room; `false` if one was deferred. -/
def captureVictims : List Capture → Exec Bool
  | [] => return true
  | .deferred :: _ => return false
  | .dropped :: rest => captureVictims rest
  | .throws error :: _ => throw error
  | .saved :: rest => do
    let _ ← captureLane
    captureVictims rest

def reclaimAndBind (request : ℕ) (a : Attempt) : Exec Unit := do
  let captured ← captureVictims a.victims
  if captured then bindRequest request a else deferForReclaim request

def setClaimed (tier : Tier) : Exec Unit :=
  modify fun s => s.modifyLocal tier fun f => { f with claimed := true }

def claimRamAndBind (request : ℕ) (a : Attempt) : Exec Unit := do
  let s ← get
  if (s.locals.sources .ram).hit then do
    claimRamEntry request (s.locals.sources .ram).entryId
    setClaimed .ram
    reclaimAndBind request a
  else reclaimAndBind request a

def claimAndBind (request : ℕ) (a : Attempt) : Exec Unit := do
  let s ← get
  if (s.locals.sources .disk).hit then do
    let claimed ← claimDiskEntry request (s.locals.sources .disk).entryId a.lookup
    if claimed then do
      setClaimed .disk
      outcome a.prefetch
      claimRamAndBind request a
    else releaseLocals request
  else claimRamAndBind request a

/-- The body of `admit_planned_request`. -/
def admitFromChoice (request : ℕ) (choice : LaneChoice) (a : Attempt) : Exec Unit :=
  if choice.preserveSource then
    match a.preserve with
    | .deferred => pure ()
    | .dropped => pure ()
    | .throws error => throw error
    | .saved => do
      let id ← captureLane
      modify fun s => s.modifyLocal .ram fun f => { f with hit := true, entryId := id }
      claimAndBind request a
  else claimAndBind request a

/-- The handler of `admit_planned_request`. -/
def admissionFailed (request : ℕ) (error : Error) : Exec Unit := do
  releaseLocals request
  let s ← get
  if s.holds request then drainCopyHoldBeforeAbort else rollbackRamCaptures
  note (.leaves request)
  throwIf (error.isRequestLocal = false) error

/-- The sources a choice names. -/
def LaneChoice.sources (choice : LaneChoice) : Tier → HostSource
  | .ram => { hit := choice.ramEntryId ≠ 0, entryId := choice.ramEntryId }
  | .disk => { hit := choice.diskEntryId ≠ 0, entryId := choice.diskEntryId }

/-- `admit_planned_request`. -/
def admitPlannedRequest (request : ℕ) (choice : LaneChoice) (a : Attempt) : Exec Unit :=
  match a.entrance with
  | .dismissed => note (.leaves request)
  | .waits => pure ()
  | .unplanned => throw .engine
  | .proceeds => do
    throwIf (choice.ramEntryId ≠ 0 ∧ choice.diskEntryId ≠ 0) .engine
    modify fun s => { s.note .begins with locals := { sources := choice.sources } }
    tryCatch (admitFromChoice request choice a) (admissionFailed request)

/-! ## Runs -/

/-- How a retry gets its prompt back. -/
inductive Route where
  | prefills (resolution : Resolution)
  | restores (plan : HostPlan) (cold : Resolution)
  deriving DecidableEq

/-- The routes of `start_recovery_attempt`. -/
def startRecoveryAttempt (request : ℕ) : Route → Exec Unit
  | .prefills resolution => resolve request resolution
  | .restores plan cold => do
    let held ← holdRecoveryRestore request plan 0
    if held then pure () else resolve request cold

/-- `start_generation_recovery`, for one request. -/
def startGenerationRecovery (request : ℕ) (route : Route) : Exec Unit :=
  tryCatch (startRecoveryAttempt request route) (failAdmittedRequest request)

/-- The end of the engine (`fail_all`). -/
def failAll : Exec Unit := do
  drainCopyHoldBeforeAbort
  modify fun s => { s.note .stops with stopped := true }

/-- The shutdown branch of the worker loop. -/
def shutdown (abort : Option Error) : Exec Unit := do
  let s ← get
  match s.copyHold with
  | none => pure ()
  | some hold => if hold.cancelPending then runSecondaryCleanup (cancelLane hold.request abort)
  failAll

/-- What can happen next.  `complete` and the admissions may follow one another within one call in
the source; nothing else touches claims in between. -/
inductive Event where
  /-- The tiers change on their own: a lane is saved, a spill commits, an entry is evicted. -/
  | inserts
  | commits (id : ℕ)
  | evicts (tier : Tier) (id : ℕ)
  | admits (request : ℕ) (choice : LaneChoice) (attempt : Attempt)
  | recovers (request : ℕ) (route : Route)
  | completes (c : Completion)
  | finishesRestore (fallback : Fallback)
  /-- The hold's request is cancelled while others decode: its copies are fenced first. -/
  | fences (fence : Option Error)
  | cancels (request : ℕ) (abort : Option Error)
  /-- A request without a copy-hold ends: it finished decoding, failed or expired. -/
  | leaves (request : ℕ)
  /-- The worker loop fails for another reason. -/
  | throws (error : Error)
  | shutsDown (abort : Option Error)
  deriving DecidableEq

def handle : Event → Exec Unit
  | .inserts => modify State.insertRam
  | .commits id => modify fun s =>
    s.setEntry .disk id { s.entries .disk id with present := true }
  | .evicts tier id => modify fun s =>
    s.setEntry tier id { s.entries tier id with present := false, unavailable := false }
  | .admits request choice attempt => admitPlannedRequest request choice attempt
  | .recovers request route => startGenerationRecovery request route
  | .completes c => admitComplete c
  | .finishesRestore fallback => finishFailedRestore fallback
  | .fences fence => do
      outcome fence
      modify fun s => s.modifyHold fun h => { h with cancelPending := true }
  | .cancels request abort => cancelLane request abort
  | .leaves request => note (.leaves request)
  | .throws error => throw error
  | .shutsDown abort => shutdown abort

/-- When the worker loop gets to an event.  Eviction skips pinned entries, and admissions and
retries start only while there is no copy-hold. -/
def enabled (s : State) : Event → Bool
  | .evicts tier id => !(s.entries tier id).pinned
  | .admits _ _ _ => s.copyHold.isNone
  | .recovers _ _ => s.copyHold.isNone
  | .completes _ => s.copyHold.any fun h => !h.cancelPending && !h.restoreFailed
  | .finishesRestore _ => s.copyHold.any fun h => !h.cancelPending && h.restoreFailed
  | .fences _ => s.copyHold.isSome
  | .leaves request => !s.holds request
  | _ => true

/-- The disk claims an event may make. -/
def Event.lookups : Event → List DiskLookup
  | .admits _ _ attempt => [attempt.lookup]
  | .recovers _ (.restores plan _) => [plan.lookup]
  | .completes c => c.fallback.replanned.toList.map HostPlan.lookup
  | .finishesRestore fallback => fallback.replanned.toList.map HostPlan.lookup
  | _ => []

/-- No disk claim of the event fails while it discards an idle rewrite of its entry. -/
def Event.DiscardsSpills (e : Event) : Prop := ∀ lookup ∈ e.lookups, lookup.discardSpill = none

instance (e : Event) : Decidable e.DiscardsSpills :=
  inferInstanceAs (Decidable (∀ lookup ∈ e.lookups, lookup.discardSpill = none))

/-- One event; an error that reaches the worker loop ends the engine. -/
def State.step (s : State) (e : Event) : State :=
  if s.stopped then s
  else match (handle e).exec s with
    | (.ok _, t) => t
    | (.error _, t) => failAll.after t

/-- The states of runs whose events all meet a condition. -/
inductive Reachable (P : Event → Prop) : State → Prop where
  | start : Reachable P {}
  | step {s : State} {e : Event} : Reachable P s → P e → enabled s e = true → Reachable P (s.step e)

/-- Some events in a row, if the worker loop gets to each of them. -/
def State.run (s : State) : List Event → Option State
  | [] => some s
  | e :: events => if enabled s e then (s.step e).run events else none

lemma Reachable.run {P : Event → Prop} {s t : State} {events : List Event} (h : Reachable P s)
    (hP : ∀ e ∈ events, P e) (hrun : s.run events = some t) : Reachable P t := by
  induction events generalizing s with
  | nil => exact Option.some.inj hrun ▸ h
  | cons e events ih =>
    rw [State.run] at hrun
    split_ifs at hrun with henabled
    exact ih (h.step (hP e List.mem_cons_self) henabled)
      (fun e' he' => hP e' (List.mem_cons_of_mem _ he')) hrun

end NInfer.HostClaims
