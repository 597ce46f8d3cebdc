import NInfer.Admission.Blocking

/-!
# The executor

One worker thread runs the engine (`concurrent_executor.h`).  Between two rounds it admits at most
one request: the head of the queue, or, while the head is protected, a request behind it that does
not delay it (`try_admit_one`).  An admitted request holds its lane while copies settle
(`CopyHold`), then its lane takes the pages of the plan and prefill starts; from there on it runs as
a `Prefill.Request`.  A request that ends leaves its lane empty, or retained with the pages it has
mapped.

What the worker finds out while it runs (cancelled and expired requests, what a prompt can reuse,
how the host tiers answer) comes with the event, in `Env`.  Failures of the device are left out.
-/

namespace NInfer.Admission

open NInfer.Prefill

variable {e : Engine}

/-! ## State -/

/-- A request that was submitted: its base plan was made before it was queued. -/
structure Submission (e : Engine) where
  prompt : PreparedPrompt
  options : ExecutionOptions
  /-- Generation recovery is on for the engine, and the output of this request is not raw. -/
  recovery : Bool
  base : RequestBasePlan
  planned : planRequestBase e.program prompt options = .ok base
  output_pos : 0 < options.requestedOutputTokens

/-- `Request`, as far as the queue reads it. -/
structure Queued (e : Engine) extends Submission e where
  id : ℕ
  queueOrder : ℕ
  cacheFallback : Bool := false
  preservationUnavailable : e.Lane → Bool := fun _ => false
  preservationRamVersions : e.Lane → ℕ := fun _ => 0
  preservationLaneVersions : e.Lane → ℕ := fun _ => 0

namespace Queued

variable (q : Queued e)

def pages : KvPages := kvPages q.base.admission

/-- The request as it is bound with a plan. -/
def admission (plan : Reuse q.prompt) : Prefill.Admission e.program where
  prompt := q.prompt
  options := q.options
  recovery := q.recovery
  base := q.base
  reuse := plan.decision
  planned := q.planned
  output_pos := q.output_pos
  reuse_le := plan.le

/-- `service_work_quanta` of a plan. -/
def serviceWork (plan : Reuse q.prompt) : ℕ := (q.admission plan).plan.serviceWorkQuanta

end Queued

/-- A bound request. -/
structure Slot (e : Engine) where
  queued : Queued e
  plan : Reuse queued.prompt
  request : Prefill.Request
  backfillEpoch : ℕ
  backfillClass : BackfillClass

def Slot.admission (slot : Slot e) : Prefill.Admission e.program := slot.queued.admission slot.plan

/-- `CopyHold`. -/
structure Hold (e : Engine) where
  lane : e.Lane
  pages : KvPages
  host : Option HostTier
  forkSource : Option e.Lane
  forkSourceVersion : ℕ
  victimLanes : List e.Lane

/-- The state of the executor between two events. -/
structure State (e : Engine) where
  lanes : e.Lane → LaneState := fun _ => {}
  slots : e.Lane → Option (Slot e) := fun _ => none
  pending : List (Queued e) := []
  protection : Option AdmissionProtection := none
  copyHold : Option (Hold e) := none
  lanePlanVersions : e.Lane → ℕ := fun _ => 0
  nextRequestId : ℕ := 1
  nextQueueOrder : ℕ := 1
  nextProtectionEpoch : ℕ := 1
  nextUseTick : ℕ := 1

/-- What `preserve_retained_lane` answers. -/
inductive Preservation where
  | preserved
  | refused (ramVersionAfter : ℕ)
  | deferred

/-- What the worker finds when it admits. -/
structure Env (e : Engine) where
  lookup : (q : Queued e) → Lookup e q.prompt
  cancelled : ℕ → Bool := fun _ => false
  expired : ℕ → Bool := fun _ => false
  /-- Cancelled or expired by the time the lane was found. -/
  late : ℕ → Bool := fun _ => false
  kvRamIndexVersion : ℕ := 0
  kvRamReclaimPending : Bool := false
  preservation : Preservation := .preserved
  diskClaimed : Bool := true
  captureDeferred : e.Lane → Bool := fun _ => false
  mixedForwardMinTokens : ℕ := 0

namespace State

variable (s : State e)

def view : View e := ⟨s.lanes, fun lane => (s.slots lane).isSome⟩

/-- `erase_pending` and `clear_protection_if_head`. -/
def leave (id : ℕ) : State e :=
  { s with
    pending := s.pending.filter (·.id ≠ id)
    protection := s.protection.filter (·.headRequestId ≠ id) }

/-- `invalidate_lane_plans`. -/
def invalidateLanePlans (lane : e.Lane) : State e :=
  { s with
    lanePlanVersions := Function.update s.lanePlanVersions lane (s.lanePlanVersions lane + 1) }

/-- The request is cancelled, or its deadline has passed. -/
def gone (env : Env e) (q : Queued e) : Bool :=
  env.cancelled q.id ∨ env.expired q.id ∧ q.cacheFallback = false

/-- A failed preservation counts while neither the RAM index nor the lane has changed. -/
def unavailable (env : Env e) (q : Queued e) (lane : e.Lane) : Bool :=
  q.preservationUnavailable lane ∧ q.preservationRamVersions lane = env.kvRamIndexVersion ∧
    q.preservationLaneVersions lane = s.lanePlanVersions lane

def findLane (env : Env e) (q : Queued e) : Except String (Option (Candidate e q.prompt)) :=
  findAdmissionLane s.view q.pages q.options.cacheWrite (env.lookup q) (s.unavailable env q)

/-- `active_admission_set`. -/
def activeAdmissionSet : Except String (List ActiveAdmissionSnapshot) := do
  let bound := View.all.filterMap s.slots
  refuseIf (∃ slot ∈ bound, slot.request.admission.activeLanes = 0 ∨
      slot.request.remainingServiceWork = 0) "active request has no admission accounting"
  pure <| bound.map fun slot =>
    { requestId := slot.queued.id
      resources := slot.request.admission
      remainingWorkQuanta := slot.request.remainingServiceWork
      backfillEpoch := slot.backfillEpoch
      backfillClass := slot.backfillClass }

end State

/-- `AdmissionProgress`. -/
inductive AdmissionProgress where
  | none
  | controlProgress
  | copyHold
  deriving DecidableEq

def AdmissionProgress.ofControl (control : Bool) : AdmissionProgress :=
  if control then .controlProgress else .none

/-! ## Admission -/

/-- The loop of `admit_planned_request` that picks victims until the pages suffice; `none` if a
capture is held back. -/
def reclaimVictims (v : View e) (lane : e.Lane) (pages : KvPages) (deferred : e.Lane → Bool) :
    ℕ → List e.Lane → List e.Lane → Except String (Option (List e.Lane))
  | 0, taken, _ => do
    refuseIf (v.canAdmitLaneAfterReleasing lane pages taken = false)
      "selected admission cannot reclaim enough retained KV"
    pure (some taken)
  | fuel + 1, taken, remaining =>
    if v.canAdmitLaneAfterReleasing lane pages taken then pure (some taken)
    else
      match oldest v remaining with
      | none => throw "selected admission cannot reclaim enough retained KV"
      | some victim =>
        if deferred victim then pure none
        else reclaimVictims v lane pages deferred fuel (taken ++ [victim]) (remaining.erase victim)

/-- A failed preservation, as `admit_planned_request` remembers it. -/
def markUnavailable (s : State e) (env : Env e) (ramVersionAfter : ℕ) (source : e.Lane)
    (q : Queued e) : Queued e :=
  { q with
    preservationUnavailable := Function.update q.preservationUnavailable source true
    preservationRamVersions := fun lane =>
      if lane = source ∨ q.preservationUnavailable lane ∧
          q.preservationRamVersions lane = env.kvRamIndexVersion then ramVersionAfter
      else q.preservationRamVersions lane
    preservationLaneVersions :=
      Function.update q.preservationLaneVersions source (s.lanePlanVersions source) }

/-- The victims that a choice evicts. -/
def takeVictims (v : View e) (choice : LaneChoice e) (pages : KvPages) (deferred : e.Lane → Bool) :
    Except String (Option (List e.Lane)) :=
  let candidates := victims v choice
  if choice.evictRetained then
    reclaimVictims v choice.lane pages deferred candidates.length [] candidates
  else pure (some [])

/-- A temporal backfill is charged to the protection that it overtakes. -/
def spendCredit (protection : Option AdmissionProtection) (work : ℕ)
    (backfillClass : BackfillClass) (backfillEpoch : ℕ) :
    Except String (Option AdmissionProtection) :=
  if backfillClass = .temporal then
    match protection with
    | some protection => do
      refuseIf (protection.epochId ≠ backfillEpoch ∨ work > protection.temporalCredit)
        "temporal backfill lost its protected credit"
      pure (some { protection with temporalCredit := protection.temporalCredit - work })
    | none => throw "temporal backfill lost its protected credit"
  else pure protection

/-- The end of `admit_planned_request`, where the request takes its lane. -/
def bindLane (s : State e) (q : Queued e) (c : Candidate e q.prompt) (victimLanes : List e.Lane)
    (backfillClass : BackfillClass) (backfillEpoch : ℕ) : Except String (State e) := do
  let protection ← spendCredit s.protection (q.serviceWork c.plan) backfillClass backfillEpoch
  let s := { s with protection }.leave q.id |>.invalidateLanePlans c.choice.lane
  pure
    { s with
      slots := Function.update s.slots c.choice.lane
        (some { queued := q, plan := c.plan, request := (q.admission c.plan).request
                backfillEpoch, backfillClass })
      copyHold := some
        { lane := c.choice.lane
          pages := q.pages
          host := if c.choice.preserveSource then some .ram else c.choice.host
          forkSource := if c.choice.preserveSource then none else c.choice.forkSource
          forkSourceVersion := c.choice.forkSource.elim 0 s.lanePlanVersions
          victimLanes } }

/-- `admit_planned_request`. -/
def admitPlannedRequest (s : State e) (env : Env e) (q : Queued e) (c : Candidate e q.prompt)
    (backfillClass : BackfillClass) (backfillEpoch : ℕ) :
    Except String (State e × AdmissionProgress) :=
  let choice := c.choice
  let v := s.view
  let othersDecoding : Bool := ∃ other, other ≠ choice.lane ∧ v.occupied other
  let capturesLane : Bool := (v.lanes choice.lane).retained ∧
    (choice.host.isSome ∨ choice.forkSource.isSome ∨ c.plan.tokens = 0)
  if State.gone env q ∨ env.late q.id then pure (s.leave q.id, .controlProgress)
  else if othersDecoding ∧ (choice.evictRetained ∨ capturesLane) ∧ env.kvRamReclaimPending then
    pure (s, .none)
  else
    match choice.preserveSource, env.preservation with
    | true, .deferred => pure (s, .none)
    | true, .refused version =>
      let mark := markUnavailable s env version choice.lane
      pure ({ s with pending := s.pending.map fun r => if r.id = q.id then mark r else r },
        .controlProgress)
    | _, _ =>
      if choice.host = some .disk ∧ env.diskClaimed = false then pure (s, .none)
      else do
        match ← takeVictims v choice q.pages env.captureDeferred with
        | none => pure (s, .none)
        | some taken =>
          if capturesLane ∧ choice.preserveSource = false ∧ env.captureDeferred choice.lane then
            pure (s, .none)
          else do
            let victimLanes := if capturesLane then taken ++ [choice.lane] else taken
            let s ← bindLane s q c victimLanes backfillClass backfillEpoch
            pure (s, .copyHold)

/-- The class under which a request may overtake a protected head. -/
def backfillClassOf (protection : AdmissionProtection) (active : List ActiveAdmissionSnapshot)
    (q : Queued e) (plan : Reuse q.prompt) : BackfillClass :=
  if persistentBackfillIsSafe protection active q.base.admission e.admissionCapacity then
    .persistent
  else if q.serviceWork plan ≤ protectionFrontierDistance protection active ∧
      q.serviceWork plan ≤ protection.temporalCredit then .temporal
  else .none

/-- The loop of `try_admit_one` over the requests behind a protected head. -/
def tryBackfill (env : Env e) (protection : AdmissionProtection)
    (active : List ActiveAdmissionSnapshot) :
    State e → Bool → List (Queued e) → Except String (State e × AdmissionProgress)
  | s, control, [] => pure (s, .ofControl control)
  | s, control, q :: rest =>
    if State.gone env q ∨ admissionResourcesFit q.base.admission e.admissionCapacity = false then
      tryBackfill env protection active (s.leave q.id) true rest
    else
      match s.findLane env q with
      | .error _ => tryBackfill env protection active (s.leave q.id) true rest
      | .ok none => tryBackfill env protection active s control rest
      | .ok (some c) =>
        match backfillClassOf protection active q c.plan with
        | .none => tryBackfill env protection active s control rest
        | backfill => admitPlannedRequest s env q c backfill protection.epochId

/-- The protection of a head that found no lane. -/
def protectHead (s : State e) (head : Queued e) (active : List ActiveAdmissionSnapshot) :
    Except String (State e × AdmissionProtection) :=
  match s.protection with
  | some protection => pure (s, protection)
  | none => do
    let protection ← makeAdmissionProtection s.nextProtectionEpoch head.id head.base.admission
      active e.admissionCapacity
    pure ({ s with nextProtectionEpoch := s.nextProtectionEpoch + 1 }, protection)

/-- What `try_admit_one` does with a head that found no lane: protect it, and look for a request
that may overtake it. -/
def protectAndBackfill (env : Env e) (s : State e) (control : Bool) (head : Queued e)
    (rest : List (Queued e)) : Except String (State e × AdmissionProgress) := do
  let active ← s.activeAdmissionSet
  refuseIf (active = []) "exclusive-feasible request cannot enter an idle Engine"
  let (s, protection) ← protectHead s head active
  let protection :=
    if protectedHeadSafeWithoutTemporal protection active e.admissionCapacity then
      { protection with phase := .drain } else protection
  let s := { s with protection := some protection }
  if protection.phase = .drain then pure (s, .ofControl control)
  else tryBackfill env protection active s control rest

/-- The loop of `try_admit_one` over the queue. -/
def tryAdmitFrom (env : Env e) :
    State e → Bool → List (Queued e) → Except String (State e × AdmissionProgress)
  | s, control, [] => pure ({ s with protection := none }, .ofControl control)
  | s, control, head :: rest =>
    let s := { s with protection := s.protection.filter (·.headRequestId = head.id) }
    if State.gone env head ∨
        admissionResourcesFit head.base.admission e.admissionCapacity = false then
      tryAdmitFrom env (s.leave head.id) true rest
    else
      match s.findLane env head with
      | .error _ => tryAdmitFrom env (s.leave head.id) true rest
      | .ok (some c) => admitPlannedRequest s env head c .none 0
      | .ok none => protectAndBackfill env s control head rest

/-- `try_admit_one`. -/
def tryAdmitOne (s : State e) (env : Env e) : Except String (State e × AdmissionProgress) :=
  tryAdmitFrom env s false s.pending

/-- The lanes that `try_interrupt_prefill` considers: they take the request as they are. -/
def interruptLanes (s : State e) (env : Env e) (q : Queued e) : List e.Lane :=
  s.view.free.filter fun lane =>
    let tokens := ((env.lookup q).lanePlan s.view lane).tokens
    ¬(q.options.cacheWrite = false ∧ tokens ≠ 0) ∧ ¬((s.lanes lane).retained ∧ tokens = 0) ∧
      q.prompt.shape.tokens - tokens < env.mixedForwardMinTokens ∧ s.view.canAdmitLane lane q.pages

/-- `try_interrupt_prefill`: a short text request goes ahead of a long prefill. -/
def tryInterruptPrefill (s : State e) (env : Env e) :
    Except String (State e × AdmissionProgress) :=
  match s.pending.find? (State.gone env · = false) with
  | none => pure (s, .none)
  | some q =>
    let plan := (env.lookup q).lanePlan s.view
    let selected := (interruptLanes s env q).foldl (fun best lane =>
      match best with
      | none => some lane
      | some other => if (plan lane).tokens > (plan other).tokens then some lane else some other)
      none
    match selected with
    | some lane =>
      if q.prompt.shape.hasMedia then pure (s, .none)
      else admitPlannedRequest s env q { choice := { lane }, plan := plan lane } .none 0
    | none => pure (s, .none)

/-! ## The copy hold -/

namespace State

variable (s : State e)

/-- The lane is cleared and its request is gone from it. -/
def releaseLane (lane : e.Lane) : State e :=
  { s with
    lanes := Function.update s.lanes lane {}
    slots := Function.update s.slots lane none }.invalidateLanePlans lane

/-- `evict_retained_lane` for every victim of a hold. -/
def evictVictims (victimLanes : List e.Lane) : State e :=
  { s with
    lanes := fun lane =>
      if lane ∈ victimLanes ∧ (s.lanes lane).retained then {} else s.lanes lane
    lanePlanVersions := fun lane =>
      if lane ∈ victimLanes then s.lanePlanVersions lane + 1 else s.lanePlanVersions lane }

/-- `start_prefill_lane`, where the lane takes the pages of its plan. -/
def startPrefillLane (lane : e.Lane) (pages : KvPages) (cacheWrite : Bool) :
    Except String (State e) := do
  refuseIf ((s.lanes lane).busy = true) "staged prefill requires a free request lane"
  refuseIf (s.view.canAdmitLane lane pages = false) "std::bad_alloc"
  pure
    { s with
      lanes := Function.update s.lanes lane
        { lifecycle := .prefilling, kv := some pages, disposable := !cacheWrite
          useTick := s.nextUseTick }
      nextUseTick := s.nextUseTick + 1 }

/-- `fork_retained_lane`, as far as it reads the state of the lanes. -/
def checkFork (hold : Hold e) (source : e.Lane) : Except String Unit := do
  refuseIf (s.lanePlanVersions source ≠ hold.forkSourceVersion)
    "resident fork source changed while transfer admission was held"
  refuseIf (hold.lane = source ∨ (s.lanes source).retained = false ∨
      (s.lanes hold.lane).kv.isSome ∨ (s.lanes hold.lane).lifecycle ≠ .empty)
    "resident fork requires a retained source and empty distinct destination"

/-- `restore_ram_entry` and `restore_disk_entry`, as far as they read the state of the lanes. -/
def checkRestore (hold : Hold e) (tier : HostTier) : Except String Unit :=
  let name := match tier with
    | .ram => "RAM"
    | .disk => "disk"
  do
    refuseIf ((s.lanes hold.lane).busy = true) (name ++ " restore requires a free request lane")
    refuseIf ((s.lanes hold.lane).retained = true)
      (name ++ " restore requires an empty lane; copy-hold must evict after D2H")

/-- `admit_complete`, up to the start of prefill. -/
def admitComplete (hold : Hold e) (slot : Slot e) : Except String (State e) := do
  let s := s.evictVictims hold.victimLanes
  hold.forkSource.elim (pure ()) (s.checkFork hold)
  hold.host.elim (pure ()) (s.checkRestore hold)
  let s ← s.startPrefillLane hold.lane hold.pages slot.queued.options.cacheWrite
  pure { s with copyHold := none }

/-- `drain_copy_hold_before_abort`, and the request leaves its lane. -/
def drainCopyHold (hold : Hold e) : State e :=
  { (s.evictVictims hold.victimLanes).releaseLane hold.lane with copyHold := none }

/-- `finish_failed_restore`: the request goes back to its place in the queue. -/
def finishFailedRestore (hold : Hold e) (slot : Slot e) (replan : Bool) : State e :=
  let before := fun q : Queued e => q.queueOrder < slot.queued.queueOrder
  { s.drainCopyHold hold with
    pending := s.pending.takeWhile before ++
      { slot.queued with cacheFallback := slot.queued.cacheFallback || !replan } ::
        s.pending.dropWhile before }

end State

/-- How a hold ends: the copies land and prefill starts, a host restore fails, or the request is
cancelled or fails by itself. -/
inductive HoldOutcome where
  | starts
  | restoreFails (replan : Bool)
  | aborts

/-! ## Bound requests -/

/-- `retain_committed_sequence`: the lane keeps the pages that are mapped. -/
def LaneState.retain (l : LaneState) (mapped : KvPages) : LaneState :=
  { l with lifecycle := .complete, kv := l.kv.map (· ⊓ mapped), retained := true }

/-- What an event leaves of the lane: the mapped pages, if the sequence is retained. -/
def settle (s : State e) (lane : e.Lane) (slot : Slot e) (request : Prefill.Request)
    (kept : Option KvPages) : State e :=
  let l := s.lanes lane
  match request.stage with
  | .complete =>
    { s.releaseLane lane with
      lanes := Function.update s.lanes lane (kept.elim {} l.retain) }
  | .recoveryPending =>
    { s with
      lanes := Function.update s.lanes lane (kept.elim l l.retain)
      slots := Function.update s.slots lane (some { slot with request }) }
  | .decodeReady =>
    { s with
      lanes := Function.update s.lanes lane { l with lifecycle := .active }
      slots := Function.update s.slots lane (some { slot with request }) }
  | .prefilling _ => { s with slots := Function.update s.slots lane (some { slot with request }) }

/-- `start_recovery_attempt`.  A retry that restores from the host is one event, after its copies.
A retry that continues in its lane gives up if there is no room. -/
def startRecovery (s : State e) (lane : e.Lane) (slot : Slot e) (spliced : Option ℕ)
    (route : Option ReuseDecision) (resident : Bool) : Except String (State e) :=
  let request := startRecoveryAttempt e.program slot.request spliced route
  let released := s.releaseLane lane
  match request.stage with
  | .prefilling staged =>
    let pages := kvPages staged.plan.base.admission
    if resident ∧ released.view.canAdmitLane lane pages = false then pure released
    else do
      let s ← released.startPrefillLane lane pages slot.queued.options.cacheWrite
      pure { s with slots := Function.update s.slots lane (some { slot with request }) }
  | _ => pure released

/-! ## Runs -/

inductive Event (e : Engine) where
  | submit (submission : Submission e)
  | leave (id : ℕ)
  | tryAdmit (env : Env e)
  | tryInterrupt (env : Env e)
  | endHold (outcome : HoldOutcome)
  | advance (lane : e.Lane) (event : Prefill.Event) (kept : Option KvPages)
  | startRecovery (lane : e.Lane) (spliced : Option ℕ) (route : Option ReuseDecision)
      (resident : Bool)

namespace State

variable (s : State e)

/-- `submit`. -/
def submit (submission : Submission e) : State e :=
  { s with
    pending := s.pending ++
      [{ submission with id := s.nextRequestId, queueOrder := s.nextQueueOrder }]
    nextRequestId := s.nextRequestId + 1
    nextQueueOrder := s.nextQueueOrder + 1 }

/-- Some bound request that is not held prefills. -/
def prefills : Bool := ∃ lane, ∃ slot ∈ s.slots lane, slot.request.stage.isPrefilling

/-- Every bound request decodes. -/
def decodes : Bool := ∀ lane, ∀ slot ∈ s.slots lane, slot.request.stage.isDecodeReady

/-- When the worker loop comes to an event: a hold goes first, then prefill, then retries, then
admission. -/
def Enabled : Event e → Prop
  | .submit _ => True
  | .leave _ => True
  | .tryAdmit _ => s.copyHold.isNone ∧ s.decodes
  | .tryInterrupt _ => s.copyHold.isNone ∧ s.prefills
  | .endHold outcome => ∃ hold ∈ s.copyHold, ∃ slot ∈ s.slots hold.lane,
      match outcome with
      | .restoreFails _ => hold.host.isSome ∧ slot.queued.cacheFallback = false
      | _ => True
  | .advance lane event _ => (∀ hold ∈ s.copyHold, hold.lane ≠ lane) ∧ event.isRetry = false ∧
      ∃ slot ∈ s.slots lane, Prefill.Enabled slot.request event
  | .startRecovery lane spliced route _ => s.copyHold.isNone ∧ s.prefills = false ∧
      ∃ slot ∈ s.slots lane, Prefill.Enabled slot.request (.startRecovery spliced route)

/-- One event; an error takes the whole engine down. -/
def step : Event e → Except String (State e)
  | .submit submission => pure (s.submit submission)
  | .leave id => pure (s.leave id)
  | .tryAdmit env => Prod.fst <$> tryAdmitOne s env
  | .tryInterrupt env => Prod.fst <$> tryInterruptPrefill s env
  | .endHold outcome =>
    match s.copyHold with
    | none => throw "admit-complete requires copy-hold state"
    | some hold =>
      match s.slots hold.lane, outcome with
      | none, _ => throw "copy-hold request is not occupying its lane"
      | some slot, .starts => s.admitComplete hold slot
      | some slot, .restoreFails replan => pure (s.finishFailedRestore hold slot replan)
      | some _, .aborts => pure (s.drainCopyHold hold)
  | .advance lane event kept =>
    match s.slots lane with
    | none => throw "staged prefill lane has invalid request state"
    | some slot => do
      let request ← Prefill.step e.program slot.request event
      pure (settle s lane slot request kept)
  | .startRecovery lane spliced route resident =>
    match s.slots lane with
    | none => pure s
    | some slot => Admission.startRecovery s lane slot spliced route resident

end State

/-- The states that an engine can get into. -/
inductive Reachable : State e → Prop
  | init : Reachable {}
  | step {s s' : State e} (event : Event e) : Reachable s → s.Enabled event →
      s.step event = .ok s' → Reachable s'

end NInfer.Admission
