import NInfer.Foundation.Monitor
import NInfer.Prefill.ServiceWork

/-!
# Suspending a prefill

One request at a time owns staged prefill.  While it prefills a long text prompt, a short request
may interrupt it: the owner is suspended in its lane, the short request is admitted, prefills, and
the owner resumes (`try_interrupt_prefill`, `resume_suspended_prefill`).  The executor keeps the two
lanes and two flags, and the handlers of one worker loop maintain them between them.

`iterate` is one pass of that loop over the parts of the executor that prefill ownership depends on:
the slots, the copy-hold of an admission in progress, the owner and the suspended owner.  What the
loop reads from elsewhere (cancellations, the queue, copies that have landed, the fate of a round)
is its `Input`.  An admission that finds nobody decoding completes at once in the source and in the
next pass here, which is the same pass with the same answer.

`Protocol` is what the handlers are meant to keep to, stated over the actions they log.
-/

namespace NInfer.Suspension

open Prefill

/-! ## The executor -/

/-- The engine options that govern prefill ownership. -/
structure Executor where
  program : Program
  mixedForwardMinTokens : ℕ

/-- `shared_prefill_`. -/
def Executor.sharedPrefill (e : Executor) : Bool := e.program.options.mixedForward ≠ 0

/-- `rounds_before_step`: an owner whose step can run inside a decode round waits for one less. -/
def Executor.roundsBeforeStep (e : Executor) (mixable : Bool) : ℕ :=
  if mixable then e.program.options.mixedForwardRounds - 1 else e.program.options.mixedForwardRounds

/-- What the request in a slot is doing. -/
inductive Occupant where
  /-- Bound, with its copies in flight. -/
  | held
  | prefilling (staged : Staged)
  | decodeReady
  | recoveryPending

def Occupant.isDecodeReady : Occupant → Bool
  | .decodeReady => true
  | _ => false

/-- `CopyHold`; `hostHit` is a RAM or disk hit, `recoveryBase` marks a retry. -/
structure CopyHold (n : ℕ) where
  lane : Fin n
  plan : RequestPlan
  hostHit : Bool := false
  recoveryBase : Bool := false
  cancelPending : Bool := false
  restoreFailed : Bool := false

/-- What happens to prefill ownership. -/
inductive Action (n : ℕ) where
  /-- The owner is suspended. -/
  | suspends (lane : Fin n)
  /-- A request is admitted to a lane. -/
  | binds (lane : Fin n)
  /-- A request takes over the prefill slot. -/
  | starts (lane : Fin n)
  /-- The suspended owner takes the prefill slot back. -/
  | resumes (lane : Fin n)
  /-- The owner completes a nonempty chunk. -/
  | chunk (lane : Fin n)
  /-- The owner gives the prefill slot up. -/
  | stops (lane : Fin n)
  /-- A request leaves its lane: finished, cancelled, failed or sent back to the queue. -/
  | leaves (lane : Fin n)
  deriving DecidableEq

structure State (n : ℕ) where
  slots : Fin n → Option Occupant := fun _ => none
  prefillLane : Option (Fin n) := none
  suspendedPrefillLane : Option (Fin n) := none
  prefillInterruptible : Bool := false
  suspendedPrefillMustAdvance : Bool := false
  decodeRoundsSincePrefill : ℕ := 0
  suspendedDecodeRoundsSincePrefill : ℕ := 0
  copyHold : Option (CopyHold n) := none
  stableDecodeEpoch : Bool := false
  log : List (Action n) := []

/-- What is left of a staged prefill. -/
def remainingTokens (staged : Staged) : ℕ := staged.plan.prompt.shape.tokens - staged.cursor

/-- The prefill of a plan before its first step. -/
def stagedAt (plan : RequestPlan) : Staged := ⟨plan, plan.reuseBase⟩

/-! ## What a pass reads -/

/-- What a retry falls back to when its restore fails. -/
inductive Fallback where
  | restores (plan : RequestPlan)
  | prefills (plan : RequestPlan) (outcome : Outcome)
  | fails

/-- What `admit_complete` finds. -/
inductive HoldOutcome where
  | waits
  | restoreFails (fallback : Fallback)
  | fails
  | starts (outcome : Outcome)

def HoldOutcome.waiting : HoldOutcome → Bool
  | .waits => true
  | _ => false

/-- How far `admit_planned_request` gets with a chosen request. -/
inductive Binding where
  | refused
  | fails
  | holds

/-- An admission that the queue and the planner offer. -/
structure Candidate (n : ℕ) where
  lane : Fin n
  plan : RequestPlan
  hostHit : Bool := false
  binding : Binding

/-- The fate of a row of a decode round; a row is dropped if its request was cancelled before. -/
inductive Row where
  | dropped
  | resolved (outcome : Outcome)

def Row.isDropped : Row → Bool
  | .dropped => true
  | _ => false

/-- How a retry goes on. -/
inductive Route where
  | exhausts
  | holds (plan : RequestPlan)
  | prefills (plan : RequestPlan) (outcome : Outcome)

/-- What one pass of the loop reads. -/
structure Input (n : ℕ) where
  /-- No control change and no queued retry since the last pass. -/
  quiet : Bool := false
  cancelled : Fin n → Bool := fun _ => false
  havePending : Bool := false
  allowsAdmission : Bool := false
  /-- `copy_hold_cancel_settled`. -/
  settled : Bool := true
  /-- `kv_ram_copies_ready`. -/
  ramReady : Bool := true
  holdOutcome : HoldOutcome := .starts .continues
  fallback : Fallback := .fails
  interrupter : Option (Candidate n) := none
  recovery : Option (Fin n × Route) := none
  admission : Option (Candidate n) := none
  mixable : Bool := false
  /-- The fate of the owner's step. -/
  outcome : Outcome := .continues
  rows : Fin n → Row := fun _ => .resolved .continues

/-! ## The handlers -/

namespace State

variable {n : ℕ}

/-- Whether `build_round_membership` finds a lane to decode. -/
def hasMembers (s : State n) : Bool :=
  (List.finRange n).any fun lane => (s.slots lane).any Occupant.isDecodeReady

/-- `prefill_remaining_tokens`. -/
def prefillRemainingTokens (s : State n) (lane : Fin n) : ℕ :=
  match s.slots lane with
  | some (.prefilling staged) => remainingTokens staged
  | _ => 0

/-- `prefill_suspendable`: a text prompt. -/
def prefillSuspendable (s : State n) (lane : Fin n) : Bool :=
  match s.slots lane with
  | some (.prefilling staged) => staged.plan.prompt.shape.hasMedia = false
  | _ => false

/-- `prefill_pace`. -/
def prefillPace (e : Executor) (s : State n) (remaining : ℕ) : PrefillPace :=
  if e.sharedPrefill = false ∨ remaining < e.mixedForwardMinTokens then .exclusive
  else if s.hasMembers then .shared
  else .exclusive

/-! ## Requests that leave -/

def occupy (s : State n) (lane : Fin n) (occupant : Occupant) : State n :=
  { s with slots := Function.update s.slots lane (some occupant) }

def vacate (s : State n) (lane : Fin n) : State n :=
  { s with slots := Function.update s.slots lane none, log := s.log ++ [.leaves lane] }

/-- `retire_request`. -/
def retireRequest (s : State n) (lane : Fin n) : State n :=
  { s.vacate lane with
    suspendedPrefillLane :=
      if s.suspendedPrefillLane = some lane then none else s.suspendedPrefillLane }

/-- `if (prefill_lane_ && *prefill_lane_ == lane) { prefill_lane_.reset(); }`. -/
def releaseOwner (s : State n) (lane : Fin n) : State n :=
  if s.prefillLane = some lane then { s with prefillLane := none, log := s.log ++ [.stops lane] }
  else s

/-- `drain_copy_hold_before_abort`, for the request of a lane. -/
def drainCopyHold (s : State n) (lane : Fin n) : State n :=
  if s.copyHold.any (·.lane = lane) then { s with copyHold := none } else s

/-- What `cancel_lane`, `fail_admitted_request` and `recovery_exhausted` do to the executor. -/
def abandon (s : State n) (lane : Fin n) : State n :=
  ((s.drainCopyHold lane).releaseOwner lane).retireRequest lane

/-- One lane of `cancel_active_requests`. -/
def cancelAt (cancelled : Fin n → Bool) (s : State n) (lane : Fin n) : State n :=
  if (s.slots lane).isNone ∨ cancelled lane = false then s
  else
    match s.copyHold with
    | some hold =>
      if hold.lane = lane ∧ s.hasMembers then
        { s with copyHold := some { hold with cancelPending := true } }
      else s.abandon lane
    | none => s.abandon lane

/-- `cancel_active_requests`. -/
def cancelActiveRequests (s : State n) (cancelled : Fin n → Bool) : State n :=
  (List.finRange n).foldl (cancelAt cancelled) s

/-! ## Prefill steps -/

/-- `resolve_prefill_step`. -/
def resolvePrefillStep (s : State n) (lane : Fin n) (staged : Staged) (processed : ℕ)
    (complete : Bool) (outcome : Outcome) : State n :=
  let s := if processed ≠ 0 then { s with log := s.log ++ [.chunk lane] } else s
  if outcome = .cancelled then (s.releaseOwner lane).retireRequest lane
  else if complete = false then
    { s.occupy lane (.prefilling staged) with
      prefillInterruptible :=
        if processed ≠ 0 ∧ s.suspendedPrefillLane = none then true else s.prefillInterruptible }
  else
    match outcome with
    | .continues => (s.releaseOwner lane).occupy lane .decodeReady
    | .repeats => (s.releaseOwner lane).occupy lane .recoveryPending
    | _ => (s.releaseOwner lane).retireRequest lane

/-- The step of a staged prefill, resolved. -/
def prefillStep (e : Executor) (s : State n) (lane : Fin n) (staged : Staged) (pace : PrefillPace)
    (outcome : Outcome) : Except String (State n) := do
  let (next, complete) ← advancePrefill e.program staged pace
  refuseIf (complete = false ∧ s.prefillLane ≠ some lane)
    "partial prefill did not retain its execution owner"
  return s.resolvePrefillStep lane next (next.cursor - staged.cursor) complete outcome

/-- `prefill_lane_ = lane`. -/
def takeOver (s : State n) (lane : Fin n) : State n :=
  { s with
    prefillLane := some lane
    decodeRoundsSincePrefill := 0
    log := s.log ++ [.starts lane] }

/-- `begin_recovery_prefill`, and the end of `admit_complete`: a plan with nothing to prefill does
not take the prefill slot. -/
def startPrefill (e : Executor) (s : State n) (lane : Fin n) (plan : RequestPlan) (owns : Bool)
    (outcome : Outcome) : Except String (State n) :=
  let s := if owns then s.takeOver lane else s
  s.prefillStep e lane (stagedAt plan) (s.prefillPace e (remainingTokens (stagedAt plan))) outcome

/-- `run_prefill_step`. -/
def runPrefillStep (e : Executor) (s : State n) (pace : PrefillPace) (outcome : Outcome) :
    Except String (State n) :=
  match s.prefillLane with
  | none => throw "no request owns staged prefill"
  | some lane =>
    match s.slots lane with
    | some (.prefilling staged) => s.prefillStep e lane staged pace outcome
    | _ => throw "staged prefill lane has invalid request state"

/-! ## Copy-hold admission -/

/-- `finish_failed_restore`: a retry keeps its lane, a new request goes back to the queue. -/
def finishFailedRestore (e : Executor) (s : State n) (hold : CopyHold n) (fallback : Fallback) :
    Except String (State n) :=
  let s := { s with copyHold := none }
  if hold.recoveryBase then
    match fallback with
    | .restores plan =>
      return { s with copyHold := some { lane := hold.lane, plan, hostHit := true,
                                         recoveryBase := true } }
    | .prefills plan outcome => s.startPrefill e hold.lane plan true outcome
    | .fails => return s.abandon hold.lane
  else return s.vacate hold.lane

/-- `admit_complete`. -/
def admitComplete (e : Executor) (s : State n) (hold : CopyHold n) :
    HoldOutcome → Except String (State n)
  | .waits => return s
  | .restoreFails fallback =>
    if hold.hostHit then
      if s.hasMembers then return { s with copyHold := some { hold with restoreFailed := true } }
      else s.finishFailedRestore e hold fallback
    else return s.abandon hold.lane
  | .fails => return s.abandon hold.lane
  | .starts outcome =>
    { s with copyHold := none }.startPrefill e hold.lane hold.plan
      (hold.plan.reuseBase < hold.plan.prompt.shape.tokens) outcome

/-- The part of `admit_planned_request` that binds a lane and emplaces the copy-hold. -/
def bindLane (s : State n) (lane : Fin n) (plan : RequestPlan) (hostHit : Bool) : State n :=
  { s.occupy lane .held with
    copyHold := some { lane, plan, hostHit }
    log := s.log ++ [.binds lane] }

/-- `admit_planned_request`: the state, and whether the request was bound. -/
def admitPlannedRequest (s : State n) (c : Candidate n) (hostHit : Bool) : State n × Bool :=
  match c.binding with
  | .refused => (s, false)
  | .fails => ((s.bindLane c.lane c.plan hostHit).abandon c.lane, true)
  | .holds => (s.bindLane c.lane c.plan hostHit, true)

/-! ## Interruption -/

/-- The conditions of `try_interrupt_prefill`. -/
def mayInterrupt (e : Executor) (s : State n) (owner : Fin n) (c : Candidate n) : Bool :=
  s.suspendedPrefillLane.isNone ∧ s.prefillInterruptible ∧ e.sharedPrefill ∧
    e.mixedForwardMinTokens ≠ 0 ∧ e.mixedForwardMinTokens ≤ s.prefillRemainingTokens owner ∧
    s.prefillSuspendable owner ∧ (s.slots c.lane).isNone ∧
    c.plan.prompt.shape.hasMedia = false ∧
    remainingTokens (stagedAt c.plan) < e.mixedForwardMinTokens

def suspendOwner (s : State n) (owner : Fin n) : State n :=
  { s with
    suspendedDecodeRoundsSincePrefill := s.decodeRoundsSincePrefill
    suspendedPrefillLane := some owner
    prefillLane := none
    prefillInterruptible := false
    log := s.log ++ [.suspends owner] }

/-- `try_interrupt_prefill`.  Only resident plans are considered, so there is no host hit. -/
def tryInterruptPrefill (e : Executor) (s : State n) (candidate : Option (Candidate n)) :
    State n × Bool :=
  match s.prefillLane, candidate with
  | some owner, some c =>
    if s.mayInterrupt e owner c then
      let (s, bound) := (s.suspendOwner owner).admitPlannedRequest c false
      ({ s with suspendedPrefillMustAdvance := bound }, bound)
    else (s, false)
  | _, _ => (s, false)

/-- `resume_suspended_prefill`. -/
def resumeSuspendedPrefill (s : State n) : Except String (State n) :=
  match s.suspendedPrefillLane, s.prefillLane, s.copyHold with
  | some lane, none, none =>
    if s.prefillSuspendable lane then
      return { s with
        prefillLane := some lane
        suspendedPrefillLane := none
        decodeRoundsSincePrefill := s.suspendedDecodeRoundsSincePrefill
        prefillInterruptible := !s.suspendedPrefillMustAdvance
        suspendedPrefillMustAdvance := false
        log := s.log ++ [.resumes lane] }
    else throw "suspended prefill lost its occupying request"
  | _, _, _ => return s

/-! ## Decode rounds and retries -/

/-- One lane of `run_decode_round`. -/
def decodeRow (rows : Fin n → Row) (s : State n) (lane : Fin n) : State n :=
  match s.slots lane with
  | some .decodeReady =>
    match rows lane with
    | .resolved .continues => s
    | .resolved .repeats => s.occupy lane .recoveryPending
    | _ => s.retireRequest lane
  | _ => s

/-- `run_decode_round` without an owner. -/
def runDecodeRound (s : State n) (rows : Fin n → Row) : State n :=
  (List.finRange n).foldl (decodeRow rows) s

/-- Whether a row is left to decode with. -/
def liveRows (s : State n) (rows : Fin n → Row) : Bool :=
  (List.finRange n).any fun lane =>
    (s.slots lane).any Occupant.isDecodeReady && !(rows lane).isDropped

/-- `run_decode_round` with the owner's next step in the same forward. -/
def runMixedRound (e : Executor) (s : State n) (rows : Fin n → Row) (outcome : Outcome) :
    Except String (State n) :=
  let decoded := s.runDecodeRound rows
  decoded.runPrefillStep e
    (if s.liveRows rows then .shared
     else decoded.prefillPace e (decoded.prefillLane.elim 0 decoded.prefillRemainingTokens)) outcome

/-- `start_generation_recovery`, for a request that waits for its retry. -/
def startRecoveryAttempt (e : Executor) (s : State n) (lane : Fin n) :
    Route → Except String (State n)
  | .exhausts => return s.abandon lane
  | .holds plan =>
    return { s.occupy lane .held with
      copyHold := some { lane, plan, hostHit := true, recoveryBase := true } }
  | .prefills plan outcome => s.startPrefill e lane plan true outcome

def isRecoveryPending (s : State n) (lane : Fin n) : Bool :=
  match s.slots lane with
  | some .recoveryPending => true
  | _ => false

/-! ## The worker loop -/

/-- The loop's branch for an admission in progress. -/
def serveHold (e : Executor) (s : State n) (hold : CopyHold n) (input : Input n) :
    Except String (State n) :=
  if hold.cancelPending ∨ hold.restoreFailed then
    if s.hasMembers ∧ input.settled = false then return s.runDecodeRound input.rows
    else if hold.cancelPending then return s.abandon hold.lane
    else s.finishFailedRestore e hold input.fallback
  else if s.hasMembers ∧ input.ramReady = false then return s.runDecodeRound input.rows
  else do
    let next ← s.admitComplete e hold input.holdOutcome
    if next.copyHold.isSome ∧ s.hasMembers then return next.runDecodeRound input.rows
    else return next

/-- The loop's branch for an owner, once it was not interrupted. -/
def serveOwner (e : Executor) (s : State n) (input : Input n) : Except String (State n) :=
  let remaining := s.prefillLane.elim 0 s.prefillRemainingTokens
  if s.prefillPace e remaining = .shared ∧ s.hasMembers then
    if s.decodeRoundsSincePrefill < e.roundsBeforeStep input.mixable then
      let decoded := s.runDecodeRound input.rows
      return { decoded with decodeRoundsSincePrefill := decoded.decodeRoundsSincePrefill + 1 }
    else if input.mixable then do
      let next ← s.runMixedRound e input.rows input.outcome
      return { next with decodeRoundsSincePrefill := 0 }
    else do
      let next ← s.runPrefillStep e (s.prefillPace e remaining) input.outcome
      return { next with decodeRoundsSincePrefill := 0 }
  else do
    let next ← s.runPrefillStep e (s.prefillPace e remaining) input.outcome
    return { next with decodeRoundsSincePrefill := 0 }

/-- Whether the loop may admit in this pass. -/
def admits (s : State n) (input : Input n) : Bool :=
  input.havePending && (!s.hasMembers || input.allowsAdmission)

/-- The loop's branch for an owner. -/
def servePrefill (e : Executor) (s : State n) (input : Input n) : Except String (State n) :=
  if s.admits input then
    let (next, interrupted) := s.tryInterruptPrefill e input.interrupter
    if interrupted then return next
    else do
      let next ← next.resumeSuspendedPrefill
      next.serveOwner e input
  else s.serveOwner e input

/-- The last branch of the loop: decode, and stay at it if nothing waits. -/
def decodeMembers (s : State n) (input : Input n) : State n :=
  if s.hasMembers then { s.runDecodeRound input.rows with stableDecodeEpoch := !input.havePending }
  else s

/-- The end of the loop: nobody owns prefill and no admission is in progress. -/
def serveQueue (s : State n) (input : Input n) : State n :=
  match input.admission with
  | some c =>
    if s.admits input ∧ (s.slots c.lane).isNone then
      let next := (s.admitPlannedRequest c c.hostHit).1
      -- Only an admission that holds ends the pass; a refused or failed one lets the others decode.
      match c.binding with
      | .holds => next
      | _ => next.decodeMembers input
    else s.decodeMembers input
  | none => s.decodeMembers input

/-- The loop's branch for a free prefill slot. -/
def serveFree (e : Executor) (s : State n) (input : Input n) : Except String (State n) :=
  match input.recovery with
  | some (lane, route) =>
    if s.isRecoveryPending lane then s.startRecoveryAttempt e lane route
    else return s.serveQueue input
  | none => return s.serveQueue input

/-- The loop from the copy-hold on. -/
def dispatch (e : Executor) (s : State n) (input : Input n) : Except String (State n) :=
  match s.copyHold with
  | some hold => s.serveHold e hold input
  | none =>
    match s.prefillLane with
    | some _ => s.servePrefill e input
    | none => s.serveFree e input

/-- One pass of `worker_loop`. -/
def iterate (e : Executor) (s : State n) (input : Input n) : Except String (State n) :=
  if s.stableDecodeEpoch ∧ input.quiet ∧ s.hasMembers then
    return s.runDecodeRound input.rows
  else do
    let cancelled := { s with stableDecodeEpoch := false }.cancelActiveRequests input.cancelled
    let resumed ← cancelled.resumeSuspendedPrefill
    resumed.dispatch e input

end State

/-- The states that a run of the worker loop comes through. -/
inductive Reachable {n : ℕ} (e : Executor) : State n → Prop
  | start : Reachable e {}
  | iterate {s s' : State n} {input : Input n} :
      Reachable e s → s.iterate e input = .ok s' → Reachable e s'

/-! ## The protocol -/

/-- The one pass that a suspended owner grants. -/
inductive Pass (n : ℕ) where
  | unused
  | bound (lane : Fin n)
  | used
  deriving DecidableEq

/-- Prefill ownership, as it is meant to be. -/
structure Protocol (n : ℕ) where
  owner : Option (Fin n) := none
  suspended : Option (Fin n) := none
  pass : Pass n := .unused
  /-- The lane whose owner was interrupted and has not advanced since. -/
  owes : Option (Fin n) := none
  deriving DecidableEq

namespace Protocol

variable {n : ℕ} {p q : Protocol n} {a : Fin n} {log : List (Action n)}

/-- Forget a lane. -/
def clear (lane : Option (Fin n)) (gone : Fin n) : Option (Fin n) :=
  if lane = some gone then none else lane

/-- Which actions are allowed.  Only an owner that owes no chunk is suspended, and nobody else is
suspended then.  Requests are admitted while nobody owns the prefill slot.  While an owner is
suspended, one other request is admitted, which makes the owner owe a chunk, and only that request
takes the prefill slot.  The owner resumes in its own lane. -/
def step (p : Protocol n) : Action n → Option (Protocol n)
  | .suspends a =>
    if p.owner = some a ∧ p.suspended = none ∧ p.owes ≠ some a then
      some { p with owner := none, suspended := some a, pass := .unused }
    else none
  | .binds b =>
    match p.owner, p.suspended with
    | none, none => some p
    | none, some a =>
      if b ≠ a ∧ p.pass = .unused then some { p with pass := .bound b, owes := some a } else none
    | some _, _ => none
  | .starts b =>
    if p.owner = none ∧ (p.suspended = none ∨ p.suspended ≠ some b ∧ p.pass = .bound b) then
      some { p with owner := some b, pass := .used }
    else none
  | .resumes a =>
    if p.owner = none ∧ p.suspended = some a then
      some { p with owner := some a, suspended := none }
    else none
  | .chunk b =>
    if p.owner = some b then some { p with owes := clear p.owes b } else none
  | .stops b =>
    if p.owner = some b then some { p with owner := none, owes := clear p.owes b } else none
  | .leaves b =>
    if p.owner ≠ some b then
      some { p with suspended := clear p.suspended b, owes := clear p.owes b }
    else none

/-- The protocol along a log, if the log keeps to it. -/
def runFrom (p : Protocol n) (log : List (Action n)) : Option (Protocol n) := log.foldlM step p

/-- The state of the protocol after a log, if the log keeps to it. -/
def run (log : List (Action n)) : Option (Protocol n) := runFrom {} log

lemma runFrom_cons {action : Action n} :
    runFrom p (action :: log) = some q ↔ ∃ r, p.step action = some r ∧ runFrom r log = some q :=
  Monitor.runFrom_cons

lemma runFrom_append {rest : List (Action n)} :
    runFrom p (log ++ rest) = some q ↔ ∃ r, runFrom p log = some r ∧ runFrom r rest = some q :=
  Monitor.runFrom_append

/-- The log goes on from `past` and keeps to the protocol. -/
def Accepts (past log : List (Action n)) (p : Protocol n) : Prop :=
  past <+: log ∧ run log = some p

lemma Accepts.step {past : List (Action n)} {p' : Protocol n} {action : Action n}
    (h : Accepts past log p) (hstep : p.step action = some p') :
    Accepts past (log ++ [action]) p' :=
  ⟨h.1.trans (List.prefix_append ..), Monitor.runFrom_append_singleton h.2 hstep⟩

lemma clear_eq_some {lane : Option (Fin n)} {gone : Fin n} :
    clear lane gone = some a ↔ lane = some a ∧ a ≠ gone := by
  unfold clear
  split_ifs with h
  · rw [h]
    constructor
    · intro hnone
      cases hnone
    · rintro ⟨hsome, hne⟩
      exact absurd (Option.some.inj hsome).symm hne
  · refine ⟨fun hsome => ⟨hsome, ?_⟩, fun hsome => hsome.1⟩
    rintro rfl
    exact h hsome

lemma clear_of_ne {lane : Option (Fin n)} {gone : Fin n} (h : lane ≠ some gone) :
    clear lane gone = lane :=
  if_neg h

/-! ### What the protocol promises -/

/-- The lane's owner advanced, or its prefill is over. -/
def Settles (a : Fin n) (action : Action n) : Prop :=
  action = .chunk a ∨ action = .stops a ∨ action = .leaves a

/-- The lane's prefill is running or suspended. -/
def Involved (a : Fin n) (p : Protocol n) : Prop := p.suspended = some a ∨ p.owner = some a

/-- An interrupted owner stays in debt until it settles. -/
lemma step_involved {action : Action n} (hstep : p.step action = some q)
    (hinvolved : Involved a p) (hunsettled : ¬Settles a action) :
    Involved a q ∧ (p.owes = some a ∨ (∃ b, action = .binds b) → q.owes = some a) := by
  cases action with
  | suspends c =>
    simp only [step, taken_iff] at hstep
    obtain ⟨⟨howner, hnone, howes⟩, rfl⟩ := hstep
    have hc : c = a := by
      rcases hinvolved with hs | ho
      · rw [hnone] at hs
        cases hs
      · exact Option.some.inj (howner.symm.trans ho)
    obtain rfl := hc
    exact ⟨.inl rfl, fun h => h.elim (fun h => absurd h howes) (fun ⟨_, h⟩ => (by cases h))⟩
  | binds b =>
    simp only [step] at hstep
    split at hstep
    · next howner hnone =>
      rcases hinvolved with hs | ho
      · rw [hnone] at hs
        cases hs
      · rw [howner] at ho
        cases ho
    · next c howner hc =>
      rcases hinvolved with hs | ho
      · obtain rfl := Option.some.inj (hc.symm.trans hs)
        split_ifs at hstep
        obtain rfl := Option.some.inj hstep
        exact ⟨.inl hc, fun _ => rfl⟩
      · rw [howner] at ho
        cases ho
    · cases hstep
  | starts b =>
    simp only [step, taken_iff] at hstep
    obtain ⟨⟨howner, -⟩, rfl⟩ := hstep
    rcases hinvolved with hs | ho
    · exact ⟨.inl hs, fun h => h.elim id (fun ⟨_, h⟩ => (by cases h))⟩
    · rw [howner] at ho
      cases ho
  | resumes c =>
    simp only [step, taken_iff] at hstep
    obtain ⟨⟨howner, hc⟩, rfl⟩ := hstep
    rcases hinvolved with hs | ho
    · exact ⟨.inr (hc.symm.trans hs), fun h => h.elim id (fun ⟨_, h⟩ => (by cases h))⟩
    · rw [howner] at ho
      cases ho
  | chunk b =>
    simp only [step, taken_iff] at hstep
    obtain ⟨-, rfl⟩ := hstep
    have hne : a ≠ b := by
      rintro rfl
      exact hunsettled (.inl rfl)
    exact ⟨hinvolved, fun h => clear_eq_some.mpr
      ⟨h.elim id (fun ⟨_, h⟩ => (by cases h)), hne⟩⟩
  | stops b =>
    simp only [step, taken_iff] at hstep
    obtain ⟨howner, rfl⟩ := hstep
    have hne : a ≠ b := by
      rintro rfl
      exact hunsettled (.inr (.inl rfl))
    refine ⟨.inl (hinvolved.resolve_right fun ho => ?_), fun h => clear_eq_some.mpr
      ⟨h.elim id (fun ⟨_, h⟩ => (by cases h)), hne⟩⟩
    exact hne (Option.some.inj (ho.symm.trans howner))
  | leaves b =>
    simp only [step, taken_iff] at hstep
    obtain ⟨-, rfl⟩ := hstep
    have hne : a ≠ b := by
      rintro rfl
      exact hunsettled (.inr (.inr rfl))
    exact ⟨hinvolved.imp (fun hs => clear_eq_some.mpr ⟨hs, hne⟩) id, fun h => clear_eq_some.mpr
      ⟨h.elim id (fun ⟨_, h⟩ => (by cases h)), hne⟩⟩

lemma owes_of_binds (hrun : runFrom p log = some q) (hinvolved : Involved a p)
    (hunsettled : ∀ action ∈ log, ¬Settles a action)
    (hdebt : p.owes = some a ∨ ∃ b, Action.binds b ∈ log) : q.owes = some a := by
  induction log generalizing p with
  | nil =>
    obtain rfl := Option.some.inj hrun
    exact hdebt.resolve_right fun ⟨_, h⟩ => List.not_mem_nil h
  | cons action log ih =>
    obtain ⟨r, hstep, hrest⟩ := runFrom_cons.mp hrun
    obtain ⟨hr, howes⟩ := step_involved hstep hinvolved (hunsettled action List.mem_cons_self)
    refine ih hrest hr (fun x hx => hunsettled x (List.mem_cons_of_mem _ hx)) ?_
    rcases hdebt with hp | ⟨b, hb⟩
    · exact .inl (howes (.inl hp))
    · rcases List.mem_cons.mp hb with hb | hb
      · exact .inl (howes (.inr ⟨b, hb.symm⟩))
      · exact .inr ⟨b, hb⟩

/-- **Interruptions are apart.**  An owner that was suspended while another request was admitted is
not suspended again before it completed a nonempty chunk, or its prefill was over. -/
lemma settles_between {before between rest : List (Action n)}
    (hrun : run (before ++ .suspends a :: between ++ .suspends a :: rest) = some p)
    (hbinds : ∃ b, Action.binds b ∈ between) : ∃ action ∈ between, Settles a action := by
  obtain ⟨r, hr, hrest⟩ := runFrom_append.mp hrun
  obtain ⟨q, -, hq⟩ := runFrom_append.mp hr
  obtain ⟨q', hsuspends, hbetween⟩ := runFrom_cons.mp hq
  obtain ⟨_, hagain, -⟩ := runFrom_cons.mp hrest
  by_contra hnone
  push Not at hnone
  have hinvolved : Involved a q' := by
    simp only [step, taken_iff] at hsuspends
    obtain ⟨-, rfl⟩ := hsuspends
    exact .inl rfl
  have howes := owes_of_binds hbetween hinvolved hnone (.inr hbinds)
  simp only [step, taken_iff] at hagain
  exact hagain.1.2.2 howes

def isStart : Action n → Bool
  | .starts _ => true
  | _ => false

/-- While its owner is suspended, the prefill slot is taken at most as often as the pass allows. -/
lemma starts_le_pass (hrun : runFrom p log = some q) (hsuspended : p.suspended = some a)
    (hresumes : Action.resumes a ∉ log) (hleaves : Action.leaves a ∉ log) :
    (log.filter isStart).length ≤ if p.pass = .used then 0 else 1 := by
  induction log generalizing p with
  | nil => exact Nat.zero_le _
  | cons action log ih =>
    obtain ⟨r, hstep, hrest⟩ := runFrom_cons.mp hrun
    obtain ⟨hresumes, hresumes'⟩ := not_or.mp (fun h => hresumes (List.mem_cons.mpr h))
    obtain ⟨hleaves, hleaves'⟩ := not_or.mp (fun h => hleaves (List.mem_cons.mpr h))
    have hnext : r.suspended = some a → (log.filter isStart).length ≤
        if r.pass = .used then 0 else 1 := fun hs => ih hrest hs hresumes' hleaves'
    cases action with
    | suspends c =>
      simp only [step, taken_iff, hsuspended] at hstep
      cases hstep.1.2.1
    | binds b =>
      simp only [step, hsuspended] at hstep
      split at hstep
      · next hc => cases hc
      · next c _ _ =>
        split_ifs at hstep with hpass
        obtain rfl := Option.some.inj hstep
        rw [hpass.2]
        exact hnext rfl
      · cases hstep
    | starts b =>
      simp only [step, taken_iff, hsuspended] at hstep
      obtain ⟨⟨-, hallowed⟩, rfl⟩ := hstep
      have hpass : p.pass = .bound b := (hallowed.resolve_left (by simp)).2
      have hno := hnext rfl
      simp only [List.filter_cons, isStart, hpass]
      simpa using hno
    | resumes c =>
      simp only [step, Option.ite_none_right_eq_some, hsuspended, Option.some.injEq] at hstep
      exact absurd (by rw [hstep.1.2]) hresumes
    | chunk | stops =>
      simp only [step, taken_iff] at hstep
      obtain ⟨-, rfl⟩ := hstep
      exact hnext hsuspended
    | leaves b =>
      simp only [step, taken_iff] at hstep
      obtain ⟨-, rfl⟩ := hstep
      refine hnext (clear_eq_some.mpr ⟨hsuspended, ?_⟩)
      rintro rfl
      exact hleaves rfl

/-- **One guest.**  Until a suspended owner resumes or leaves, one other request takes the prefill
slot at most. -/
lemma starts_le_one {before : List (Action n)}
    (hrun : run (before ++ .suspends a :: log) = some p) (hresumes : Action.resumes a ∉ log)
    (hleaves : Action.leaves a ∉ log) : (log.filter isStart).length ≤ 1 := by
  obtain ⟨q, -, hq⟩ := runFrom_append.mp hrun
  obtain ⟨r, hsuspends, hrest⟩ := runFrom_cons.mp hq
  simp only [step, taken_iff] at hsuspends
  obtain ⟨-, rfl⟩ := hsuspends
  exact (starts_le_pass hrest rfl hresumes hleaves).trans (by simp)

end Protocol

end NInfer.Suspension
