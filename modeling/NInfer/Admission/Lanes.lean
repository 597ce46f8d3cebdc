import NInfer.Admission.Policy
import NInfer.Foundation.Selection

/-!
# Lanes

A lane is free or bound to a request.  A free lane may retain the KV pages of the sequence it ran
last, so that a later request can reuse them; a request takes over a lane, takes over what a lane
retains, or forks it, and evicts what other free lanes retain if the pages do not suffice
(`find_admission_lane`, `find_fork_lane`, `can_admit_lane*`).

Requests with `cache_write` may evict anything that is retained.  Requests without it leave the
lanes alone that hold a prefix of their prompt: they fork such a lane, copy it to the host first, or
start cold elsewhere.
-/

namespace NInfer.Admission

open NInfer.Prefill

/-! ## Engines and lanes -/

/-- A program and the page groups of its two KV pools. -/
structure Engine where
  program : Program
  mainKvPages : ℕ
  backendKvPages : ℕ

namespace Engine

variable (e : Engine)

abbrev Lane := Fin e.program.options.maxConcurrency

instance : LawfulBEq e.Lane := inferInstance

/-- Whether there is a `backend_kv_cache`. -/
def hasBackendKv : Bool :=
  match e.program.options.backend with
  | .none => false
  | .mtp => true
  | .dflash => e.program.target.dflashFullLayers

/-- `admission_capacity`. -/
def admissionCapacity : AdmissionResources where
  activeLanes := e.program.options.maxConcurrency
  mainKvPages := e.mainKvPages
  backendKvPages := if e.hasBackendKv then e.backendKvPages else 0

/-- `logical_page_capacity`, which both pools share. -/
def logicalPageCapacity : ℕ := pagesForTokens e.program.capacity

end Engine

/-- The pages a sequence is entitled to in the main pool and in the backend pool. -/
abbrev KvPages := ℕ × ℕ

/-- The pages that a plan asks for. -/
def kvPages (resources : AdmissionResources) : KvPages :=
  (resources.mainKvPages, resources.backendKvPages)

/-- `Lifecycle`. -/
inductive Lifecycle where
  | empty
  | prefilling
  | active
  | pending
  | complete
  deriving DecidableEq

/-- `SequenceState` and `RequestControl` of a lane, as far as admission reads them. -/
structure LaneState where
  lifecycle : Lifecycle := .empty
  kv : Option KvPages := none
  retained : Bool := false
  /-- `cache_retention` is `Disposable`. -/
  disposable : Bool := false
  useTick : ℕ := 0

namespace LaneState

variable (l : LaneState)

/-- `page_entitlement` of the bundle, if there is one. -/
def pages : KvPages := l.kv.getD 0

/-- The lane runs a request. -/
def busy : Bool :=
  l.lifecycle = .prefilling ∨ l.lifecycle = .active ∨ l.lifecycle = .pending

/-- `retained_lane_cache_writable`. -/
def cacheWritable : Bool := l.retained ∧ l.disposable = false

end LaneState

/-- What the scheduler looks at: the lanes, and which of them are bound (`slots_`). -/
structure View (e : Engine) where
  lanes : e.Lane → LaneState
  occupied : e.Lane → Bool

namespace View

variable {e : Engine} (v : View e)

/-- `entitled_pages` of the two pools. -/
def entitledPages : KvPages := ∑ lane, (v.lanes lane).pages

/-- `retained_lane_precedes`: disposable lanes first, then the one used least recently. -/
def retainedLanePrecedes (left right : e.Lane) : Bool :=
  let a := v.lanes left
  let b := v.lanes right
  if a.disposable ≠ b.disposable then a.disposable
  else a.useTick < b.useTick ∨ a.useTick = b.useTick ∧ left < right

/-- `can_replace`. -/
def canReplace (pageGroupCount logicalPageCapacity entitled old reclaimable new : ℕ) : Bool :=
  old ≤ entitled ∧ reclaimable ≤ entitled - old ∧ new ≤ logicalPageCapacity ∧
    new ≤ pageGroupCount - (entitled - old - reclaimable)

/-- The body of `can_admit_lane*`, which differ in what they count as reclaimable. -/
def canAdmit (lane : e.Lane) (pages reclaimable : KvPages) : Bool :=
  let old := (v.lanes lane).pages
  let entitled := v.entitledPages
  (v.lanes lane).busy = false ∧
    canReplace e.mainKvPages e.logicalPageCapacity entitled.1 old.1 reclaimable.1 pages.1 ∧
    if e.hasBackendKv then
      canReplace e.backendKvPages e.logicalPageCapacity entitled.2 old.2 reclaimable.2 pages.2
    else pages.2 = 0

/-- `can_admit_lane`. -/
def canAdmitLane (lane : e.Lane) (pages : KvPages) : Bool := v.canAdmit lane pages 0

/-- The pages that releasing other retained lanes gives back. -/
def reclaimable (lane : e.Lane) (released : e.Lane → Bool) : KvPages :=
  ∑ other, if other ≠ lane ∧ released other ∧ (v.lanes other).retained then (v.lanes other).pages
    else 0

/-- `can_admit_lane_after_retained_eviction`. -/
def canAdmitLaneAfterRetainedEviction (lane : e.Lane) (pages : KvPages) : Bool :=
  v.canAdmit lane pages (v.reclaimable lane fun _ => true)

/-- `can_admit_lane_after_releasing`. -/
def canAdmitLaneAfterReleasing (lane : e.Lane) (pages : KvPages) (releaseLanes : List e.Lane) :
    Bool :=
  v.canAdmit lane pages (v.reclaimable lane (· ∈ releaseLanes))

/-- The lanes in the order of the loops over them. -/
def all : List e.Lane := List.finRange _

/-- The lanes that are not bound. -/
def free : List e.Lane := all.filter (v.occupied · = false)

end View

/-! ## Plans -/

/-- A reuse decision for a prompt. -/
structure Reuse (prompt : PreparedPrompt) where
  decision : ReuseDecision := {}
  le : decision.frontier ≤ prompt.shape.tokens := by exact Nat.zero_le _

/-- `reusable_prompt_tokens`. -/
def Reuse.tokens {prompt : PreparedPrompt} (reuse : Reuse prompt) : ℕ :=
  if reuse.decision.path = .fullReset then 0 else reuse.decision.frontier

/-- What planning finds for a prompt in a lane and in the host tiers. -/
structure Lookup (e : Engine) (prompt : PreparedPrompt) where
  lane : e.Lane → Reuse prompt := fun _ => {}
  ram : Option (Reuse prompt) := none
  disk : Option (Reuse prompt) := none

namespace Lookup

variable {e : Engine} {prompt : PreparedPrompt} (lookup : Lookup e prompt)

/-- `plan_request_for_lane` looks at a lane only if it is retained. -/
def lanePlan (v : View e) (lane : e.Lane) : Reuse prompt :=
  if (v.lanes lane).retained then lookup.lane lane else {}

/-- `ensure_ram_candidate`. -/
def ramPlan : Option (Reuse prompt) := lookup.ram.filter (0 < ·.tokens)

/-- `ensure_disk_candidate`. -/
def diskPlan : Option (Reuse prompt) := lookup.disk.filter (0 < ·.tokens)

end Lookup

/-- The host tier that a choice restores from. -/
inductive HostTier where
  | ram
  | disk
  deriving DecidableEq

/-- `LaneChoice`. -/
structure LaneChoice (e : Engine) where
  lane : e.Lane
  evictRetained : Bool := false
  host : Option HostTier := none
  forkSource : Option e.Lane := none
  preserveSource : Bool := false
  protectedLanes : e.Lane → Bool := fun _ => false

/-- A choice and the plan it runs; `rank` breaks ties in `find_fork_lane`. -/
structure Candidate (e : Engine) (prompt : PreparedPrompt) where
  choice : LaneChoice e
  plan : Reuse prompt
  rank : ℕ := 0

/-! ## Lane selection -/

section Selection

variable {e : Engine} {prompt : PreparedPrompt} (v : View e) (pages : KvPages)

/-- The lane that `retained_lane_precedes` puts first. -/
def oldest (lanes : List e.Lane) : Option e.Lane :=
  lanes.foldl (fun best lane =>
    match best with
    | none => some lane
    | some other => if v.retainedLanePrecedes lane other then some lane else some other) none

/-- The lanes that a choice may evict. -/
def victims (choice : LaneChoice e) : List e.Lane :=
  v.free.filter fun other =>
    other ≠ choice.lane ∧ choice.protectedLanes other = false ∧ (v.lanes other).retained

/-- Whether `find_fork_lane` replaces the selected candidate. -/
def forkReplaces (c selected : Candidate e prompt) : Bool :=
  let dirty := (v.lanes c.choice.lane).retained
  let selectedDirty := (v.lanes selected.choice.lane).retained
  if c.plan.tokens < selected.plan.tokens ∨
      c.plan.tokens = selected.plan.tokens ∧ c.rank > selected.rank then false
  else if c.plan.tokens = selected.plan.tokens ∧ c.rank = selected.rank then
    if dirty ∧ selectedDirty = false then false
    else ¬(dirty = selectedDirty ∧
        v.retainedLanePrecedes c.choice.lane selected.choice.lane = false)
  else true

/-- A choice keeps the lane that it forks. -/
def LaneChoice.protectSource (choice : LaneChoice e) : LaneChoice e :=
  { choice with
    protectedLanes := fun lane => choice.forkSource = some lane || choice.protectedLanes lane }

/-- `consider` of `find_fork_lane`. -/
def considerFork (selected : Option (Candidate e prompt)) (c : Candidate e prompt) :
    Option (Candidate e prompt) :=
  let choice := c.choice.protectSource
  if v.canAdmitLaneAfterReleasing choice.lane pages (victims v choice) = false then selected
  else
    let c := { c with choice := { choice with
      evictRetained := !v.canAdmitLane choice.lane pages } }
    match selected with
    | none => some c
    | some other => if forkReplaces v c other then some c else some other

/-- The lanes that hold a prefix of the prompt and may not be evicted for it. -/
def protectedLanes (lookup : Lookup e prompt) (lane : e.Lane) : Bool :=
  v.occupied lane = false ∧ (lookup.lanePlan v lane).tokens ≠ 0

/-- The candidates of `find_fork_lane`, in the order of its loops. -/
def forkCandidates (lookup : Lookup e prompt) (unavailable : e.Lane → Bool) :
    List (Candidate e prompt) :=
  let forks := (View.all.filter (protectedLanes v lookup)).flatMap fun source =>
    let plan := lookup.lanePlan v source
    ((v.free.filter (· ≠ source)).map fun destination =>
      { choice := { lane := destination, forkSource := some source }, plan, rank := 0 }) ++
    (if unavailable source = false ∧ (v.lanes source).cacheWritable then
      [{ choice := { lane := source, forkSource := some source, preserveSource := true }
         plan, rank := 3 }] else [])
  let others := v.free.flatMap fun destination =>
    (lookup.ramPlan.toList.map fun plan =>
      { choice := { lane := destination, host := some .ram }, plan, rank := 1 }) ++
    (lookup.diskPlan.toList.map fun plan =>
      { choice := { lane := destination, host := some .disk }, plan, rank := 2 }) ++
    (if protectedLanes v lookup destination then [] else
      [{ choice := { lane := destination, protectedLanes := protectedLanes v lookup }
         plan := lookup.lanePlan v destination, rank := 4 }])
  forks ++ others

/-- `find_fork_lane`. -/
def findForkLane (lookup : Lookup e prompt) (unavailable : e.Lane → Bool) :
    Except String (Option (Candidate e prompt)) := do
  let selected := (forkCandidates v lookup unavailable).foldl (considerFork v pages) none
  refuseIf (selected.isNone ∧ ∀ lane, v.occupied lane = false)
    ("preserving the cached source requires another lane or sufficient " ++ "RAM cache capacity")
  pure selected

/-- `consider_vram`. -/
def considerVram (selected : Option (Candidate e prompt)) (c : Candidate e prompt) :
    Option (Candidate e prompt) :=
  match selected with
  | none => some c
  | some other =>
    let dirty := (v.lanes c.choice.lane).retained
    let selectedDirty := (v.lanes other.choice.lane).retained
    if c.plan.tokens < other.plan.tokens then some other
    else if c.plan.tokens = other.plan.tokens ∧ (selectedDirty = false ∨
        dirty ∧ v.retainedLanePrecedes c.choice.lane other.choice.lane = false) then some other
    else some c

/-- `consider_host`. -/
def considerHost (selected : Option (Candidate e prompt)) (lane : Option e.Lane)
    (tier : HostTier) (evict : Bool) (plan : Option (Reuse prompt)) :
    Option (Candidate e prompt) :=
  match plan, lane with
  | some plan, some lane =>
    let c := { choice := { lane, evictRetained := evict, host := some tier }, plan }
    match selected with
    | none => some c
    | some other => if plan.tokens ≤ other.plan.tokens then some other else some c
  | _, _ => selected

/-- The check of a pass: as things are, or after evicting what other lanes retain. -/
def feasible (evict : Bool) (lane : e.Lane) : Bool :=
  if evict then v.canAdmitLaneAfterRetainedEviction lane pages else v.canAdmitLane lane pages

/-- `first_host_lane`. -/
def firstHostLane (evict : Bool) : Option e.Lane :=
  let lanes := v.free.filter (feasible v pages evict)
  (lanes.find? fun lane => (v.lanes lane).retained = false).or (oldest v lanes)

/-- One of the two passes of `find_admission_lane`. -/
def admissionPass (lookup : Lookup e prompt) (evict : Bool) : Option (Candidate e prompt) :=
  let resident := (v.free.filter (feasible v pages evict)).map fun lane =>
    { choice := { lane, evictRetained := evict }
      plan := lookup.lanePlan v lane : Candidate e prompt }
  let selected := resident.foldl (considerVram v) none
  let host := firstHostLane v pages evict
  considerHost (considerHost selected host .ram evict lookup.ramPlan) host .disk evict
    lookup.diskPlan

/-- `find_admission_lane`. -/
def findAdmissionLane (cacheWrite : Bool) (lookup : Lookup e prompt)
    (unavailable : e.Lane → Bool) : Except String (Option (Candidate e prompt)) :=
  if cacheWrite = false then findForkLane v pages lookup unavailable
  else if ∀ lane ∈ v.free, feasible v pages false lane = false ∧ feasible v pages true lane = false
    then pure none
  else pure ((admissionPass v pages lookup false).or (admissionPass v pages lookup true))

end Selection

end NInfer.Admission
