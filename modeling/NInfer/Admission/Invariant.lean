import NInfer.Admission.Queue

/-!
# The invariant of the executor

Between two events the executor keeps an invariant, `Inv`.  A free lane holds pages only if it is
retained, a bound lane no more than its request was admitted with, both pools have room for all of
them, and a hold has its room set aside.  From it, a request that finds no lane is blocked by the
active requests (`Ready.blocked`).
-/

namespace NInfer.Admission

open NInfer.Prefill

variable {e : Engine}

/-! ## Pages of lanes -/

namespace LaneState

/-- A lane that no request runs in. -/
structure Idle (l : LaneState) : Prop where
  notBusy : l.busy = false
  empty : l.retained = false → l.kv = none ∧ l.lifecycle = .empty

lemma idle_empty : ({} : LaneState).Idle := ⟨rfl, fun _ => ⟨rfl, rfl⟩⟩

lemma idle_retain (l : LaneState) (mapped : KvPages) : (l.retain mapped).Idle :=
  ⟨by simp [LaneState.retain, busy], fun h => by cases h⟩

lemma Idle.pages_eq_zero {l : LaneState} (h : l.Idle) (hretained : l.retained = false) :
    l.pages = 0 := by
  simp [pages, (h.empty hretained).1]

lemma pages_retain_le (l : LaneState) (mapped : KvPages) : (l.retain mapped).pages ≤ l.pages := by
  unfold pages retain
  cases l.kv with
  | none => exact le_rfl
  | some pages => exact inf_le_left

end LaneState

namespace View

variable {v v' : View e}

lemma entitledPages_mono (h : ∀ lane, (v'.lanes lane).pages ≤ (v.lanes lane).pages) :
    v'.entitledPages ≤ v.entitledPages :=
  Finset.sum_le_sum fun lane _ => h lane

lemma keptPages_mono {lane : e.Lane} {released released' : e.Lane → Bool}
    (h : ∀ other, other ≠ lane → ¬(released' other = true ∧ (v'.lanes other).retained = true) →
      (v'.lanes other).pages ≤ (v.lanes other).pages ∧
        ((v'.lanes other).pages = 0 ∨
          ¬(released other = true ∧ (v.lanes other).retained = true))) :
    v'.keptPages lane released' ≤ v.keptPages lane released := by
  refine Finset.sum_le_sum fun other _ => ?_
  by_cases hother : other = lane
  · simp [hother]
  · by_cases hreleased' : released' other = true ∧ (v'.lanes other).retained = true
    · rw [if_pos (.inr hreleased')]
      exact ⟨Nat.zero_le _, Nat.zero_le _⟩
    · rw [if_neg (by tauto)]
      obtain ⟨hle, hzero | hkept⟩ := h other hother hreleased'
      · rw [hzero]
        exact ⟨Nat.zero_le _, Nat.zero_le _⟩
      · rwa [if_neg (by tauto)]

/-- The pages of the lanes once one of them takes new ones. -/
lemma entitledPages_update (lane : e.Lane) (l : LaneState) :
    (⟨Function.update v.lanes lane l, v.occupied⟩ : View e).entitledPages =
      l.pages + v.keptPages lane (fun _ => false) := by
  rw [entitledPages_eq _ lane (fun _ => false)]
  have hnone : ∀ v : View e, v.reclaimable lane (fun _ => false) = 0 := by
    intro v
    simp [reclaimable]
  rw [hnone, add_zero]
  congr 1
  · simp
  · refine Finset.sum_congr rfl fun other _ => ?_
    by_cases hother : other = lane
    · simp [hother]
    · simp [hother]

end View

/-! ## Slots -/

lemma update_cases {slots : e.Lane → Option (Slot e)} {lane lane' : e.Lane}
    {slot slot' : Option (Slot e)} (h : Function.update slots lane slot lane' = slot') :
    lane' = lane ∧ slot = slot' ∨ lane' ≠ lane ∧ slots lane' = slot' := by
  by_cases hlane : lane' = lane
  · subst hlane
    rw [Function.update_self] at h
    exact .inl ⟨rfl, h⟩
  · rw [Function.update_of_ne hlane] at h
    exact .inr ⟨hlane, h⟩

/-! ## The invariant -/

/-- The retries of the request are covered by what it is granted. -/
def Submission.Covered (r : Submission e) : Prop :=
  (r.recovery && r.options.pLess && r.prompt.generationRecovery) = false ∨
    RetriesCovered e.program.options

/-- A bound request is under way and accounted for. -/
structure Slot.Sound (slot : Slot e) : Prop where
  covered : slot.queued.Covered
  served : Served slot.admission slot.request
  active : slot.request.stage ≠ .complete

/-- The lane of a bound request that is not held. -/
structure Slot.Running (slot : Slot e) (l : LaneState) : Prop where
  pages_le : l.pages ≤ kvPages slot.request.admission
  notRetained : slot.request.stage.isRecoveryPending = false → l.retained = false

/-- A hold has its lane, its fork source and its room. -/
structure Hold.Sound (hold : Hold e) (s : State e) : Prop where
  bound : (s.slots hold.lane).isSome
  idle : (s.lanes hold.lane).Idle
  plannable : e.Plannable hold.pages
  admitted : ∀ slot ∈ s.slots hold.lane, hold.pages ≤ kvPages slot.request.admission
  victims : ∀ victim ∈ hold.victimLanes, victim = hold.lane ∨ s.slots victim = none
  fork : ∀ source ∈ hold.forkSource, source ≠ hold.lane ∧ s.slots source = none ∧
    (s.lanes source).retained = true ∧ source ∉ hold.victimLanes ∧
    s.lanePlanVersions source = hold.forkSourceVersion
  captured : hold.forkSource.isSome ∨ hold.host.isSome → (s.lanes hold.lane).retained = true →
    hold.lane ∈ hold.victimLanes
  room : hold.pages + s.view.keptPages hold.lane (· ∈ hold.victimLanes) ≤ e.kvCapacity

/-- What holds between two events. -/
structure Inv (s : State e) : Prop where
  free : ∀ lane, s.slots lane = none → (s.lanes lane).Idle
  sound : ∀ lane, ∀ slot ∈ s.slots lane, slot.Sound
  running : ∀ lane, ∀ slot ∈ s.slots lane, (∀ hold ∈ s.copyHold, hold.lane ≠ lane) →
    slot.Running (s.lanes lane)
  entitled : s.view.entitledPages ≤ e.kvCapacity
  pending : ∀ q ∈ s.pending, q.Covered
  hold : ∀ hold ∈ s.copyHold, hold.Sound s
  nextEpoch : s.nextProtectionEpoch ≠ 0

lemma Inv.init : Inv ({} : State e) where
  free := fun _ _ => LaneState.idle_empty
  sound := fun _ _ h => by cases h
  running := fun _ _ h => by cases h
  entitled := by
    have hzero : (({} : State e).view).entitledPages = 0 := Finset.sum_eq_zero fun _ _ => rfl
    rw [hzero]
    exact ⟨Nat.zero_le _, Nat.zero_le _⟩
  pending := fun _ h => by cases h
  hold := fun _ h => by cases h
  nextEpoch := Nat.one_ne_zero

/-- The invariant is about the lanes; the queue may change. -/
lemma Inv.requeue {s s' : State e} (h : Inv s) (hcovered : ∀ q ∈ s'.pending, q.Covered)
    (hlanes : s'.lanes = s.lanes) (hslots : s'.slots = s.slots) (hhold : s'.copyHold = s.copyHold)
    (hversions : s'.lanePlanVersions = s.lanePlanVersions)
    (hepoch : s'.nextProtectionEpoch ≠ 0) : Inv s' := by
  obtain ⟨lanes, slots, pending', protection, copyHold, versions, nextRequest, nextOrder,
    nextEpoch, nextTick⟩ := s'
  subst hlanes hslots hhold hversions
  exact
    { free := h.free
      sound := h.sound
      running := h.running
      entitled := h.entitled
      pending := hcovered
      hold := fun hold hmem =>
        { bound := (h.hold hold hmem).bound
          idle := (h.hold hold hmem).idle
          plannable := (h.hold hold hmem).plannable
          admitted := (h.hold hold hmem).admitted
          victims := (h.hold hold hmem).victims
          fork := (h.hold hold hmem).fork
          captured := (h.hold hold hmem).captured
          room := (h.hold hold hmem).room }
      nextEpoch := hepoch }

lemma Shrinks.covered {pending pending' : List (Queued e)} (h : Shrinks pending pending')
    (hcovered : ∀ q ∈ pending, q.Covered) : ∀ q ∈ pending', q.Covered := by
  intro q hq
  obtain ⟨r, hr, hsame⟩ := h.mem q hq
  rw [hsame.submission]
  exact hcovered r hr

lemma Inv.waits {s s' : State e} (h : Inv s) (hwaits : Waits s s')
    (hepoch : s'.nextProtectionEpoch ≠ 0) : Inv s' :=
  h.requeue (hwaits.pending.covered h.pending) hwaits.lanes hwaits.slots hwaits.copyHold
    hwaits.versions hepoch

lemma Inv.submit {s : State e} (h : Inv s) {submission : Submission e}
    (hcovered : submission.Covered) : Inv (s.submit submission) := by
  refine h.requeue ?_ rfl rfl rfl rfl h.nextEpoch
  intro q hq
  rcases List.mem_append.mp hq with hq | hq
  · exact h.pending q hq
  · rw [List.mem_singleton.mp hq]
    exact hcovered

lemma Inv.leave {s : State e} (h : Inv s) (id : ℕ) : Inv (s.leave id) :=
  h.waits (.leave s id) h.nextEpoch

/-! ## The head is blocked by the active requests -/

namespace Slot.Sound

variable {slot : Slot e}

lemma funded (h : slot.Sound) : Funded slot.admission slot.request :=
  h.served.funded (Admission.width_le h.covered)

lemma admission_eq (h : slot.Sound) : slot.request.admission = slot.queued.base.admission := by
  rw [h.funded.admission, (planRequestBase_spec slot.queued.planned).admission]
  rfl

lemma activeLanes_eq (h : slot.Sound) : slot.request.admission.activeLanes = 1 := by
  rw [h.funded.admission]
  rfl

lemma work_ne_zero (h : slot.Sound) : slot.request.remainingServiceWork ≠ 0 := by
  have := h.funded.max_one_le h.active
  omega

end Slot.Sound

/-- The state that `try_admit_one` finds: no hold, and every bound request decodes. -/
structure Ready (s : State e) : Prop extends Inv s where
  ordered : Ordered s
  noHold : s.copyHold = none
  decodes : s.decodes = true

namespace Ready

variable {s : State e}

lemma viewSound (h : Ready s) : s.view.Sound where
  free := by
    intro lane hfree
    have hidle := h.free lane (by simpa [State.view] using hfree)
    exact ⟨hidle.notBusy, hidle.pages_eq_zero⟩
  bound := by
    intro lane hbound
    obtain ⟨slot, hslot⟩ := Option.isSome_iff_exists.mp hbound
    have hready : slot.request.stage.isDecodeReady = true := by
      have := h.decodes
      simp only [State.decodes, decide_eq_true_eq] at this
      exact this lane slot hslot
    apply (h.running lane slot hslot (by simp [h.noHold])).notRetained
    rw [Stage.of_isDecodeReady hready]
    rfl
  entitled := h.entitled

lemma waits {s' : State e} (h : Ready s) (hwaits : Waits s s')
    (hepoch : s'.nextProtectionEpoch ≠ 0) : Ready s' where
  toInv := h.toInv.waits hwaits hepoch
  ordered := h.ordered.waits hwaits
  noHold := hwaits.copyHold.trans h.noHold
  decodes := by
    unfold State.decodes
    rw [hwaits.slots]
    exact h.decodes

end Ready

/-- The resources of the bound requests. -/
def State.boundTotals (s : State e) : ResourceTotals :=
  ∑ lane, (s.slots lane).elim 0 fun slot => totals slot.request.admission

lemma sum_filterMap {α β M : Type*} [AddCommMonoid M] (xs : List α) (f : α → Option β)
    (g : β → M) :
    ((xs.filterMap f).map g).sum = (xs.map fun x => (f x).elim 0 g).sum := by
  induction xs with
  | nil => rfl
  | cons x xs ih =>
    cases hx : f x with
    | none => simp [hx, ih]
    | some y => simp [hx, ih]

/-- The active requests are in good standing, and their resources are those of the bound ones. -/
lemma Inv.activeAdmissionSet {s : State e} (h : Inv s) (hordered : Ordered s) :
    Succeeds s.activeAdmissionSet fun active =>
      activeTotals active = s.boundTotals ∧ active.length ≤ kMaximumConcurrency ∧
        ∀ request ∈ active, request.requestId ≠ 0 ∧ request.remainingWorkQuanta ≠ 0 := by
  have hbound : ∀ slot ∈ View.all.filterMap s.slots, ∃ lane, slot ∈ s.slots lane := by
    intro slot hslot
    obtain ⟨lane, -, hlane⟩ := List.mem_filterMap.mp hslot
    exact ⟨lane, hlane⟩
  have haccounted : ¬∃ slot ∈ View.all.filterMap s.slots,
      slot.request.admission.activeLanes = 0 ∨ slot.request.remainingServiceWork = 0 := by
    rintro ⟨slot, hmem, hzero⟩
    obtain ⟨lane, hlane⟩ := hbound slot hmem
    have hsound := h.sound lane slot hlane
    rw [hsound.activeLanes_eq] at hzero
    exact hzero.elim (by omega) hsound.work_ne_zero
  refine (Succeeds.refuse haccounted).bind fun _ _ => .pure ⟨?_, ?_, ?_⟩
  · rw [activeTotals, List.map_map, State.boundTotals, Fin.sum_univ_def]
    exact sum_filterMap ..
  · rw [List.length_map]
    refine (List.length_filterMap_le _ _).trans ?_
    rw [View.all, List.length_finRange]
    exact e.program.accepted.concurrency_le
  · intro request hrequest
    obtain ⟨slot, hslot, rfl⟩ := List.mem_map.mp hrequest
    obtain ⟨lane, hlane⟩ := hbound slot hslot
    have hid : slot.queued.id ∈ s.bound (·.id) lane := Option.mem_map_of_mem _ hlane
    exact ⟨Nat.pos_iff_ne_zero.mp (hordered.ids.ticketed.bound lane _ hid).1.1,
      (h.sound lane slot hlane).work_ne_zero⟩

/-- Bound lanes hold no more than the resources of their requests. -/
lemma Ready.activePages_le {s : State e} (h : Ready s) : s.view.activePages ≤ s.boundTotals.2 := by
  rw [State.boundTotals, Prod.snd_sum]
  refine Finset.sum_le_sum fun lane _ => ?_
  cases hslot : s.slots lane with
  | none => simp [State.view, hslot]
  | some slot =>
    have hpages := (h.running lane slot hslot (by simp [h.noHold])).pages_le
    simp only [State.view, hslot, Option.isSome_some, if_true, Option.elim_some]
    exact hpages

lemma Inv.boundTotals_lanes {s : State e} (h : Inv s) (hall : ∀ lane, s.view.occupied lane = true) :
    s.boundTotals.1 = e.program.options.maxConcurrency := by
  have hone : ∀ lane, ((s.slots lane).elim 0 fun slot => totals slot.request.admission).1 = 1 := by
    intro lane
    obtain ⟨slot, hslot⟩ := Option.isSome_iff_exists.mp (hall lane)
    rw [hslot]
    exact (h.sound lane slot hslot).activeLanes_eq
  rw [State.boundTotals, Prod.fst_sum, Finset.sum_congr rfl fun lane _ => hone lane]
  simp

lemma Queued.plannable (q : Queued e) : e.Plannable q.pages :=
  plannable_of_made (planRequestBase_spec q.planned)

lemma Queued.activeLanes_eq (q : Queued e) : q.base.admission.activeLanes = 1 := by
  rw [(planRequestBase_spec q.planned).admission]
  rfl

/-- A request in the queue that leaves cached prefixes alone has a way in. -/
def State.Servable (s : State e) (env : Env e) (q : Queued e) : Prop :=
  q.options.cacheWrite = false →
    ForkServable s.view q.pages (env.lookup q) (s.unavailable env q)

/-- A request that finds no lane does not fit next to the bound ones. -/
lemma Ready.blocked {s : State e} (h : Ready s) {env : Env e} {q : Queued e}
    (hservable : s.Servable env q) (hnone : s.findLane env q = .ok none) :
    ¬s.boundTotals + totals q.base.admission ≤ totals e.admissionCapacity := by
  rintro ⟨hlanes, hpages⟩
  rcases findAdmissionLane_blocked h.viewSound q.plannable hservable hnone with hall | hfull
  · have hlanes : s.boundTotals.1 + q.base.admission.activeLanes ≤
        e.program.options.maxConcurrency := hlanes
    rw [h.boundTotals_lanes hall, q.activeLanes_eq] at hlanes
    omega
  · apply hfull
    have hactive := h.activePages_le
    refine le_trans ?_ hpages
    rw [add_comm]
    exact add_le_add_left hactive _

/-- Somebody is active if a request that fits alone is blocked. -/
lemma active_ne_nil {active : List ActiveAdmissionSnapshot}
    {resources : AdmissionResources} (hfit : totals resources ≤ totals e.admissionCapacity)
    (hblocked : ¬activeTotals active + totals resources ≤ totals e.admissionCapacity) :
    active ≠ [] := by
  rintro rfl
  apply hblocked
  simpa [activeTotals] using hfit

end NInfer.Admission
