import NInfer.Admission.Admitting

/-!
# Admission does not take the engine down

The rest of the events (the end of a hold, the progress of bound requests, retries) and the runs
made of them.

Two conditions carry the result.  A request that may be retried has to be covered
(`RetriesCovered`): otherwise it can be active without any work left.  And a request without
`cache_write` whose prefix sits in a free lane needs a way in that keeps the prefix
(`ForkServable`): otherwise it finds no lane although nothing blocks it, and
`make_admission_protection` throws.
-/

namespace NInfer.Admission

open NInfer.Prefill

variable {e : Engine}

/-! ## The copy hold -/

section CopyHold

variable {s : State e} {hold : Hold e}

lemma pages_evictVictims_le (victimLanes : List e.Lane) (lane : e.Lane) :
    ((s.evictVictims victimLanes).lanes lane).pages ≤ (s.lanes lane).pages := by
  simp only [State.evictVictims]
  split
  · exact ⟨Nat.zero_le _, Nat.zero_le _⟩
  · exact le_rfl

lemma idle_evictVictims {lane : e.Lane} (h : (s.lanes lane).Idle) (victimLanes : List e.Lane) :
    ((s.evictVictims victimLanes).lanes lane).Idle := by
  simp only [State.evictVictims]
  split
  · exact LaneState.idle_empty
  · exact h

/-- Eviction leaves the lanes of the other bound requests alone. -/
lemma Hold.Sound.evictVictims_eq (h : hold.Sound s) {lane : e.Lane} {slot : Slot e}
    (hslot : s.slots lane = some slot) (hne : lane ≠ hold.lane) :
    (s.evictVictims hold.victimLanes).lanes lane = s.lanes lane := by
  have hvictim : lane ∉ hold.victimLanes := by
    intro hmem
    rcases h.victims lane hmem with heq | hfree
    · exact hne heq
    · rw [hslot] at hfree
      cases hfree
  simp [State.evictVictims, hvictim]

/-- Once the victims are gone, the lane has room for the plan. -/
lemma Hold.Sound.room_evicted (h : hold.Sound s) :
    hold.pages + (s.evictVictims hold.victimLanes).view.keptPages hold.lane (fun _ => false) ≤
      e.kvCapacity := by
  refine le_trans (add_le_add_right ?_ _) h.room
  apply View.keptPages_mono
  intro other _ _
  refine ⟨pages_evictVictims_le .., ?_⟩
  by_cases hevicted : other ∈ hold.victimLanes ∧ (s.lanes other).retained = true
  · simp [State.view, State.evictVictims, hevicted, LaneState.pages]
  · right
    simpa [State.view] using hevicted

/-- A lane that is copied into is empty by then. -/
lemma Hold.Sound.empty_evicted (h : hold.Sound s)
    (hcopied : hold.forkSource.isSome ∨ hold.host.isSome) :
    ((s.evictVictims hold.victimLanes).lanes hold.lane).kv = none ∧
      ((s.evictVictims hold.victimLanes).lanes hold.lane).lifecycle = .empty ∧
      ((s.evictVictims hold.victimLanes).lanes hold.lane).retained = false := by
  cases hretained : (s.lanes hold.lane).retained with
  | true => simp [State.evictVictims, h.captured hcopied hretained, hretained]
  | false =>
    obtain ⟨hkv, hlifecycle⟩ := h.idle.empty hretained
    simp [State.evictVictims, hretained, hkv, hlifecycle]

lemma Hold.Sound.checkFork_succeeds (h : hold.Sound s) {source : e.Lane}
    (hsource : hold.forkSource = some source) :
    Succeeds ((s.evictVictims hold.victimLanes).checkFork hold source) fun _ => True := by
  obtain ⟨hne, -, hretained, hkept, hversion⟩ := h.fork source hsource
  obtain ⟨hkv, hlifecycle, -⟩ := h.empty_evicted (.inl (by simp [hsource]))
  have hsourceRetained : ((s.evictVictims hold.victimLanes).lanes source).retained = true := by
    simpa [State.evictVictims, hkept] using hretained
  refine (Succeeds.refuse ?_).bind fun _ _ => .refuse ?_
  · simpa [State.evictVictims, hkept] using hversion
  · simp [hne.symm, hsourceRetained, hkv, hlifecycle]

lemma Hold.Sound.checkRestore_succeeds (h : hold.Sound s) {tier : HostTier}
    (htier : hold.host = some tier) :
    Succeeds ((s.evictVictims hold.victimLanes).checkRestore hold tier) fun _ => True := by
  obtain ⟨-, hlifecycle, hretained⟩ := h.empty_evicted (.inr (by simp [htier]))
  refine (Succeeds.refuse ?_).bind fun _ _ => .refuse ?_
  · simp [LaneState.busy, hlifecycle]
  · simp [hretained]

/-- Prefill starts in a lane that no request runs in, if the pages of its plan fit. -/
lemma startPrefillLane_iff {lane : e.Lane} {pages : KvPages} {cacheWrite : Bool} {s' : State e}
    (hentitled : s.view.entitledPages ≤ e.kvCapacity) (hpages : e.Plannable pages)
    (hidle : (s.lanes lane).busy = false) :
    s.startPrefillLane lane pages cacheWrite = .ok s' ↔
      pages + s.view.keptPages lane (fun _ => false) ≤ e.kvCapacity ∧
        s' = { s with
          lanes := Function.update s.lanes lane
            { lifecycle := .prefilling, kv := some pages, disposable := !cacheWrite
              useTick := s.nextUseTick }
          nextUseTick := s.nextUseTick + 1 } := by
  rw [State.startPrefillLane, refuseIf_bind_iff, refuseIf_bind_iff, ok_pure_iff, Bool.not_eq_false,
    View.canAdmitLane_iff hentitled hpages hidle]
  simp [hidle, eq_comm]

/-- The end of a hold evicts its victims; its lane is then given back, or goes on. -/
lemma Inv.endHold (h : Inv s) (hhold : s.copyHold = some hold) {s' : State e} {l : LaneState}
    {slot' : Option (Slot e)}
    (hlanes : s'.lanes = Function.update (s.evictVictims hold.victimLanes).lanes hold.lane l)
    (hslots : s'.slots = Function.update s.slots hold.lane slot')
    (hcontinues : slot'.elim l.Idle fun slot => slot.Sound ∧ slot.Running l)
    (hentitled : s'.view.entitledPages ≤ e.kvCapacity) (hpending : ∀ q ∈ s'.pending, q.Covered)
    (hended : s'.copyHold = none) (hepoch : s'.nextProtectionEpoch = s.nextProtectionEpoch) :
    Inv s' := by
  have hlane : s'.lanes hold.lane = l := by rw [hlanes, Function.update_self]
  have hother : ∀ lane, lane ≠ hold.lane →
      s'.lanes lane = (s.evictVictims hold.victimLanes).lanes lane := by
    intro lane hne
    rw [hlanes, Function.update_of_ne hne]
  constructor
  case free =>
    intro lane hfree
    rw [hslots] at hfree
    obtain ⟨rfl, rfl⟩ | ⟨hne, hfree⟩ := update_cases hfree
    · rw [hlane]
      exact hcontinues
    · rw [hother lane hne]
      exact idle_evictVictims (h.free lane hfree) _
  case sound =>
    intro lane slot hslot
    rw [hslots] at hslot
    obtain ⟨rfl, rfl⟩ | ⟨-, hslot⟩ := update_cases hslot
    · exact hcontinues.1
    · exact h.sound lane slot hslot
  case running =>
    intro lane slot hslot _
    rw [hslots] at hslot
    obtain ⟨rfl, rfl⟩ | ⟨hne, hslot⟩ := update_cases hslot
    · rw [hlane]
      exact hcontinues.2
    · rw [hother lane hne, (h.hold hold hhold).evictVictims_eq hslot hne]
      refine h.running lane slot hslot fun hold' hhold' heq => ?_
      cases hhold.symm.trans hhold'
      exact hne heq.symm
  case entitled => exact hentitled
  case pending => exact hpending
  case hold => simp [hended]
  case nextEpoch => exact hepoch ▸ h.nextEpoch

/-- A hold whose copies landed starts prefill. -/
lemma Inv.admitComplete (h : Inv s) (hhold : s.copyHold = some hold) {slot : Slot e}
    (hslot : s.slots hold.lane = some slot) :
    Succeeds (s.admitComplete hold slot) Inv := by
  have hsound := h.hold hold hhold
  have hidle := idle_evictVictims hsound.idle hold.victimLanes
  have hentitled : (s.evictVictims hold.victimLanes).view.entitledPages ≤ e.kvCapacity :=
    (View.entitledPages_mono (pages_evictVictims_le hold.victimLanes)).trans h.entitled
  unfold State.admitComplete
  refine Succeeds.bind (P := fun _ => True) ?_ fun _ _ => ?_
  · cases hsource : hold.forkSource with
    | none => exact .pure trivial
    | some source => exact hsound.checkFork_succeeds hsource
  refine Succeeds.bind (P := fun _ => True) ?_ fun _ _ => ?_
  · cases htier : hold.host with
    | none => exact .pure trivial
    | some tier => exact hsound.checkRestore_succeeds htier
  refine Succeeds.bind ⟨_, (startPrefillLane_iff hentitled hsound.plannable hidle.notBusy).mpr
    ⟨hsound.room_evicted, rfl⟩, rfl⟩ ?_
  rintro _ rfl
  have hslots : s.slots = Function.update s.slots hold.lane (some slot) := by
    rw [← hslot, Function.update_eq_self]
  have hcontinues := hsound.admitted slot hslot
  refine .pure (h.endHold hhold rfl hslots ⟨h.sound _ slot hslot, hcontinues, fun _ => rfl⟩ ?_
    h.pending rfl rfl)
  refine le_trans (le_of_eq ?_) hsound.room_evicted
  exact View.entitledPages_update (v := (s.evictVictims hold.victimLanes).view) hold.lane _

/-- A hold that ends without prefill gives its lane back. -/
lemma Inv.drainCopyHold (h : Inv s) (hhold : s.copyHold = some hold) {pending : List (Queued e)}
    (hcovered : ∀ q ∈ pending, q.Covered) :
    Inv { s.drainCopyHold hold with pending } := by
  refine h.endHold hhold rfl rfl LaneState.idle_empty ?_ hcovered rfl rfl
  refine le_trans (View.entitledPages_mono fun lane => ?_) h.entitled
  simp only [State.view, State.drainCopyHold, State.releaseLane, State.invalidateLanePlans]
  by_cases hne : lane = hold.lane
  · subst hne
    rw [Function.update_self]
    exact ⟨Nat.zero_le _, Nat.zero_le _⟩
  · rw [Function.update_of_ne hne]
    exact pages_evictVictims_le ..

lemma Inv.aborts (h : Inv s) (hhold : s.copyHold = some hold) : Inv (s.drainCopyHold hold) :=
  h.drainCopyHold hhold h.pending

lemma Inv.restoreFails (h : Inv s) (hhold : s.copyHold = some hold) {slot : Slot e}
    (hslot : s.slots hold.lane = some slot) (replan : Bool) :
    Inv (s.finishFailedRestore hold slot replan) := by
  refine h.drainCopyHold hhold fun q hq => ?_
  have hperm := requeued_perm s.pending
    { slot.queued with cacheFallback := slot.queued.cacheFallback || !replan }
  rcases List.mem_cons.mp (hperm.subset hq) with rfl | hq
  · exact (h.sound _ slot hslot).covered
  · exact h.pending q hq

end CopyHold

/-! ## Bound requests -/

section Bound

variable {s s' : State e} {lane : e.Lane} {slot : Slot e}

/-- The lane of a bound request that is not held changes, and nothing else does. -/
structure LaneStep (s s' : State e) (lane : e.Lane) (l : LaneState) (slot' : Option (Slot e)) :
    Prop where
  lanes : s'.lanes = Function.update s.lanes lane l
  slots : s'.slots = Function.update s.slots lane slot'
  versions : ∀ other, other ≠ lane → s'.lanePlanVersions other = s.lanePlanVersions other
  pending : s'.pending = s.pending
  copyHold : s'.copyHold = s.copyHold
  nextEpoch : s'.nextProtectionEpoch = s.nextProtectionEpoch

/-- A bound request may leave its lane idle, or go on in it. -/
def Continues (slot : Slot e) (l : LaneState) : Option (Slot e) → Prop
  | none => l.Idle
  | some slot' => slot'.Sound ∧ slot'.Running l ∧ slot'.queued = slot.queued

variable {slot' : Option (Slot e)} {l : LaneState}

/-- A hold does not notice what happens in the lanes of other bound requests, as long as they take
no more pages. -/
lemma LaneStep.holdSound (h : LaneStep s s' lane l slot') (hslot : s.slots lane = some slot)
    {hold : Hold e} (hsound : hold.Sound s) (hne : hold.lane ≠ lane)
    (hpages : l.pages ≤ (s.lanes lane).pages) : hold.Sound s' := by
  have hslots : ∀ other, other ≠ lane → s'.slots other = s.slots other := by
    intro other hother
    rw [h.slots, Function.update_of_ne hother]
  have hlanes : ∀ other, other ≠ lane → s'.lanes other = s.lanes other := by
    intro other hother
    rw [h.lanes, Function.update_of_ne hother]
  have hfree : ∀ other, s.slots other = none → other ≠ lane := by
    rintro other hother rfl
    rw [hslot] at hother
    cases hother
  constructor
  case bound =>
    rw [hslots _ hne]
    exact hsound.bound
  case idle =>
    rw [hlanes _ hne]
    exact hsound.idle
  case plannable => exact hsound.plannable
  case admitted =>
    rw [hslots _ hne]
    exact hsound.admitted
  case victims =>
    intro victim hvictim
    rcases hsound.victims victim hvictim with heq | hnone
    · exact .inl heq
    · exact .inr ((hslots _ (hfree victim hnone)).trans hnone)
  case fork =>
    intro source hsource
    obtain ⟨hdistinct, hnone, hretained, hkept, hversion⟩ := hsound.fork source hsource
    have hother := hfree source hnone
    refine ⟨hdistinct, (hslots _ hother).trans hnone, ?_, hkept,
      (h.versions _ hother).trans hversion⟩
    rw [hlanes _ hother]
    exact hretained
  case captured =>
    rw [hlanes _ hne]
    exact hsound.captured
  case room =>
    have hkept : lane ∉ hold.victimLanes := by
      intro hvictim
      rcases hsound.victims lane hvictim with heq | hnone
      · exact hne heq.symm
      · exact hfree lane hnone rfl
    refine le_trans (add_le_add_right (View.keptPages_mono fun other _ hreleased => ?_) _)
      hsound.room
    by_cases hother : other = lane
    · subst hother
      simp only [State.view, h.lanes, Function.update_self]
      exact ⟨hpages, .inr (by simp [hkept])⟩
    · simp only [State.view, hlanes other hother] at hreleased ⊢
      exact ⟨le_rfl, .inr hreleased⟩

lemma Inv.laneStep (h : Inv s) (hslot : s.slots lane = some slot)
    (hheld : ∀ hold ∈ s.copyHold, hold.lane ≠ lane) (hstep : LaneStep s s' lane l slot')
    (hcontinues : Continues slot l slot') (hentitled : s'.view.entitledPages ≤ e.kvCapacity)
    (hpages : s.copyHold = none ∨ l.pages ≤ (s.lanes lane).pages) : Inv s' := by
  have hlane : s'.lanes lane = l := by rw [hstep.lanes, Function.update_self]
  have hlanes : ∀ other, other ≠ lane → s'.lanes other = s.lanes other := by
    intro other hother
    rw [hstep.lanes, Function.update_of_ne hother]
  constructor
  case free =>
    intro other hfree
    rw [hstep.slots] at hfree
    obtain ⟨rfl, hnone⟩ | ⟨hother, hnone⟩ := update_cases hfree
    · rw [hnone] at hcontinues
      rw [hlane]
      exact hcontinues
    · rw [hlanes other hother]
      exact h.free other hnone
  case sound =>
    intro other slot'' hslot''
    rw [hstep.slots] at hslot''
    obtain ⟨rfl, hsome⟩ | ⟨-, hsome⟩ := update_cases hslot''
    · rw [hsome] at hcontinues
      exact hcontinues.1
    · exact h.sound other slot'' hsome
  case running =>
    intro other slot'' hslot'' hfree
    rw [hstep.slots] at hslot''
    rw [hstep.copyHold] at hfree
    obtain ⟨rfl, hsome⟩ | ⟨hother, hsome⟩ := update_cases hslot''
    · rw [hsome] at hcontinues
      rw [hlane]
      exact hcontinues.2.1
    · rw [hlanes other hother]
      exact h.running other slot'' hsome hfree
  case entitled => exact hentitled
  case pending =>
    rw [hstep.pending]
    exact h.pending
  case hold =>
    intro hold hhold
    rw [hstep.copyHold] at hhold
    rcases hpages with hnone | hpages
    · rw [hnone] at hhold
      cases hhold
    · exact hstep.holdSound hslot (h.hold hold hhold) (hheld hold hhold) hpages
  case nextEpoch =>
    rw [hstep.nextEpoch]
    exact h.nextEpoch

lemma pages_elim_retain_le (l : LaneState) {l' : LaneState} (hle : l'.pages ≤ l.pages)
    (kept : Option KvPages) : (kept.elim l' l.retain).pages ≤ l.pages := by
  cases kept with
  | none => exact hle
  | some mapped => exact l.pages_retain_le mapped

lemma entitledPages_laneStep (h : LaneStep s s' lane l slot')
    (hpages : l.pages ≤ (s.lanes lane).pages) :
    s'.view.entitledPages ≤ s.view.entitledPages := by
  apply View.entitledPages_mono
  intro other
  by_cases hother : other = lane
  · subst hother
    simpa [State.view, h.lanes] using hpages
  · simp [State.view, h.lanes, hother]

/-- An event of a bound request keeps the invariant. -/
lemma Inv.settle (h : Inv s) (hslot : s.slots lane = some slot)
    (hheld : ∀ hold ∈ s.copyHold, hold.lane ≠ lane) {event : Prefill.Event}
    (hevent : event.isRetry = false) (henabled : Prefill.Enabled slot.request event)
    {request : Prefill.Request} (hstep : Prefill.step e.program slot.request event = .ok request)
    (kept : Option KvPages) : Inv (NInfer.Admission.settle s lane slot request kept) := by
  have hsound := h.sound lane slot hslot
  have hrunning := h.running lane slot hslot hheld
  have hserved : Served slot.admission request := .step event hsound.served henabled hstep
  -- The request keeps its resources, so its lane stays within them.
  have hgoes : request.stage ≠ .complete → ({ slot with request } : Slot e).Sound ∧
      kvPages request.admission = kvPages slot.request.admission := by
    intro hactive
    have hsound' : ({ slot with request } : Slot e).Sound := ⟨hsound.covered, hserved, hactive⟩
    refine ⟨hsound', ?_⟩
    rw [hsound.admission_eq]
    exact congrArg kvPages hsound'.admission_eq
  have hnotRetained : request.stage ≠ .complete → (s.lanes lane).retained = false := fun hactive =>
    hrunning.notRetained (not_recoveryPending_of_step hevent henabled hstep hactive)
  have hfinish : ∀ (l : LaneState) (slot' : Option (Slot e)) (s' : State e),
      LaneStep s s' lane l slot' → Continues slot l slot' → l.pages ≤ (s.lanes lane).pages →
        Inv s' := fun l slot' s' hlane hcontinues hpages =>
    h.laneStep hslot hheld hlane hcontinues
      ((entitledPages_laneStep hlane hpages).trans h.entitled) (.inr hpages)
  unfold NInfer.Admission.settle
  cases hstage : request.stage with
  | complete =>
    apply hfinish (kept.elim {} (s.lanes lane).retain) none
    · exact ⟨rfl, rfl, fun other hother => Function.update_of_ne hother .., rfl, rfl, rfl⟩
    · cases kept with
      | none => exact LaneState.idle_empty
      | some mapped => exact LaneState.idle_retain ..
    · exact pages_elim_retain_le _ ⟨Nat.zero_le _, Nat.zero_le _⟩ kept
  | recoveryPending =>
    obtain ⟨hsound', hadmission⟩ := hgoes (by rw [hstage]; exact Stage.noConfusion)
    have hpages := pages_elim_retain_le (s.lanes lane) le_rfl kept
    apply hfinish (kept.elim (s.lanes lane) (s.lanes lane).retain) (some { slot with request })
    · exact ⟨rfl, rfl, fun _ _ => rfl, rfl, rfl, rfl⟩
    · refine ⟨hsound', ⟨?_, fun hnot => ?_⟩, rfl⟩
      · rw [hadmission]
        exact hpages.trans hrunning.pages_le
      · simp [hstage, Stage.isRecoveryPending] at hnot
    · exact hpages
  | decodeReady =>
    have hactive : request.stage ≠ .complete := by rw [hstage]; exact Stage.noConfusion
    obtain ⟨hsound', hadmission⟩ := hgoes hactive
    apply hfinish { s.lanes lane with lifecycle := .active } (some { slot with request })
    · exact ⟨rfl, rfl, fun _ _ => rfl, rfl, rfl, rfl⟩
    · refine ⟨hsound', ⟨?_, fun _ => hnotRetained hactive⟩, rfl⟩
      rw [hadmission]
      exact hrunning.pages_le
    · exact le_rfl
  | prefilling staged =>
    have hactive : request.stage ≠ .complete := by rw [hstage]; exact Stage.noConfusion
    obtain ⟨hsound', hadmission⟩ := hgoes hactive
    apply hfinish (s.lanes lane) (some { slot with request })
    · refine ⟨(Function.update_eq_self ..).symm, rfl, fun _ _ => rfl, rfl, rfl, rfl⟩
    · refine ⟨hsound', ⟨?_, fun _ => hnotRetained hactive⟩, rfl⟩
      rw [hadmission]
      exact hrunning.pages_le
    · exact le_rfl

/-- The lane of a request that leaves. -/
lemma Inv.releaseLane (h : Inv s) (hslot : s.slots lane = some slot)
    (hheld : ∀ hold ∈ s.copyHold, hold.lane ≠ lane) : Inv (s.releaseLane lane) := by
  have hlane : LaneStep s (s.releaseLane lane) lane {} none :=
    ⟨rfl, rfl, fun other hother => Function.update_of_ne hother .., rfl, rfl, rfl⟩
  have hpages : ({} : LaneState).pages ≤ (s.lanes lane).pages := ⟨Nat.zero_le _, Nat.zero_le _⟩
  exact h.laneStep hslot hheld hlane LaneState.idle_empty
    ((entitledPages_laneStep hlane hpages).trans h.entitled) (.inr hpages)

/-- A retry takes pages within the resources of its request. -/
lemma Inv.startRecovery (h : Inv s) (hhold : s.copyHold = none) (hslot : s.slots lane = some slot)
    {spliced : Option ℕ} {route : Option ReuseDecision}
    (henabled : Prefill.Enabled slot.request (.startRecovery spliced route)) {resident : Bool}
    (hok : NInfer.Admission.startRecovery s lane slot spliced route resident = .ok s') :
    Inv s' := by
  have hheld : ∀ hold ∈ s.copyHold, hold.lane ≠ lane := by simp [hhold]
  have hreleased := h.releaseLane hslot hheld
  have hsound := h.sound lane slot hslot
  have hserved :
      Served slot.admission (startRecoveryAttempt e.program slot.request spliced route) :=
    .step (.startRecovery spliced route) hsound.served henabled rfl
  unfold NInfer.Admission.startRecovery at hok
  simp only at hok
  split at hok
  swap
  · rw [ok_pure_iff] at hok
    exact hok ▸ hreleased
  rename_i staged hstage
  obtain ⟨hfit, prompt, options, hbase⟩ := startRecoveryAttempt_prefilling hstage
  have hplannable := plannable_of_made (planRequestBase_spec hbase)
  have hsound' : ({ slot with
      request := startRecoveryAttempt e.program slot.request spliced route } : Slot e).Sound :=
    ⟨hsound.covered, hserved, by simp [hstage]⟩
  split at hok
  · rw [ok_pure_iff] at hok
    exact hok ▸ hreleased
  rw [ok_bind_iff] at hok
  obtain ⟨started, hstarted, hok⟩ := hok
  have hidle : ((s.releaseLane lane).lanes lane).busy = false := by
    simp [State.releaseLane, State.invalidateLanePlans, LaneState.busy]
  rw [startPrefillLane_iff hreleased.entitled hplannable hidle] at hstarted
  obtain ⟨hroom, rfl⟩ := hstarted
  rw [ok_pure_iff] at hok
  subst hok
  have hcontinues : Continues slot
      { lifecycle := .prefilling, kv := some (kvPages staged.plan.base.admission)
        disposable := !slot.queued.options.cacheWrite, useTick := s.nextUseTick }
      (some { slot with
        request := startRecoveryAttempt e.program slot.request spliced route }) := by
    refine ⟨hsound', ⟨?_, fun _ => rfl⟩, rfl⟩
    have hpages : kvPages staged.plan.base.admission ≤ kvPages slot.request.admission :=
      (admissionResourcesFit_iff.mp hfit).2
    refine hpages.trans (le_of_eq ?_)
    rw [hsound.admission_eq]
    exact (congrArg kvPages hsound'.admission_eq).symm
  refine h.laneStep hslot hheld
    ⟨?_, ?_, fun other hother => Function.update_of_ne hother .., rfl, rfl, rfl⟩ hcontinues ?_
    (.inl hhold)
  · simp [State.releaseLane, State.invalidateLanePlans]
  · simp only [State.releaseLane, State.invalidateLanePlans, Function.update_idem]
  · refine le_trans (le_of_eq ?_) hroom
    exact View.entitledPages_update (v := (s.releaseLane lane).view) lane _

end Bound

/-! ## Runs -/

/-- The condition on an event: retries are covered, and requests that leave cached prefixes alone
have a way in. -/
def State.Meets (s : State e) : Event e → Prop
  | .submit submission => submission.Covered
  | .tryAdmit env => ∀ q ∈ s.pending, s.Servable env q
  | _ => True

/-- The states reached by events that meet the condition. -/
inductive Admissible : State e → Prop
  | init : Admissible {}
  | step {s s' : State e} (event : Event e) : Admissible s → s.Enabled event → s.Meets event →
      s.step event = .ok s' → Admissible s'

/-- The events that admit a request, or complete its admission. -/
def Event.admits : Event e → Bool
  | .tryAdmit _ => true
  | .tryInterrupt _ => true
  | .endHold _ => true
  | _ => false

section Runs

variable {s s' : State e}

lemma Inv.ready (h : Inv s) (hordered : Ordered s) {env : Env e}
    (henabled : s.Enabled (.tryAdmit env)) : Ready s :=
  { toInv := h, ordered := hordered
    noHold := Option.isNone_iff_eq_none.mp henabled.1, decodes := henabled.2 }

/-- An admission neither fails nor breaks the invariant. -/
lemma Inv.step_admits (h : Inv s) (hordered : Ordered s) {event : Event e}
    (hadmits : event.admits = true) (henabled : s.Enabled event) (hmeets : s.Meets event) :
    Succeeds (s.step event) Inv := by
  cases event with
  | submit | leave | advance | startRecovery => cases hadmits
  | tryAdmit env =>
    obtain ⟨result, hresult, hinv⟩ := tryAdmitOne_succeeds (h.ready hordered henabled) hmeets
    refine ⟨result.1, ?_, hinv⟩
    simp only [State.step, hresult]
    rfl
  | tryInterrupt env =>
    obtain ⟨result, hresult, hinv⟩ :=
      tryInterruptPrefill_succeeds h (Option.isNone_iff_eq_none.mp henabled.1) env
    refine ⟨result.1, ?_, hinv⟩
    simp only [State.step, hresult]
    rfl
  | endHold outcome =>
    obtain ⟨hold, hhold, slot, hslot, -⟩ := henabled
    have hhold : s.copyHold = some hold := hhold
    have hslot : s.slots hold.lane = some slot := hslot
    simp only [State.step, hhold, hslot]
    cases outcome with
    | starts => exact h.admitComplete hhold hslot
    | restoreFails replan => exact .pure (h.restoreFails hhold hslot replan)
    | aborts => exact .pure (h.aborts hhold)

lemma Inv.step (h : Inv s) (hordered : Ordered s) {event : Event e} (henabled : s.Enabled event)
    (hmeets : s.Meets event) (hok : s.step event = .ok s') : Inv s' := by
  by_cases hadmits : event.admits = true
  · obtain ⟨s'', hs'', hinv⟩ := h.step_admits hordered hadmits henabled hmeets
    rw [hok] at hs''
    cases hs''
    exact hinv
  cases event with
  | tryAdmit | tryInterrupt | endHold => exact absurd rfl hadmits
  | submit submission =>
    cases hok
    exact h.submit hmeets
  | leave id =>
    cases hok
    exact h.leave id
  | advance lane event kept =>
    obtain ⟨hheld, hevent, slot, hslot, henabled⟩ := henabled
    have hslot : s.slots lane = some slot := hslot
    simp only [State.step, hslot, ok_bind_iff, ok_pure_iff] at hok
    obtain ⟨request, hrequest, rfl⟩ := hok
    exact h.settle hslot hheld hevent henabled hrequest kept
  | startRecovery lane spliced route resident =>
    obtain ⟨hnone, -, slot, hslot, henabled⟩ := henabled
    have hslot : s.slots lane = some slot := hslot
    simp only [State.step, hslot] at hok
    exact h.startRecovery (Option.isNone_iff_eq_none.mp hnone) hslot henabled hok

lemma Admissible.reachable (h : Admissible s) : Reachable s := by
  induction h with
  | init => exact .init
  | step event _ henabled _ hok ih => exact .step event ih henabled hok

lemma Admissible.inv (h : Admissible s) : Inv s := by
  induction h with
  | init => exact Inv.init
  | step event hbefore henabled hmeets hok ih =>
    exact ih.step hbefore.reachable.ordered henabled hmeets hok

end Runs

/-! ## Runs on given events -/

instance {v : View e} {pages : KvPages} {prompt : PreparedPrompt} {lookup : Lookup e prompt}
    {unavailable : e.Lane → Bool} : Decidable (ForkServable v pages lookup unavailable) :=
  inferInstanceAs (Decidable (_ ∨ _ ∨ _ ∨ (∃ _, _ ∧ _ ∧ _) ∨ (∃ _ _, _ ∧ _ ∧ _ ∧ _) ∨
    ∃ _, _ ∧ _ ∧ _))

instance (s : State e) : (event : Event e) → Decidable (s.Enabled event)
  | .submit _ => inferInstanceAs (Decidable True)
  | .leave _ => inferInstanceAs (Decidable True)
  | .tryAdmit _ => inferInstanceAs (Decidable (_ ∧ _))
  | .tryInterrupt _ => inferInstanceAs (Decidable (_ ∧ _))
  | .endHold .starts =>
    inferInstanceAs (Decidable (∃ hold ∈ s.copyHold, ∃ _ ∈ s.slots hold.lane, True))
  | .endHold (.restoreFails _) => inferInstanceAs (Decidable (∃ hold ∈ s.copyHold,
      ∃ slot ∈ s.slots hold.lane, hold.host.isSome ∧ slot.queued.cacheFallback = false))
  | .endHold .aborts =>
    inferInstanceAs (Decidable (∃ hold ∈ s.copyHold, ∃ _ ∈ s.slots hold.lane, True))
  | .advance lane event _ => inferInstanceAs (Decidable ((∀ hold ∈ s.copyHold, hold.lane ≠ lane) ∧
      event.isRetry = false ∧ ∃ slot ∈ s.slots lane, Prefill.Enabled slot.request event))
  | .startRecovery lane spliced route _ => inferInstanceAs (Decidable (_ ∧ _ ∧
      ∃ slot ∈ s.slots lane, Prefill.Enabled slot.request (.startRecovery spliced route)))

instance (r : Submission e) : Decidable r.Covered :=
  inferInstanceAs (Decidable (_ ∨ (_ ∧ _ ∨ _)))

instance (s : State e) : (event : Event e) → Decidable (s.Meets event)
  | .submit submission => inferInstanceAs (Decidable submission.Covered)
  | .tryAdmit _ => inferInstanceAs (Decidable (∀ q ∈ s.pending, (_ → _)))
  | .leave _ => inferInstanceAs (Decidable True)
  | .tryInterrupt _ => inferInstanceAs (Decidable True)
  | .endHold _ => inferInstanceAs (Decidable True)
  | .advance _ _ _ => inferInstanceAs (Decidable True)
  | .startRecovery _ _ _ _ => inferInstanceAs (Decidable True)

/-- Takes the events one after another, as long as they can happen and meet the condition. -/
def State.run (s : State e) : List (Event e) → Option (State e)
  | [] => some s
  | event :: events =>
    if s.Enabled event ∧ s.Meets event then
      match s.step event with
      | .ok s' => s'.run events
      | .error _ => none
    else none

lemma Admissible.run {s s' : State e} {events : List (Event e)} (h : Admissible s)
    (hrun : s.run events = some s') : Admissible s' := by
  induction events generalizing s with
  | nil =>
    cases hrun
    exact h
  | cons event events ih =>
    unfold State.run at hrun
    split at hrun
    swap
    · cases hrun
    rename_i hevent
    split at hrun
    · rename_i next hnext
      exact ih (.step event h hevent.1 hevent.2 hnext) hrun
    · cases hrun

/-! ## Every run -/

/-- In every run that meets the condition, a request that finds no lane is blocked by the active
requests and can be protected, and no admission takes the engine down. -/
theorem admissible_admits {s : State e} (h : Admissible s) {event : Event e}
    (hadmits : event.admits = true) (henabled : s.Enabled event) (hmeets : s.Meets event) :
    (∀ env, event = .tryAdmit env → ∀ head ∈ s.pending,
      admissionResourcesFit head.base.admission e.admissionCapacity = true →
      s.findLane env head = .ok none → ∃ active, s.activeAdmissionSet = .ok active ∧ active ≠ [] ∧
        fits (activeTotals active + totals head.base.admission) e.admissionCapacity = false ∧
        ∃ protection, makeAdmissionProtection s.nextProtectionEpoch head.id head.base.admission
          active e.admissionCapacity = .ok protection) ∧
      ∃ s', s.step event = .ok s' := by
  refine ⟨?_, ?_⟩
  · rintro env rfl head hhead hfit hnone
    have hready := h.inv.ready h.reachable.ordered henabled
    obtain ⟨active, hactive, htotals, hlength, hprogress⟩ :=
      hready.activeAdmissionSet hready.ordered
    have hfit := admissionResourcesFit_iff.mp hfit
    have hblocked := hready.blocked (hmeets head hhead) hnone
    rw [← htotals] at hblocked
    have hne : active ≠ [] := active_ne_nil hfit hblocked
    refine ⟨active, hactive, hne, by simpa [fits] using hblocked, ?_⟩
    have hid := Nat.pos_iff_ne_zero.mp (hready.ordered.ids.ticketed.fresh _
      (List.mem_map_of_mem hhead)).1
    have hlanes : head.base.admission.activeLanes ≠ 0 := by
      rw [head.activeLanes_eq]
      exact Nat.one_ne_zero
    exact Protectable.ok
      ⟨hready.nextEpoch, hid, hne, hlength, hlanes, hfit, hprogress, hblocked⟩
  · obtain ⟨s', hs', -⟩ := h.inv.step_admits h.reachable.ordered hadmits henabled hmeets
    exact ⟨s', hs'⟩

/-- Two lanes and ten pages. -/
def twoLanes : Engine where
  program :=
    { target := .qwen3627b, options := { maxContext := 1024, maxConcurrency := 2 }, valid := rfl }
  mainKvPages := 10
  backendKvPages := 0

def firstLane : twoLanes.Lane := ⟨0, by decide⟩

def secondLane : twoLanes.Lane := ⟨1, by decide⟩

/-- A text request for eight tokens. -/
def shortRequest (tokens pages : ℕ) (cacheWrite : Bool)
    (planned : planRequestBase twoLanes.program { shape := { tokens }, sorted := sorted_nil }
      { requestedOutputTokens := 8, cacheWrite } = .ok ⟨tokens, 8, ⟨1, pages, 0⟩, none, 8⟩) :
    Submission twoLanes where
  prompt := { shape := { tokens }, sorted := sorted_nil }
  options := { requestedOutputTokens := 8, cacheWrite }
  recovery := false
  base := ⟨tokens, 8, ⟨1, pages, 0⟩, none, 8⟩
  planned := planned
  output_pos := Nat.succ_pos _

/-- A worker that finds nothing to reuse. -/
def coldEnv : Env twoLanes where
  lookup := fun _ => {}

/-- A disposable turn that ran in the first lane and left five pages there, then a request that
decodes in the second lane with four. -/
def disposableThenActive : List (Event twoLanes) :=
  [.submit (shortRequest 300 5 false (by decide +kernel)), .tryAdmit coldEnv, .endHold .starts,
    .advance firstLane (.prefillStep .shared .continues) none,
    .advance firstLane (.decodeRow 7 .continues) (some (5, 0)),
    .submit (shortRequest 240 4 true (by decide +kernel)), .tryAdmit coldEnv, .endHold .starts,
    .advance secondLane (.prefillStep .shared .continues) none]

/-- A request for more pages than the active one leaves. -/
def longRequest : Submission twoLanes := shortRequest 500 8 true (by decide +kernel)

theorem admissible_admits_blocked :
    ∃ s : State twoLanes, Admissible s ∧ s.Enabled (.tryAdmit coldEnv) ∧
      (∃ head ∈ s.pending, ∃ active, s.findLane coldEnv head = .ok none ∧
        s.activeAdmissionSet = .ok active ∧
        fits (activeTotals active + totals head.base.admission) twoLanes.admissionCapacity =
          false) ∧
      ∃ s', s.step (.tryAdmit coldEnv) = .ok s' := by
  have hrun : ∃ s ∈ State.run {} (disposableThenActive ++ [.submit longRequest]),
      s.Enabled (.tryAdmit coldEnv) ∧ s.Meets (.tryAdmit coldEnv) ∧
        ∃ head ∈ s.pending, admissionResourcesFit head.base.admission twoLanes.admissionCapacity ∧
          (s.findLane coldEnv head).toOption.any (·.isNone) := by
    decide +kernel
  obtain ⟨s, hs, henabled, hmeets, head, hhead, hfit, hfound⟩ := hrun
  have hadmissible : Admissible s := Admissible.init.run hs
  have hnone := ok_none_of_any hfound
  obtain ⟨hblocked, hok⟩ := admissible_admits hadmissible rfl henabled hmeets
  obtain ⟨active, hactive, -, hfits, -⟩ := hblocked coldEnv rfl head hhead hfit hnone
  exact ⟨s, hadmissible, henabled, ⟨head, hhead, active, hnone, hactive, hfits⟩, hok⟩

/-- A worker that finds the start of every long prompt in the lanes. -/
def prefixEnv : Env twoLanes where
  lookup := fun q =>
    { lane := fun _ =>
        if h : 100 ≤ q.prompt.shape.tokens then
          { decision := { path := .appendAtFrontier, frontier := 100 }, le := h }
        else {} }

/-- The next disposable turn of the conversation that the first lane retains. -/
def nextTurn : Submission twoLanes := shortRequest 370 6 false (by decide +kernel)

/-- The only free lane holds the prefix of the head and may neither be evicted nor copied to the
host, so the head finds no lane.  Six pages and the four active ones fit all the same, so protection
refuses the head, and the engine goes down. -/
theorem nextTurn_unblocked :
    ∃ (s : State twoLanes) (head : Queued twoLanes) (active : List ActiveAdmissionSnapshot),
      Reachable s ∧ s.Enabled (.tryAdmit prefixEnv) ∧ s.protection = none ∧
      s.pending.head? = some head ∧ State.gone prefixEnv head = false ∧
      admissionResourcesFit head.base.admission twoLanes.admissionCapacity = true ∧
      s.findLane prefixEnv head = .ok none ∧ s.activeAdmissionSet = .ok active ∧ active ≠ [] ∧
      fits (activeTotals active + totals head.base.admission) twoLanes.admissionCapacity = true ∧
      s.step (.tryAdmit prefixEnv) =
        .error "protected head is not blocked by frozen incumbents" := by
  have hrun : ∃ s ∈ State.run {} (disposableThenActive ++ [.submit nextTurn]),
      s.Enabled (.tryAdmit prefixEnv) ∧ s.protection.isNone ∧
        (∃ head ∈ s.pending.head?, State.gone prefixEnv head = false ∧
          admissionResourcesFit head.base.admission twoLanes.admissionCapacity ∧
          (s.findLane prefixEnv head).toOption.any (·.isNone) ∧
          ∃ active ∈ s.activeAdmissionSet.toOption, active.isEmpty = false ∧
            fits (activeTotals active + totals head.base.admission) twoLanes.admissionCapacity) ∧
        (match s.step (.tryAdmit prefixEnv) with
          | .ok _ => false
          | .error message =>
            message = "protected head is not blocked by frozen incumbents" : Bool) := by
    decide +kernel
  obtain ⟨s, hs, henabled, hprotection, ⟨head, hhead, hlive, hfit, hfound, active, hactive, hne,
    hfits⟩, hfails⟩ := hrun
  refine ⟨s, head, active, (Admissible.init.run hs).reachable, henabled,
    Option.isNone_iff_eq_none.mp hprotection, hhead, hlive, hfit, ok_none_of_any hfound,
    ok_of_mem_toOption hactive, by simpa using hne, hfits, ?_⟩
  split at hfails
  · cases hfails
  · rename_i message hmessage
    rw [hmessage, of_decide_eq_true hfails]

end NInfer.Admission
