import NInfer.Admission.Invariant

/-!
# Admissions go through

An admission that found a lane finds its victims and binds the request; one that found none protects
the head and looks for a request that may overtake it.  Neither fails, and both keep the invariant.
-/

namespace NInfer.Admission

open NInfer.Prefill

variable {e : Engine}

/-! ## An admission goes through -/

lemma canAdmitLaneAfterReleasing_congr {v : View e} {lane : e.Lane} {pages : KvPages}
    {released released' : List e.Lane} (h : ∀ other, other ∈ released ↔ other ∈ released') :
    v.canAdmitLaneAfterReleasing lane pages released =
      v.canAdmitLaneAfterReleasing lane pages released' := by
  unfold View.canAdmitLaneAfterReleasing
  simp only [h]

lemma oldest_eq_none {v : View e} {lanes : List e.Lane} (h : oldest v lanes = none) :
    lanes = [] := by
  by_contra hne
  obtain ⟨lane, hlane⟩ := List.exists_mem_of_ne_nil lanes hne
  have hsome : (oldest v lanes).isSome := by
    refine (foldl_isSome_iff (Q := fun _ => True) ?_ lanes none).mpr
      (.inr ⟨lane, hlane, trivial⟩)
    intro best lane
    cases best with
    | none => simp
    | some other =>
      simp only [or_true, iff_true]
      split <;> rfl
  rw [h] at hsome
  cases hsome

/-- The loop over the victims ends with enough of them, or waits for a capture. -/
lemma reclaimVictims_succeeds {v : View e} {lane : e.Lane} {pages : KvPages}
    {deferred : e.Lane → Bool} {candidates : List e.Lane}
    (hfits : v.canAdmitLaneAfterReleasing lane pages candidates = true) {fuel : ℕ}
    {taken remaining : List e.Lane} (hperm : (taken ++ remaining).Perm candidates)
    (hfuel : remaining.length ≤ fuel) :
    Succeeds (reclaimVictims v lane pages deferred fuel taken remaining) fun result =>
      ∀ taken' ∈ result, taken' ⊆ candidates ∧
        v.canAdmitLaneAfterReleasing lane pages taken' = true := by
  have hall : remaining = [] → v.canAdmitLaneAfterReleasing lane pages taken = true := by
    rintro rfl
    rw [← hfits]
    apply canAdmitLaneAfterReleasing_congr
    intro other
    rw [← hperm.mem_iff, List.append_nil]
  have hsub : taken ⊆ candidates := fun other hother =>
    hperm.subset (List.mem_append_left _ hother)
  induction fuel generalizing taken remaining with
  | zero =>
    have htaken := hall (List.length_eq_zero_iff.mp (Nat.le_zero.mp hfuel))
    refine (Succeeds.refuse (by simp [htaken])).bind fun _ _ => .pure ?_
    rintro taken' ⟨⟩
    exact ⟨hsub, htaken⟩
  | succ fuel ih =>
    unfold reclaimVictims
    by_cases henough : v.canAdmitLaneAfterReleasing lane pages taken = true
    · rw [if_pos henough]
      refine .pure ?_
      rintro taken' ⟨⟩
      exact ⟨hsub, henough⟩
    rw [if_neg henough]
    cases hvictim : oldest v remaining with
    | none => exact absurd (hall (oldest_eq_none hvictim)) henough
    | some victim =>
      have hmem : victim ∈ remaining := mem_oldest victim hvictim
      have hnext : (taken ++ [victim] ++ remaining.erase victim).Perm candidates := by
        refine List.Perm.trans ?_ hperm
        rw [List.append_assoc]
        exact (List.perm_cons_erase hmem).symm.append_left taken
      simp only
      split
      · exact .pure (by simp)
      · apply ih hnext
        · rw [List.length_erase_of_mem hmem]
          omega
        · intro hnil
          rw [hnil, List.append_nil] at hnext
          rw [← hfits]
          exact canAdmitLaneAfterReleasing_congr fun other => hnext.mem_iff
        · exact fun other hother => hnext.subset (List.mem_append_left _ hother)

/-- What a choice has secured when the request takes its lane. -/
structure Secured (s : State e) (pages : KvPages) (choice : LaneChoice e)
    (victimLanes : List e.Lane) : Prop where
  free : s.slots choice.lane = none
  victims : ∀ victim ∈ victimLanes, s.slots victim = none
  fork : choice.preserveSource = false → ∀ source ∈ choice.forkSource, source ≠ choice.lane ∧
    s.slots source = none ∧ (s.lanes source).retained = true ∧ source ∉ victimLanes
  preserve : choice.preserveSource = true → choice.forkSource.isSome
  captured : choice.forkSource.isSome ∨ choice.host.isSome →
    (s.lanes choice.lane).retained = true → choice.lane ∈ victimLanes
  room : pages + s.view.keptPages choice.lane (· ∈ victimLanes) ≤ e.kvCapacity

section Bind

variable {s : State e} {q : Queued e} {c : Candidate e q.prompt} {backfillClass : BackfillClass}
  {backfillEpoch : ℕ}

/-- The credit of a temporal backfill is there. -/
def Credited (s : State e) (q : Queued e) (plan : Reuse q.prompt) (backfillClass : BackfillClass)
    (backfillEpoch : ℕ) : Prop :=
  backfillClass = .temporal → ∃ protection ∈ s.protection, protection.epochId = backfillEpoch ∧
    q.serviceWork plan ≤ protection.temporalCredit

lemma spendCredit_succeeds {plan : Reuse q.prompt}
    (hcredit : Credited s q plan backfillClass backfillEpoch) :
    Succeeds (spendCredit s.protection (q.serviceWork plan) backfillClass backfillEpoch)
      fun _ => True := by
  unfold spendCredit
  split
  · rename_i htemporal
    obtain ⟨protection, hprotection, hepoch, hwork⟩ := hcredit htemporal
    rw [Option.mem_def.mp hprotection]
    refine (Succeeds.refuse ?_).bind fun _ _ => .pure trivial
    rw [not_or, not_not]
    exact ⟨hepoch, by omega⟩
  · exact .pure trivial

lemma Inv.bindLane (h : Inv s) (hhold : s.copyHold = none) (hq : q ∈ s.pending)
    {victimLanes : List e.Lane} (hsecured : Secured s q.pages c.choice victimLanes)
    (hcredit : Credited s q c.plan backfillClass backfillEpoch) :
    Succeeds (bindLane s q c victimLanes backfillClass backfillEpoch) Inv := by
  refine (spendCredit_succeeds hcredit).bind fun protection _ => .pure ?_
  have hfilter : Shrinks s.pending (s.pending.filter (·.id ≠ q.id)) := shrinks_filter ..
  constructor
  case free =>
    intro lane hlane
    obtain ⟨-, hcontra⟩ | ⟨-, hfree⟩ := update_cases hlane
    · cases hcontra
    · exact h.free lane hfree
  case sound =>
    intro lane slot hslot
    obtain ⟨-, hnew⟩ | ⟨-, hold⟩ := update_cases hslot
    · obtain rfl := Option.some.inj hnew
      exact ⟨h.pending q hq, Served.admitted, Stage.noConfusion⟩
    · exact h.sound lane slot hold
  case running =>
    intro lane slot hslot hheld
    obtain ⟨rfl, -⟩ | ⟨-, hold⟩ := update_cases hslot
    · exact absurd rfl (hheld _ rfl)
    · exact h.running lane slot hold (by simp [hhold])
  case entitled => exact h.entitled
  case pending => exact hfilter.covered h.pending
  case hold =>
    rintro hold ⟨⟩
    constructor
    case bound => simp
    case idle => exact h.free _ hsecured.free
    case plannable => exact q.plannable
    case admitted =>
      intro slot hslot
      obtain ⟨-, hnew⟩ | ⟨hne, -⟩ := update_cases hslot
      · obtain rfl := Option.some.inj hnew
        exact le_rfl
      · exact absurd rfl hne
    case victims =>
      intro victim hvictim
      by_cases hne : victim = c.choice.lane
      · exact .inl hne
      · exact .inr ((Function.update_of_ne hne ..).trans (hsecured.victims victim hvictim))
    case fork =>
      intro source hsource
      cases hpreserve : c.choice.preserveSource with
      | true => simp [hpreserve] at hsource
      | false =>
        have hsource : c.choice.forkSource = some source := by simpa [hpreserve] using hsource
        obtain ⟨hne, hfree, hretained, hkept⟩ := hsecured.fork hpreserve source hsource
        refine ⟨hne, (Function.update_of_ne hne ..).trans hfree, hretained, hkept, ?_⟩
        simp [hsource]
    case captured =>
      intro hsome
      apply hsecured.captured
      cases hpreserve : c.choice.preserveSource with
      | true => exact .inl (hsecured.preserve hpreserve)
      | false => simpa [hpreserve] using hsome
    case room => exact hsecured.room
  case nextEpoch => exact h.nextEpoch

lemma takeVictims_succeeds {v : View e} {choice : LaneChoice e} {pages : KvPages}
    (hchosen : Chosen v pages choice) (deferred : e.Lane → Bool) :
    Succeeds (takeVictims v choice pages deferred) fun result =>
      ∀ taken ∈ result, taken ⊆ victims v choice ∧
        v.canAdmitLaneAfterReleasing choice.lane pages taken = true := by
  have hfits := hchosen.fits
  unfold takeVictims
  split
  · rename_i hevict
    rw [if_pos hevict] at hfits
    exact reclaimVictims_succeeds hfits (List.Perm.refl _) le_rfl
  · rename_i hevict
    rw [if_neg hevict] at hfits
    refine .pure ?_
    rintro taken ⟨⟩
    refine ⟨List.nil_subset _, ?_⟩
    have hnone : v.reclaimable choice.lane (· ∈ ([] : List e.Lane)) = 0 := by
      simp [View.reclaimable]
    rw [View.canAdmitLaneAfterReleasing, hnone]
    exact hfits

lemma keptPages_append_self {v : View e} {lane : e.Lane} {taken : List e.Lane} :
    v.keptPages lane (· ∈ taken ++ [lane]) = v.keptPages lane (· ∈ taken) := by
  refine Finset.sum_congr rfl fun other _ => ?_
  by_cases hother : other = lane
  · simp [hother]
  · simp [hother]

/-- The victims of a choice, with its own lane if that is captured, give it its room. -/
lemma Inv.secured (h : Inv s) {choice : LaneChoice e} (hchosen : Chosen s.view q.pages choice)
    {taken : List e.Lane} (htaken : taken ⊆ victims s.view choice)
    (hfits : s.view.canAdmitLaneAfterReleasing choice.lane q.pages taken = true) {captures : Bool}
    (hcaptures : choice.forkSource.isSome ∨ choice.host.isSome →
      (s.lanes choice.lane).retained = true → captures = true) :
    Secured s q.pages choice (if captures then taken ++ [choice.lane] else taken) := by
  have hslots : ∀ lane, s.view.occupied lane = false → s.slots lane = none := by
    intro lane hfree
    simpa [State.view] using hfree
  have hmem : ∀ lane ∈ (if captures then taken ++ [choice.lane] else taken),
      lane = choice.lane ∨ lane ∈ victims s.view choice := by
    intro lane hlane
    cases captures with
    | false => exact .inr (htaken hlane)
    | true =>
      rcases List.mem_append.mp hlane with hlane | hlane
      · exact .inr (htaken hlane)
      · exact .inl (List.mem_singleton.mp hlane)
  have hfree := hslots _ hchosen.free
  have hpreserve := hchosen.preserve
  constructor
  case free => exact hfree
  case victims =>
    intro victim hvictim
    rcases hmem victim hvictim with rfl | hvictim
    · exact hfree
    · exact hslots _ (View.mem_victims.mp hvictim).1
  case fork =>
    intro hkeeps source hsource
    obtain ⟨hsourceFree, hretained, hprotected⟩ := hchosen.source source hsource
    have hne : source ≠ choice.lane := by
      rintro rfl
      rw [hkeeps] at hpreserve
      exact hpreserve hsource
    refine ⟨hne, hslots _ hsourceFree, hretained, fun hvictim => ?_⟩
    rcases hmem source hvictim with heq | hvictim
    · exact hne heq
    · rw [(View.mem_victims.mp hvictim).2.2.1] at hprotected
      cases hprotected
  case preserve =>
    intro htrue
    rw [if_pos htrue] at hpreserve
    rw [hpreserve]
    rfl
  case captured =>
    intro hsome hretained
    rw [if_pos (hcaptures hsome hretained)]
    exact List.mem_append_right _ (List.mem_singleton_self _)
  case room =>
    have hroom : q.pages + s.view.keptPages choice.lane (· ∈ taken) ≤ e.kvCapacity :=
      (View.canAdmit_iff h.entitled q.plannable (h.free _ hfree).notBusy _).mp hfits
    cases captures with
    | false => exact hroom
    | true =>
      rw [if_pos rfl, keptPages_append_self]
      exact hroom

/-- An admission that found a lane neither fails nor breaks the invariant. -/
lemma Inv.admitPlannedRequest (h : Inv s) (hhold : s.copyHold = none) (hq : q ∈ s.pending)
    (hchosen : Chosen s.view q.pages c.choice)
    (hcredit : Credited s q c.plan backfillClass backfillEpoch) (env : Env e) :
    Succeeds (admitPlannedRequest s env q c backfillClass backfillEpoch) fun result =>
      Inv result.1 := by
  unfold NInfer.Admission.admitPlannedRequest
  simp only
  split
  · exact .pure (h.leave q.id)
  split
  · exact .pure h
  split
  · exact .pure h
  · refine .pure
      (h.waits ⟨shrinks_map _ fun r => ?_, rfl, rfl, rfl, rfl, rfl, rfl, rfl⟩ h.nextEpoch)
    split
    · exact ⟨rfl, rfl, rfl⟩
    · exact .refl r
  split
  · exact .pure h
  refine (takeVictims_succeeds hchosen env.captureDeferred).bind fun result hresult => ?_
  cases result with
  | none => exact .pure h
  | some taken =>
    obtain ⟨htaken, hfits⟩ := hresult taken rfl
    simp only
    split
    · exact .pure h
    · refine Succeeds.bind (h.bindLane hhold hq (h.secured hchosen htaken hfits ?_) hcredit)
        fun s' hs' => .pure hs'
      intro hsome hretained
      have hretained : (s.view.lanes c.choice.lane).retained = true := hretained
      simp only [hretained, decide_eq_true_eq, true_and]
      tauto

end Bind

/-! ## The queue -/

section Queue

variable {s : State e} {env : Env e}

/-- A temporal backfill is within the credit of the protection. -/
lemma backfillClassOf_temporal {protection : AdmissionProtection}
    {active : List ActiveAdmissionSnapshot} {q : Queued e} {plan : Reuse q.prompt}
    (h : backfillClassOf protection active q plan = .temporal) :
    q.serviceWork plan ≤ protection.temporalCredit := by
  unfold backfillClassOf at h
  split at h
  · cases h
  split at h
  · rename_i hwork
    exact hwork.2
  · cases h

/-- A head that finds no lane can be protected. -/
lemma Ready.protectable (h : Ready s) {head : Queued e} (hhead : head ∈ s.pending)
    (hservable : s.Servable env head)
    (hfit : totals head.base.admission ≤ totals e.admissionCapacity)
    (hnone : s.findLane env head = .ok none) :
    ∃ active, s.activeAdmissionSet = .ok active ∧
      Protectable s.nextProtectionEpoch head.id head.base.admission active e.admissionCapacity := by
  obtain ⟨active, hactive, htotals, hlength, hprogress⟩ := h.toInv.activeAdmissionSet h.ordered
  have hblocked := h.blocked hservable hnone
  rw [← htotals] at hblocked
  have hid : head.id ≠ 0 := by
    have hmem := List.mem_map_of_mem (f := (·.id)) hhead
    exact Nat.pos_iff_ne_zero.mp (h.ordered.ids.ticketed.fresh _ hmem).1
  have hlanes : head.base.admission.activeLanes ≠ 0 := by
    rw [head.activeLanes_eq]
    exact Nat.one_ne_zero
  exact ⟨active, hactive, h.nextEpoch, hid, active_ne_nil hfit hblocked, hlength, hlanes, hfit,
    hprogress, hblocked⟩

/-- `try_admit_one` protects, backfills or admits; it does not fail. -/
lemma tryAdmitOne_succeeds (h : Ready s) (hservable : ∀ q ∈ s.pending, s.Servable env q) :
    Succeeds (tryAdmitOne s env) fun result => Inv result.1 := by
  have hadmits : ∀ {s' : State e} {q : Queued e} {c : Candidate e q.prompt} {backfill epoch},
      Ready s' → q ∈ s'.pending → s'.findLane env q = .ok (some c) →
      Credited s' q c.plan backfill epoch →
      Succeeds (admitPlannedRequest s' env q c backfill epoch) fun result => Inv result.1 :=
    fun {_ q} _ _ _ hready hq hlane hcredit => hready.toInv.admitPlannedRequest hready.noHold hq
      (findAdmissionLane_chosen hready.viewSound q.plannable hlane) hcredit env
  have hguarded : ∀ {s' head active protection}, Guards s s' head active protection →
      s'.nextProtectionEpoch ≠ 0 := by
    intro s' head active protection hguards
    rcases hguards.origin with ⟨_, _, _, hepoch⟩ | ⟨_, _, _, hepoch⟩ <;> rw [hepoch]
    · exact h.nextEpoch
    · exact Nat.succ_ne_zero _
  have hcases : TryAdmit env s (tryAdmitOne s env) := tryAdmitFrom_cases rfl h.ordered.nodup false
  generalize tryAdmitOne s env = outcome at hcases
  cases hcases with
  | empty hwaits _ _ hepoch => exact .pure (h.waits hwaits (hepoch ▸ h.nextEpoch)).toInv
  | admits hwaits hpending hepoch _ _ hok hlane =>
    rw [← hok]
    exact hadmits (h.waits hwaits (hepoch ▸ h.nextEpoch)) (hpending ▸ List.mem_cons_self) hlane
      nofun
  | protects hwaits _ hguards _ => exact .pure (h.waits hwaits (hguarded hguards)).toInv
  | overtakes hwaits hpending hguards hq _ hok hlane =>
    rw [← hok]
    exact hadmits (h.waits hwaits (hguarded hguards)) (hpending ▸ List.mem_cons_of_mem _ hq) hlane
      fun htemporal => ⟨_, hguards.guarded, rfl, backfillClassOf_temporal htemporal⟩
  | fails hhead hfit hnone hfails =>
    obtain ⟨active, hactive, hprotectable⟩ :=
      h.protectable hhead (hservable _ hhead) (admissionResourcesFit_iff.mp hfit) hnone
    exact absurd hprotectable (hfails active hactive)

lemma tryInterruptPrefill_succeeds (h : Inv s) (hhold : s.copyHold = none) (env : Env e) :
    Succeeds (tryInterruptPrefill s env) fun result => Inv result.1 := by
  unfold tryInterruptPrefill
  cases hfound : s.pending.find? (State.gone env · = false) with
  | none => exact .pure h
  | some q =>
    simp only
    split
    swap
    · exact .pure h
    rename_i lane hselected
    split
    · exact .pure h
    have hlane : lane ∈ interruptLanes s env q := by
      refine foldl_selected (P := (· ∈ interruptLanes s env q)) ?_ (by simp) lane hselected
      intro best hbest lane hlane other hother
      cases best with
      | none =>
        cases hother
        exact hlane
      | some best =>
        simp only at hother
        split at hother
        · cases hother
          exact hlane
        · cases hother
          exact hbest _ rfl
    obtain ⟨hfree, hfits⟩ := List.mem_filter.mp hlane
    simp only [decide_eq_true_eq] at hfits
    refine h.admitPlannedRequest hhold (List.mem_of_find?_eq_some hfound) ?_
      (fun htemporal => by cases htemporal) env
    exact ⟨View.mem_free.mp hfree, hfits.2.2.2, by simp, by simp⟩

end Queue

end NInfer.Admission
