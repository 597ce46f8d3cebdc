import NInfer.Admission.Lanes

/-!
# When a request finds no lane

Lane selection works lane by lane on the page pools, protection on the summed resources of the
active requests.  `findAdmissionLane_blocked` connects the two: a request that finds no lane does
not fit next to the pages of the bound lanes, provided that a request which must not evict the lanes
holding its prefix has some other way in (`ForkServable`).
-/

namespace NInfer.Admission

open NInfer.Prefill

variable {e : Engine}

/-! ## Pages -/

/-- The page groups of the two pools. -/
def Engine.kvCapacity (e : Engine) : KvPages := kvPages e.admissionCapacity

/-- Pages that a plan can ask for. -/
structure Engine.Plannable (e : Engine) (pages : KvPages) : Prop where
  main_le : pages.1 ≤ e.logicalPageCapacity
  backend_le : pages.2 ≤ e.logicalPageCapacity
  backend_zero : e.hasBackendKv = false → pages.2 = 0

lemma pagesForTokens_mono {tokens tokens' : ℕ} (h : tokens ≤ tokens') :
    pagesForTokens tokens ≤ pagesForTokens tokens' :=
  Nat.add_le_add_left (Nat.div_le_div_right (Nat.sub_le_sub_right h 1)) 1

lemma plannable_of_made {prompt : PreparedPrompt} {options : ExecutionOptions}
    {base : RequestBasePlan} (h : base.Made e.program prompt options) :
    e.Plannable (kvPages base.admission) := by
  have hreserved : reservedContextTokens base.promptTokens base.effectiveOutputTokens ≤
      e.program.capacity := by
    have := h.le_capacity
    rw [reservedContextTokens, h.promptTokens, h.effective]
    omega
  rw [h.admission]
  constructor
  · apply pagesForTokens_mono
    split
    · exact min_le_left _ _
    · exact hreserved
  · simp only [kvPages, kvPageEntitlement]
    split
    · exact Nat.zero_le _
    · exact pagesForTokens_mono (min_le_left _ _)
    · split
      · exact pagesForTokens_mono hreserved
      · exact Nat.zero_le _
  · intro hbackend
    unfold Engine.hasBackendKv at hbackend
    cases hkind : e.program.options.backend with
    | none => simp [kvPages, kvPageEntitlement, hkind]
    | mtp => simp [hkind] at hbackend
    | dflash =>
      simp only [hkind] at hbackend
      simp [kvPages, kvPageEntitlement, hkind, hbackend]

namespace View

variable (v : View e)

/-- What the scheduler may assume when it looks for a lane: only retained pages lie in free lanes,
and no bound lane is retained. -/
structure Sound : Prop where
  free : ∀ lane, v.occupied lane = false →
    (v.lanes lane).busy = false ∧ ((v.lanes lane).retained = false → (v.lanes lane).pages = 0)
  bound : ∀ lane, v.occupied lane = true → (v.lanes lane).retained = false
  entitled : v.entitledPages ≤ e.kvCapacity

/-- The pages of the bound lanes. -/
def activePages : KvPages := ∑ lane, if v.occupied lane then (v.lanes lane).pages else 0

/-- The pages of the lanes that stay as they are. -/
def keptPages (lane : e.Lane) (released : e.Lane → Bool) : KvPages :=
  ∑ other, if other = lane ∨ released other ∧ (v.lanes other).retained then 0
    else (v.lanes other).pages

/-- The pages of the protected free lanes. -/
def protectedPages (lane : e.Lane) (isProtected : e.Lane → Bool) : KvPages :=
  ∑ other, if other ≠ lane ∧ v.occupied other = false ∧ isProtected other then
    (v.lanes other).pages else 0

lemma entitledPages_eq (lane : e.Lane) (released : e.Lane → Bool) :
    v.entitledPages = (v.lanes lane).pages + v.reclaimable lane released +
      v.keptPages lane released := by
  have hlane : (v.lanes lane).pages =
      ∑ other, if other = lane then (v.lanes other).pages else 0 := by
    simp
  rw [hlane, reclaimable, keptPages, ← Finset.sum_add_distrib, ← Finset.sum_add_distrib]
  refine Finset.sum_congr rfl fun other _ => ?_
  by_cases hother : other = lane
  · simp [hother]
  · by_cases hreleased : released other = true ∧ (v.lanes other).retained = true
    · simp [hother, hreleased]
    · simp [hother, hreleased]

lemma canReplace_iff {count logical old reclaimable kept new : ℕ} (hkept : kept ≤ count) :
    canReplace count logical (old + reclaimable + kept) old reclaimable new = true ↔
      new ≤ logical ∧ new + kept ≤ count := by
  have hrest : old + reclaimable + kept - old - reclaimable = kept := by omega
  simp only [canReplace, decide_eq_true_eq]
  constructor
  · rintro ⟨-, -, hlogical, hnew⟩
    exact ⟨hlogical, by omega⟩
  · rintro ⟨hlogical, hnew⟩
    exact ⟨by omega, by omega, hlogical, by omega⟩

variable {v}

variable {lane : e.Lane}

/-- A lane can take a plan exactly if the plan fits next to what is kept. -/
lemma canAdmit_iff (hentitled : v.entitledPages ≤ e.kvCapacity) {pages : KvPages}
    (hpages : e.Plannable pages) (hidle : (v.lanes lane).busy = false) (released : e.Lane → Bool) :
    v.canAdmit lane pages (v.reclaimable lane released) = true ↔
      pages + v.keptPages lane released ≤ e.kvCapacity := by
  have hsplit := v.entitledPages_eq lane released
  have hkept : v.keptPages lane released ≤ e.kvCapacity := by
    refine le_trans ?_ hentitled
    rw [hsplit]
    exact ⟨Nat.le_add_left .., Nat.le_add_left ..⟩
  have hmain := hpages.main_le
  have hbackend := hpages.backend_le
  have hmainKept : (v.keptPages lane released).1 ≤ e.mainKvPages := hkept.1
  simp only [canAdmit, hsplit, Prod.fst_add, Prod.snd_add, decide_eq_true_eq]
  rw [canReplace_iff hmainKept]
  by_cases hhas : e.hasBackendKv = true
  · have hbackendKept : (v.keptPages lane released).2 ≤ e.backendKvPages := by
      have := hkept.2
      simpa [Engine.kvCapacity, kvPages, Engine.admissionCapacity, hhas] using this
    rw [if_pos hhas, canReplace_iff hbackendKept, Prod.le_def]
    simp only [Engine.kvCapacity, Engine.admissionCapacity, hhas]
    tauto
  · have hhas' : e.hasBackendKv = false := by simpa using hhas
    have hzero := hpages.backend_zero hhas'
    have hnone : (v.keptPages lane released).2 = 0 := by
      have := hkept.2
      simpa [Engine.kvCapacity, kvPages, Engine.admissionCapacity, hhas'] using this
    rw [Prod.le_def]
    simp only [Engine.kvCapacity, kvPages, Engine.admissionCapacity, hhas', Prod.fst_add,
      Prod.snd_add, hzero, hnone]
    tauto

lemma Sound.canAdmit_iff (h : v.Sound) {pages : KvPages} (hpages : e.Plannable pages)
    (hlane : v.occupied lane = false) (released : e.Lane → Bool) :
    v.canAdmit lane pages (v.reclaimable lane released) = true ↔
      pages + v.keptPages lane released ≤ e.kvCapacity :=
  View.canAdmit_iff h.entitled hpages (h.free lane hlane).1 released

lemma canAdmitLane_iff (hentitled : v.entitledPages ≤ e.kvCapacity) {pages : KvPages}
    (hpages : e.Plannable pages) (hidle : (v.lanes lane).busy = false) :
    v.canAdmitLane lane pages = true ↔
      pages + v.keptPages lane (fun _ => false) ≤ e.kvCapacity := by
  have hnone : v.reclaimable lane (fun _ => false) = 0 := by simp [reclaimable]
  rw [canAdmitLane, ← hnone, canAdmit_iff hentitled hpages hidle]

/-- Without what other lanes retain, only the bound lanes keep pages. -/
lemma Sound.keptPages_evicted (h : v.Sound) (hlane : v.occupied lane = false) :
    v.keptPages lane (fun _ => true) = v.activePages := by
  refine Finset.sum_congr rfl fun other _ => ?_
  by_cases hother : other = lane
  · subst hother
    simp [hlane]
  · cases hoccupied : v.occupied other with
    | true => simp [hother, h.bound other hoccupied]
    | false =>
      by_cases hretained : (v.lanes other).retained = true
      · simp [hretained]
      · simp [(h.free other hoccupied).2 (by simpa using hretained)]

lemma mem_free : lane ∈ v.free ↔ v.occupied lane = false := by
  simp [View.free, View.all]

lemma mem_victims {choice : LaneChoice e} {other : e.Lane} :
    other ∈ victims v choice ↔ v.occupied other = false ∧ other ≠ choice.lane ∧
      choice.protectedLanes other = false ∧ (v.lanes other).retained = true := by
  simp [victims, mem_free]

/-- After evicting what a choice may evict, the bound lanes and the protected ones keep pages. -/
lemma Sound.keptPages_victims (h : v.Sound) (choice : LaneChoice e)
    (hlane : v.occupied choice.lane = false) :
    v.keptPages choice.lane (· ∈ victims v choice) =
      v.activePages + v.protectedPages choice.lane choice.protectedLanes := by
  rw [activePages, protectedPages, ← Finset.sum_add_distrib]
  refine Finset.sum_congr rfl fun other _ => ?_
  by_cases hother : other = choice.lane
  · subst hother
    simp [hlane]
  · cases hoccupied : v.occupied other with
    | true => simp [hother, h.bound other hoccupied]
    | false =>
      by_cases hretained : (v.lanes other).retained = true
      · cases hprotected : choice.protectedLanes other with
        | true => simp [mem_victims, hprotected]
        | false => simp [mem_victims, hprotected, hoccupied, hretained]
      · simp [(h.free other hoccupied).2 (by simpa using hretained)]

end View

/-! ## Selection -/

section Selection

variable {v : View e} {pages : KvPages} {prompt : PreparedPrompt} {lookup : Lookup e prompt}
  {unavailable : e.Lane → Bool} {lane : e.Lane} {selected : Option (Candidate e prompt)}

/-- The candidate passes the check of `find_fork_lane`. -/
def ForkFits (v : View e) (pages : KvPages) (choice : LaneChoice e) : Prop :=
  v.canAdmitLaneAfterReleasing choice.protectSource.lane pages (victims v choice.protectSource) =
    true

lemma considerFork_isSome (selected : Option (Candidate e prompt)) (c : Candidate e prompt) :
    (considerFork v pages selected c).isSome ↔ selected.isSome ∨ ForkFits v pages c.choice := by
  unfold considerFork ForkFits
  by_cases h : v.canAdmitLaneAfterReleasing c.choice.protectSource.lane pages
      (victims v c.choice.protectSource) = true
  · rw [if_neg (by simp [h])]
    cases selected with
    | none => simp [h]
    | some other =>
      simp only [h, or_true, iff_true]
      split <;> rfl
  · simp [h]

lemma findForkLane_none (h : findForkLane v pages lookup unavailable = .ok none) :
    ∀ c ∈ forkCandidates v lookup unavailable, ¬ForkFits v pages c.choice := by
  intro c hc hfits
  rw [findForkLane, refuseIf_bind_iff, ok_pure_iff] at h
  have hsome : ((forkCandidates v lookup unavailable).foldl (considerFork v pages) none).isSome :=
    (foldl_isSome_iff considerFork_isSome _ none).mpr (.inr ⟨c, hc, hfits⟩)
  rw [h.2] at hsome
  cases hsome

lemma considerVram_isSome (selected : Option (Candidate e prompt)) (c : Candidate e prompt) :
    (considerVram v selected c).isSome ↔ selected.isSome ∨ True := by
  unfold considerVram
  cases selected with
  | none => simp
  | some other =>
    simp only [or_true, iff_true]
    split
    · rfl
    · split <;> rfl

lemma considerHost_isSome (hselected : selected.isSome) (lane : Option e.Lane) (tier : HostTier)
    (evict : Bool) (plan : Option (Reuse prompt)) :
    (considerHost selected lane tier evict plan).isSome := by
  unfold considerHost
  split
  · cases selected with
    | none => cases hselected
    | some other =>
      simp only
      split <;> rfl
  · exact hselected

variable {c : Candidate e prompt} {evict : Bool}

/-- A pass finds a lane if one is feasible. -/
lemma admissionPass_isSome (hfree : v.occupied lane = false)
    (hfeasible : feasible v pages evict lane = true) :
    (admissionPass v pages lookup evict).isSome := by
  have hresident : (((v.free.filter (feasible v pages evict)).map fun lane =>
      { choice := { lane, evictRetained := evict },
        plan := lookup.lanePlan v lane : Candidate e prompt }).foldl
        (considerVram v) none).isSome := by
    rw [foldl_isSome_iff considerVram_isSome]
    refine .inr ⟨_, List.mem_map_of_mem (List.mem_filter.mpr ⟨?_, hfeasible⟩), trivial⟩
    exact View.mem_free.mpr hfree
  exact considerHost_isSome (considerHost_isSome hresident ..) ..

lemma findAdmissionLane_none (h : findAdmissionLane v pages true lookup unavailable = .ok none)
    (hfree : v.occupied lane = false) : v.canAdmitLaneAfterRetainedEviction lane pages = false := by
  unfold findAdmissionLane at h
  rw [if_neg (by simp)] at h
  split at h
  · rename_i hnone
    simpa [feasible] using (hnone lane (View.mem_free.mpr hfree)).2
  · by_contra hfeasible
    have hpass : (admissionPass v pages lookup true).isSome :=
      admissionPass_isSome hfree (by simpa [feasible] using hfeasible)
    obtain ⟨-, hnone⟩ := Option.or_eq_none_iff.mp (ok_pure_iff.mp h)
    rw [hnone] at hpass
    cases hpass

/-! ## Ways in for a request that may not evict its prefix -/

/-- The request has a way in if the pages suffice at all: no free lane holds its prefix, or a host
tier has one, or a lane that holds it can be copied to the host, or there is room beside it. -/
def ForkServable (v : View e) (pages : KvPages) (lookup : Lookup e prompt)
    (unavailable : e.Lane → Bool) : Prop :=
  (∀ lane, protectedLanes v lookup lane = false) ∨ lookup.ramPlan.isSome ∨
    lookup.diskPlan.isSome ∨
    (∃ source, protectedLanes v lookup source = true ∧ unavailable source = false ∧
      (v.lanes source).cacheWritable = true) ∨
    (∃ source destination, protectedLanes v lookup source = true ∧
      v.occupied destination = false ∧ destination ≠ source ∧
      pages + (v.activePages + (v.lanes source).pages) ≤ e.kvCapacity) ∨
    ∃ destination, v.occupied destination = false ∧ protectedLanes v lookup destination = false ∧
      pages + (v.activePages + v.protectedPages destination (protectedLanes v lookup)) ≤
        e.kvCapacity

lemma forkFits_iff (h : v.Sound) (hpages : e.Plannable pages) {choice : LaneChoice e}
    (hlane : v.occupied choice.lane = false) :
    ForkFits v pages choice ↔ pages + (v.activePages +
      v.protectedPages choice.lane choice.protectSource.protectedLanes) ≤ e.kvCapacity := by
  have hlane' : v.occupied choice.protectSource.lane = false := hlane
  unfold ForkFits View.canAdmitLaneAfterReleasing
  rw [h.canAdmit_iff hpages hlane', h.keptPages_victims _ hlane']
  rfl

lemma protectedPages_eq_zero {isProtected : e.Lane → Bool}
    (h : ∀ other, other ≠ lane → isProtected other = false) :
    v.protectedPages lane isProtected = 0 := by
  refine Finset.sum_eq_zero fun other _ => if_neg ?_
  rintro ⟨hne, -, hprotected⟩
  rw [h other hne] at hprotected
  cases hprotected

lemma protectedPages_single {source : e.Lane} (hne : source ≠ lane)
    (hfree : v.occupied source = false) :
    v.protectedPages lane (fun other => some source = some other || false) =
      (v.lanes source).pages := by
  unfold View.protectedPages
  rw [Finset.sum_eq_single source]
  · simp [hne, hfree]
  · intro other _ hother
    simp [hother.symm]
  · intro hmem
    exact absurd (Finset.mem_univ _) hmem

/-- A request that may not evict its prefix, has a way in and finds none, does not fit next to the
bound lanes. -/
lemma findForkLane_blocked (h : v.Sound) (hpages : e.Plannable pages)
    (hservable : ForkServable v pages lookup unavailable) (hfree : v.occupied lane = false)
    (hnone : findForkLane v pages lookup unavailable = .ok none) :
    ¬pages + v.activePages ≤ e.kvCapacity := by
  intro hroom
  have hunfit := findForkLane_none hnone
  -- A candidate that keeps no free lane but the one it takes would fit.
  have hunfit_of_alone : ∀ c ∈ forkCandidates v lookup unavailable,
      v.occupied c.choice.lane = false →
      (∀ other, other ≠ c.choice.lane → c.choice.protectSource.protectedLanes other = false) →
      False := by
    intro c hc hlane halone
    apply hunfit c hc
    rw [forkFits_iff h hpages hlane, protectedPages_eq_zero halone]
    exact hroom
  have hsource : ∀ source, protectedLanes v lookup source = true → v.occupied source = false := by
    intro source hsource
    simp only [protectedLanes, decide_eq_true_eq] at hsource
    exact hsource.1
  rcases hservable with hnone | hram | hdisk | ⟨source, hprotected, havailable, hwritable⟩ |
    ⟨source, destination, hprotected, hdestination, hne, hfits⟩ |
    ⟨destination, hdestination, hunprotected, hfits⟩
  · refine hunfit_of_alone
      { choice := { lane, protectedLanes := protectedLanes v lookup }
        plan := lookup.lanePlan v lane, rank := 4 } ?_ hfree fun other _ => hnone other
    refine List.mem_append_right _ (List.mem_flatMap.mpr ⟨lane, View.mem_free.mpr hfree, ?_⟩)
    simp [hnone lane]
  · obtain ⟨plan, hplan⟩ := Option.isSome_iff_exists.mp hram
    refine hunfit_of_alone { choice := { lane, host := some .ram }, plan, rank := 1 } ?_ hfree
      fun _ _ => rfl
    refine List.mem_append_right _ (List.mem_flatMap.mpr ⟨lane, View.mem_free.mpr hfree, ?_⟩)
    simp [hplan]
  · obtain ⟨plan, hplan⟩ := Option.isSome_iff_exists.mp hdisk
    refine hunfit_of_alone { choice := { lane, host := some .disk }, plan, rank := 2 } ?_ hfree
      fun _ _ => rfl
    refine List.mem_append_right _ (List.mem_flatMap.mpr ⟨lane, View.mem_free.mpr hfree, ?_⟩)
    simp [hplan]
  · refine hunfit_of_alone
      { choice := { lane := source, forkSource := some source, preserveSource := true }
        plan := lookup.lanePlan v source, rank := 3 } ?_ (hsource source hprotected) ?_
    · refine List.mem_append_left _ (List.mem_flatMap.mpr ⟨source, ?_, ?_⟩)
      · simp [View.all, hprotected]
      · simp [havailable, hwritable]
    · intro other hother
      simpa [LaneChoice.protectSource] using hother.symm
  · refine hunfit { choice := { lane := destination, forkSource := some source }
                    plan := lookup.lanePlan v source, rank := 0 } ?_ ?_
    · refine List.mem_append_left _ (List.mem_flatMap.mpr ⟨source, ?_, ?_⟩)
      · simp [View.all, hprotected]
      · simp [View.mem_free, hdestination, hne]
    · rw [forkFits_iff h hpages hdestination]
      simp only [LaneChoice.protectSource]
      rwa [protectedPages_single hne.symm (hsource source hprotected)]
  · refine hunfit { choice := { lane := destination, protectedLanes := protectedLanes v lookup }
                    plan := lookup.lanePlan v destination, rank := 4 } ?_ ?_
    · refine List.mem_append_right _
        (List.mem_flatMap.mpr ⟨destination, View.mem_free.mpr hdestination, ?_⟩)
      simp [hunprotected]
    · rw [forkFits_iff h hpages hdestination]
      exact hfits

/-- A request that finds no lane finds all of them bound, or does not fit next to the bound ones. -/
lemma findAdmissionLane_blocked (h : v.Sound) (hpages : e.Plannable pages) {cacheWrite : Bool}
    (hservable : cacheWrite = false → ForkServable v pages lookup unavailable)
    (hnone : findAdmissionLane v pages cacheWrite lookup unavailable = .ok none) :
    (∀ lane, v.occupied lane = true) ∨ ¬pages + v.activePages ≤ e.kvCapacity := by
  by_contra hcontra
  rw [not_or, not_not] at hcontra
  obtain ⟨hlane, hroom⟩ := hcontra
  obtain ⟨lane, hfree⟩ : ∃ lane, v.occupied lane = false := by simpa using hlane
  cases cacheWrite with
  | false =>
    exact findForkLane_blocked h hpages (hservable rfl) hfree hnone hroom
  | true =>
    have hinfeasible := findAdmissionLane_none hnone hfree
    have hfeasible : v.canAdmitLaneAfterRetainedEviction lane pages = true := by
      rw [View.canAdmitLaneAfterRetainedEviction, h.canAdmit_iff hpages hfree,
        h.keptPages_evicted hfree]
      exact hroom
    rw [hinfeasible] at hfeasible
    cases hfeasible

/-! ## What is selected -/

/-- What admission may assume of a choice. -/
structure Chosen (v : View e) (pages : KvPages) (choice : LaneChoice e) : Prop where
  free : v.occupied choice.lane = false
  fits : if choice.evictRetained then
      v.canAdmitLaneAfterReleasing choice.lane pages (victims v choice) = true
    else v.canAdmitLane choice.lane pages = true
  source : ∀ source ∈ choice.forkSource, v.occupied source = false ∧
    (v.lanes source).retained = true ∧ choice.protectedLanes source = true
  preserve : if choice.preserveSource then choice.forkSource = some choice.lane
    else choice.lane ∉ choice.forkSource

lemma mem_oldest {lanes : List e.Lane} : ∀ lane ∈ oldest v lanes, lane ∈ lanes := by
  refine foldl_selected (P := (· ∈ lanes)) ?_ (by simp)
  intro selected hselected lane hlane other hother
  cases selected with
  | none =>
    cases hother
    exact hlane
  | some best =>
    simp only at hother
    split at hother
    · cases hother
      exact hlane
    · cases hother
      exact hselected _ rfl

lemma mem_firstHostLane (h : firstHostLane v pages evict = some lane) :
    v.occupied lane = false ∧ feasible v pages evict lane = true := by
  have hmem : lane ∈ v.free.filter (feasible v pages evict) := by
    rcases Option.or_eq_some_iff.mp h with hclean | ⟨-, hdirty⟩
    · exact List.mem_of_find?_eq_some hclean
    · exact mem_oldest lane hdirty
  obtain ⟨hfree, hfeasible⟩ := List.mem_filter.mp hmem
  exact ⟨View.mem_free.mp hfree, hfeasible⟩

/-- A lane that is feasible for a request with `cache_write`. -/
lemma chosen_of_feasible (h : v.Sound) (hpages : e.Plannable pages)
    (hfree : v.occupied lane = false) (hfeasible : feasible v pages evict lane = true)
    (host : Option HostTier) : Chosen v pages { lane, evictRetained := evict, host } := by
  refine ⟨hfree, ?_, by simp, by simp⟩
  cases evict with
  | false => exact hfeasible
  | true =>
    have hroom : pages + v.activePages ≤ e.kvCapacity := by
      have hroom := (h.canAdmit_iff hpages hfree _).mp hfeasible
      rwa [h.keptPages_evicted hfree] at hroom
    unfold View.canAdmitLaneAfterReleasing
    rw [h.canAdmit_iff hpages hfree,
      h.keptPages_victims { lane, evictRetained := true, host } hfree,
      protectedPages_eq_zero fun _ _ => rfl]
    exact hroom

lemma chosen_considerHost (h : v.Sound) (hpages : e.Plannable pages)
    (hselected : ∀ c ∈ selected, Chosen v pages c.choice) (tier : HostTier)
    (plan : Option (Reuse prompt)) :
    ∀ c ∈ considerHost selected (firstHostLane v pages evict) tier evict plan,
      Chosen v pages c.choice := by
  intro c hc
  unfold considerHost at hc
  split at hc
  · rename_i plan lane hlane
    obtain ⟨hfree, hfeasible⟩ := mem_firstHostLane hlane
    cases selected with
    | none =>
      cases hc
      exact chosen_of_feasible h hpages hfree hfeasible _
    | some other =>
      simp only at hc
      split at hc
      · cases hc
        exact hselected _ rfl
      · cases hc
        exact chosen_of_feasible h hpages hfree hfeasible _
  · exact hselected c hc

lemma chosen_admissionPass (h : v.Sound) (hpages : e.Plannable pages) (evict : Bool) :
    ∀ c ∈ admissionPass v pages lookup evict, Chosen v pages c.choice := by
  refine chosen_considerHost h hpages (chosen_considerHost h hpages ?_ _ _) _ _
  refine foldl_selected (P := fun c : Candidate e prompt => Chosen v pages c.choice) ?_ (by simp)
  intro selected hselected c hc other hother
  have hchosen : Chosen v pages c.choice := by
    obtain ⟨lane, hlane, rfl⟩ := List.mem_map.mp hc
    obtain ⟨hfree, hfeasible⟩ := List.mem_filter.mp hlane
    exact chosen_of_feasible h hpages (View.mem_free.mp hfree) hfeasible none
  unfold considerVram at hother
  cases selected with
  | none =>
    cases hother
    exact hchosen
  | some best =>
    simp only at hother
    split at hother
    · cases hother
      exact hselected _ rfl
    · split at hother
      · cases hother
        exact hselected _ rfl
      · cases hother
        exact hchosen

lemma retained_of_protected (h : protectedLanes v lookup lane = true) :
    v.occupied lane = false ∧ (v.lanes lane).retained = true := by
  simp only [protectedLanes, decide_eq_true_eq] at h
  refine ⟨h.1, ?_⟩
  by_contra hretained
  apply h.2
  rw [Lookup.lanePlan, if_neg hretained]
  rfl

/-- The shape of the candidates of `find_fork_lane`. -/
lemma mem_forkCandidates (hc : c ∈ forkCandidates v lookup unavailable) :
    v.occupied c.choice.lane = false ∧
      (∀ source ∈ c.choice.forkSource, protectedLanes v lookup source = true) ∧
      (if c.choice.preserveSource then c.choice.forkSource = some c.choice.lane
        else c.choice.lane ∉ c.choice.forkSource) := by
  rcases List.mem_append.mp hc with hc | hc
  · obtain ⟨source, hsource, hc⟩ := List.mem_flatMap.mp hc
    have hprotected := (List.mem_filter.mp hsource).2
    rcases List.mem_append.mp hc with hc | hc
    · obtain ⟨destination, hdestination, rfl⟩ := List.mem_map.mp hc
      obtain ⟨hfree, hne⟩ := List.mem_filter.mp hdestination
      refine ⟨View.mem_free.mp hfree, ?_, ?_⟩
      · rintro other ⟨⟩
        exact hprotected
      · have hne : destination ≠ source := by simpa using hne
        simpa using hne.symm
    · split at hc
      · obtain rfl := List.mem_singleton.mp hc
        refine ⟨(retained_of_protected hprotected).1, ?_, rfl⟩
        rintro other ⟨⟩
        exact hprotected
      · cases hc
  · obtain ⟨destination, hdestination, hc⟩ := List.mem_flatMap.mp hc
    have hfree := View.mem_free.mp hdestination
    rcases List.mem_append.mp hc with hc | hc
    · rcases List.mem_append.mp hc with hc | hc
      · obtain ⟨plan, -, rfl⟩ := List.mem_map.mp hc
        exact ⟨hfree, by simp, by simp⟩
      · obtain ⟨plan, -, rfl⟩ := List.mem_map.mp hc
        exact ⟨hfree, by simp, by simp⟩
    · split at hc
      · cases hc
      · obtain rfl := List.mem_singleton.mp hc
        exact ⟨hfree, by simp, by simp⟩

lemma chosen_considerFork (hselected : ∀ c ∈ selected, Chosen v pages c.choice)
    (hc : c ∈ forkCandidates v lookup unavailable) :
    ∀ c' ∈ considerFork v pages selected c, Chosen v pages c'.choice := by
  intro c' hc'
  obtain ⟨hfree, hsource, hpreserve⟩ := mem_forkCandidates hc
  unfold considerFork at hc'
  by_cases hfits : v.canAdmitLaneAfterReleasing c.choice.protectSource.lane pages
      (victims v c.choice.protectSource) = true
  swap
  · rw [if_pos (by simpa using hfits)] at hc'
    exact hselected c' hc'
  · rw [if_neg (by simp [hfits])] at hc'
    have hchosen : Chosen v pages { c.choice.protectSource with
        evictRetained := !v.canAdmitLane c.choice.protectSource.lane pages } := by
      refine ⟨hfree, ?_, fun source hmem => ?_, hpreserve⟩
      · cases hlane : v.canAdmitLane c.choice.protectSource.lane pages with
        | true => simp
        | false => exact hfits
      · obtain ⟨hsourceFree, hretained⟩ := retained_of_protected (hsource source hmem)
        have hforked : c.choice.forkSource = some source := hmem
        exact ⟨hsourceFree, hretained, by simp [LaneChoice.protectSource, hforked]⟩
    cases selected with
    | none =>
      cases hc'
      exact hchosen
    | some best =>
      simp only at hc'
      split at hc'
      · cases hc'
        exact hchosen
      · cases hc'
        exact hselected _ rfl

/-- The choice that a request is admitted with. -/
lemma findAdmissionLane_chosen (h : v.Sound) (hpages : e.Plannable pages) {cacheWrite : Bool}
    (hsome : findAdmissionLane v pages cacheWrite lookup unavailable = .ok (some c)) :
    Chosen v pages c.choice := by
  unfold findAdmissionLane at hsome
  split at hsome
  · rw [findForkLane, refuseIf_bind_iff, ok_pure_iff] at hsome
    refine foldl_selected (P := fun c : Candidate e prompt => Chosen v pages c.choice) ?_ (by simp)
      c hsome.2
    intro selected hselected c hc
    exact chosen_considerFork hselected hc
  · split at hsome
    · cases hsome
    · rcases Option.or_eq_some_iff.mp (ok_pure_iff.mp hsome) with hpass | ⟨-, hpass⟩
      · exact chosen_admissionPass h hpages false c hpass
      · exact chosen_admissionPass h hpages true c hpass

end Selection

end NInfer.Admission
