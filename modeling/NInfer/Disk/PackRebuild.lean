import NInfer.Disk.PackRuns

/-!
# Rebuilding the allocator from the object map

`rebuild_free_extents` walks the objects of a segment in order and inserts every gap between them
into the free index; what lies behind the last object is truncated.  Over a map of disjoint
nonempty extents no insertion can fail, and what results is a tiling.
-/

namespace NInfer.Disk

open Throwing FreeExtents

variable {files : SegmentFiles} {held objects : List (Extent ℕ)}

/-- Objects of one segment as the map `occupied` lists them from `offset` on. -/
structure Lined (segment offset : ℕ) (l : List (Extent ℕ)) : Prop where
  region : ∀ e ∈ l, e.region = segment
  ordered : l.Pairwise fun a b => a.stop ≤ b.start
  after : ∀ e ∈ l, offset ≤ e.start

variable {pk : PackKind} {done : List ℕ} {l : List (Extent ℕ)} {last : ℕ}

lemma Lined.tail {segment offset : ℕ} {e : Extent ℕ} (h : Lined segment offset (e :: l)) :
    Lined segment e.stop l where
  region e' he' := h.region e' (List.mem_cons_of_mem _ he')
  ordered := h.ordered.of_cons
  after _ he' := List.rel_of_pairwise_cons h.ordered he'

/-- The gap in front of an object; nothing is inserted if it is empty. -/
lemma Coalesced.insertGap {f : FreeExtents} (hf : Coalesced f) {segment offset stop : ℕ}
    (hclear : ∀ x, offset ≤ x → coverage f.extents segment x = 0) (hle : offset ≤ stop) :
    ∃ g, (if stop > offset then f.insertFreeExtent segment offset (stop - offset) else (f, true)) =
        (g, true) ∧ Coalesced g ∧
      ∀ r x, coverage g.extents r x =
        coverage (⟨segment, offset, stop - offset⟩ ::ₘ f.extents) r x := by
  by_cases hgap : stop > offset
  · obtain ⟨hins, hco, hcov⟩ := hf.insertFreeExtent segment offset (stop - offset)
      fun x hx _ => hclear x hx
    refine ⟨_, ?_, hco, hcov⟩
    rw [if_pos hgap, ← hins]
  · refine ⟨f, if_neg hgap, hf, fun r x => ?_⟩
    rw [coverage_cons, if_neg, Nat.zero_add]
    unfold Extent.Covers Extent.stop
    simp only
    omega

/-- The gap loop fills exactly what the objects leave open between `offset` and the last of them. -/
lemma fillGaps_spec {f : FreeExtents} (hf : Coalesced f) {segment offset : ℕ}
    (hl : Lined segment offset l) (hclear : ∀ x, offset ≤ x → coverage f.extents segment x = 0) :
    ∃ g stop, fillGaps f segment offset l = (g, stop, true) ∧ Coalesced g ∧ offset ≤ stop ∧
      (stop = offset ∨ ∃ e ∈ l, stop = e.stop) ∧
      ∀ r x, coverage ((l : Multiset (Extent ℕ)) + g.extents) r x =
        coverage (⟨segment, offset, stop - offset⟩ ::ₘ f.extents) r x := by
  induction l generalizing f offset with
  | nil =>
    refine ⟨f, offset, rfl, hf, Nat.le_refl _, .inl rfl, fun r x => ?_⟩
    rw [coverage_cons, if_neg (by unfold Extent.Covers Extent.stop; simp only; omega)]
    simp
  | cons e l ih =>
    have hle : offset ≤ e.start := hl.after e List.mem_cons_self
    have hregion : e.region = segment := hl.region e List.mem_cons_self
    obtain ⟨g, hg, hgco, hgcov⟩ := Coalesced.insertGap hf hclear hle
    have hgclear : ∀ x, e.stop ≤ x → coverage g.extents segment x = 0 := by
      intro x hx
      unfold Extent.stop at hx
      rw [hgcov, coverage_cons, hclear x (by omega), if_neg]
      unfold Extent.Covers Extent.stop
      simp only
      omega
    obtain ⟨h, stop, hfill, hhco, hstop, hlast, hcov⟩ := ih hgco hl.tail hgclear
    have hestop : e.start ≤ e.stop := Nat.le_add_right ..
    refine ⟨h, stop, ?_, hhco, by omega, .inr ?_, fun r x => ?_⟩
    · rw [fillGaps, hg]
      simp only [hfill, Bool.and_true]
    · rcases hlast with rfl | ⟨e', he', rfl⟩
      · exact ⟨e, List.mem_cons_self, rfl⟩
      · exact ⟨e', List.mem_cons_of_mem _ he', rfl⟩
    · -- The gap, the object and the rest are three consecutive extents.
      have hjoin := coverage_join f.extents segment offset (e.start - offset) (stop - e.start) r x
      have hjoin' := coverage_join f.extents segment e.start e.length (stop - e.stop) r x
      have hsplit : offset + (e.start - offset) = e.start := by omega
      have hwhole : e.start - offset + (stop - e.start) = stop - offset := by omega
      have hend : e.length + (stop - e.stop) = stop - e.start := by
        unfold Extent.stop at hestop hstop ⊢
        omega
      have hcov := hcov r x
      rw [hsplit, hwhole] at hjoin
      have he : (⟨segment, e.start, e.length⟩ : Extent ℕ) = e := by rw [← hregion]
      rw [hend, he, ← Extent.stop] at hjoin'
      rw [← Multiset.cons_coe, Multiset.cons_add, coverage_cons, hcov, ← hjoin]
      simp only [coverage_cons] at hjoin' hgcov ⊢
      rw [hgcov]
      omega

/-! ## One segment -/

/-- What holds of the object extents that a kind owns, given its segment files. -/
structure Held (files : SegmentFiles) (held : List (Extent ℕ)) : Prop where
  files_distinct : (files.map (·.1)).Nodup
  pos : ∀ e ∈ held, 0 < e.length
  disjoint : held.Pairwise fun a b => a.region = b.region → a.stop ≤ b.start ∨ b.stop ≤ a.start
  inside : ∀ e ∈ held, ∃ file ∈ files, file.1 = e.region ∧ e.stop ≤ file.2

lemma held_heldExtents (h : CleanImage files objects) : Held files (heldExtents files objects) where
  files_distinct := h.files_distinct
  pos e he := h.nonempty e (List.mem_of_mem_filter he)
  disjoint := h.disjoint.sublist List.filter_sublist
  inside e he := by
    rw [heldExtents, List.mem_filter, decide_eq_true_eq] at he
    obtain ⟨-, file, hfile, hregion, hstart, hlength⟩ := he
    refine ⟨file, hfile, hregion, ?_⟩
    unfold Extent.stop
    omega

lemma occupiedIn_perm (held : List (Extent ℕ)) (segment : ℕ) :
    (occupiedIn held segment).Perm (held.filter fun e => e.region = segment) :=
  List.perm_insertionSort ..

lemma mem_occupiedIn {segment : ℕ} {e : Extent ℕ} :
    e ∈ occupiedIn held segment ↔ e ∈ held ∧ e.region = segment := by
  rw [(occupiedIn_perm held segment).mem_iff]
  simp

lemma coverage_occupiedIn (held : List (Extent ℕ)) (segment x : ℕ) :
    coverage (occupiedIn held segment : Multiset (Extent ℕ)) segment x =
      coverage (held : Multiset (Extent ℕ)) segment x := by
  rw [Multiset.coe_eq_coe.mpr (occupiedIn_perm held segment)]
  induction held with
  | nil => rfl
  | cons e held ih =>
    by_cases he : e.region = segment
    · rw [List.filter_cons_of_pos (by simpa using he), ← Multiset.cons_coe, ← Multiset.cons_coe,
        coverage_cons, coverage_cons, ih]
    · rw [List.filter_cons_of_neg (by simpa using he), ← Multiset.cons_coe, coverage_cons,
        if_neg (fun h => he h.1), ih, Nat.zero_add]

/-- Sorting disjoint nonempty extents by offset lines them up. -/
lemma Held.lined (h : Held files held) (segment : ℕ) :
    Lined segment 0 (occupiedIn held segment) where
  region e he := (mem_occupiedIn.mp he).2
  ordered := by
    have hsorted : (occupiedIn held segment).Pairwise fun a b => a.start ≤ b.start :=
      List.pairwise_insertionSort ..
    have hdisjoint : (occupiedIn held segment).Pairwise fun a b =>
        a.region = b.region → a.stop ≤ b.start ∨ b.stop ≤ a.start := by
      refine ((occupiedIn_perm held segment).pairwise_iff ?_).mpr
        (h.disjoint.sublist List.filter_sublist)
      exact fun {a b} hab heq => (hab heq.symm).symm
    refine (hsorted.and hdisjoint).imp_of_mem fun {a b} ha hb hab => ?_
    obtain ⟨hstart, hapart⟩ := hab
    have hregion := (mem_occupiedIn.mp ha).2.trans (mem_occupiedIn.mp hb).2.symm
    have hpos := h.pos b (mem_occupiedIn.mp hb).1
    rcases hapart hregion with hapart | hapart
    · exact hapart
    · unfold Extent.stop at hapart ⊢
      omega
  after _ _ := Nat.zero_le _

lemma sum_filter_eq_bytesIn (held : List (Extent ℕ)) (segment : ℕ) :
    ((held.filter fun e => e.region = segment).map (·.length)).sum = bytesIn segment held := by
  induction held with
  | nil => rfl
  | cons e held ih =>
    rw [bytesIn, slotSum_cons, ← bytesIn, ← ih]
    by_cases he : e.region = segment
    · rw [List.filter_cons_of_pos (by simpa using he), if_pos he, List.map_cons, List.sum_cons]
    · rw [List.filter_cons_of_neg (by simpa using he), if_neg he, Nat.zero_add]

/-- The packs of a kind when the segments in `done` have been rebuilt. -/
structure Rebuilt (held : List (Extent ℕ)) (last : ℕ) (done : List ℕ) (pk : PackKind) : Prop where
  coalesced : Coalesced pk.free
  owned : pk.owned = held
  trims : pk.trims = []
  lastSegment : pk.lastSegment = last
  activeSegment : pk.activeSegment = last
  activeTail : pk.activeTail = pk.segmentBytes pk.activeSegment
  entry : ∀ i state, pk.segments i = some state →
    i ∈ done ∧ state.occupiedBytes = bytesIn i held ∧ state.trimming = false
  tiles : ∀ i ∈ done, ∀ x, coverage ((held : Multiset (Extent ℕ)) + pk.free.extents) i x =
    if x < pk.segmentBytes i then 1 else 0
  clear : ∀ i, i ∉ done → ∀ x, coverage pk.free.extents i x = 0

lemma Rebuilt.initial (held : List (Extent ℕ)) (last : ℕ) :
    Rebuilt held last []
      { lastSegment := last, activeSegment := last, owned := held } where
  coalesced := Coalesced.empty
  owned := rfl
  trims := rfl
  lastSegment := rfl
  activeSegment := rfl
  activeTail := rfl
  entry _ _ h := by cases h
  tiles _ h := by cases h
  clear _ _ _ := rfl

/-- One segment: nothing throws, and the segment is tiled up to its last object. -/
lemma Rebuilt.segment (hheld : Held files held) (hpk : Rebuilt held last done pk) {file : ℕ × ℕ}
    (hfile : file ∈ files) (hnew : file.1 ∉ done) :
    (rebuildSegment held pk file).2 = true ∧
      Rebuilt held last (file.1 :: done) (rebuildSegment held pk file).1 := by
  obtain ⟨g, stop, hfill, hco, -, hstop, hcov⟩ := fillGaps_spec hpk.coalesced
    (hheld.lined file.1) fun x _ => hpk.clear file.1 hnew x
  -- The last object lies inside the file.
  have hinside : ¬stop > file.2 := by
    rcases hstop with rfl | ⟨e, he, rfl⟩
    · omega
    · obtain ⟨hmem, hregion⟩ := mem_occupiedIn.mp he
      obtain ⟨file', hfile', hnumber, hle⟩ := hheld.inside e hmem
      obtain rfl : file' = file :=
        List.inj_on_of_nodup_map hheld.files_distinct hfile' hfile (hnumber.trans hregion)
      omega
  have hbytes : (if file.2 > stop then stop else file.2) = stop := by
    split <;> omega
  have hresult : rebuildSegment held pk file =
      ({ pk with
          free := g
          segments := Function.update pk.segments file.1
            (some { bytes := stop, occupiedBytes := bytesIn file.1 held })
          activeTail := if file.1 = pk.activeSegment then stop else pk.activeTail }, true) := by
    simp only [rebuildSegment, hfill, hbytes, sum_filter_eq_bytesIn]
  rw [hresult]
  refine ⟨rfl, ?_⟩
  have hsize : ∀ i, (((Function.update pk.segments file.1
      (some { bytes := stop, occupiedBytes := bytesIn file.1 held }) i).map
        (·.bytes)).getD 0) = if i = file.1 then stop else pk.segmentBytes i := by
    intro i
    by_cases hi : i = file.1
    · subst hi
      simp
    · simp [hi, PackKind.segmentBytes]
  have hsame : ∀ x, coverage ((held : Multiset (Extent ℕ)) + g.extents) file.1 x =
      if x < stop then 1 else 0 := by
    intro x
    have hcov := hcov file.1 x
    rw [coverage_add, coverage_occupiedIn, coverage_cons, hpk.clear file.1 hnew x] at hcov
    rw [coverage_add, hcov]
    simp [Extent.Covers, Extent.stop]
  have hother : ∀ i, i ≠ file.1 → ∀ x, coverage g.extents i x = coverage pk.free.extents i x := by
    intro i hi x
    have hcov := hcov i x
    rw [coverage_add, coverage_cons, if_neg (fun h => hi h.1.symm), Nat.zero_add,
      coverage_eq_zero, Nat.zero_add] at hcov
    · exact hcov
    · intro e he hcovers
      exact hi (hcovers.1.symm.trans (mem_occupiedIn.mp he).2)
  refine
    { coalesced := hco
      owned := hpk.owned
      trims := hpk.trims
      lastSegment := hpk.lastSegment
      activeSegment := hpk.activeSegment
      activeTail := ?_
      entry := fun i state hstate => ?_
      tiles := fun i hi x => ?_
      clear := fun i hi x => ?_ }
  · refine Eq.trans ?_ (hsize pk.activeSegment).symm
    rw [hpk.activeTail]
    simp only [eq_comm]
  · by_cases hi : i = file.1
    · subst hi
      cases (Function.update_self ..).symm.trans hstate
      exact ⟨List.mem_cons_self, rfl, rfl⟩
    · have hold : pk.segments i = some state := (Function.update_of_ne hi ..).symm.trans hstate
      obtain ⟨hmem, hentry⟩ := hpk.entry i state hold
      exact ⟨List.mem_cons_of_mem _ hmem, hentry⟩
  · refine Eq.trans ?_ (congrArg (fun size => if x < size then 1 else 0) (hsize i).symm)
    by_cases hi' : i = file.1
    · rw [hi', if_pos rfl]
      exact hsame x
    · rw [if_neg hi', ← hpk.tiles i (List.mem_of_ne_of_mem hi' hi) x, coverage_add, coverage_add]
      exact congrArg _ (hother i hi' x)
  · rw [List.mem_cons, not_or] at hi
    exact (hother i hi.1 x).trans (hpk.clear i hi.2 x)

/-- The loop over the segments of a kind. -/
lemma Rebuilt.segments (hheld : Held files held) {rest : SegmentFiles}
    (hpk : Rebuilt held last done pk) (hrest : ∀ file ∈ rest, file ∈ files)
    (hnodup : (rest.map (·.1)).Nodup) (hnew : ∀ file ∈ rest, file.1 ∉ done) :
    (rebuildSegments held pk rest).2 = true ∧
      ∃ done', (∀ i, i ∈ done' ↔ i ∈ done ∨ i ∈ rest.map (·.1)) ∧
        Rebuilt held last done' (rebuildSegments held pk rest).1 := by
  induction rest generalizing done pk with
  | nil => exact ⟨rfl, done, by simp, hpk⟩
  | cons file rest ih =>
    rw [List.map_cons, List.nodup_cons] at hnodup
    obtain ⟨hok, hstep⟩ := hpk.segment hheld (hrest file List.mem_cons_self)
      (hnew file List.mem_cons_self)
    obtain ⟨hoks, done', hdone', hsteps⟩ := ih hstep
      (fun file' h => hrest file' (List.mem_cons_of_mem _ h)) hnodup.2 fun file' h hmem => by
        rcases List.mem_cons.mp hmem with heq | hmem
        · exact hnodup.1 (List.mem_map.mpr ⟨file', h, heq⟩)
        · exact hnew file' (List.mem_cons_of_mem _ h) hmem
    refine ⟨?_, done', fun i => ?_, hsteps⟩
    · rw [rebuildSegments]
      simp only [hok, hoks, Bool.and_true]
    · rw [hdone', List.mem_cons, List.map_cons, List.mem_cons]
      tauto

/-! ## All segments and all kinds -/

/-- When every segment has been rebuilt, the packs are tiled. -/
lemma Rebuilt.tiled (hheld : Held files held) (hpk : Rebuilt held last done pk)
    (hdone : ∀ i, i ∈ done ↔ i ∈ files.map (·.1)) (hlast : ∀ i ∈ done, i ≤ last) : pk.Tiled := by
  have hpieces : pk.pieces = (held : Multiset (Extent ℕ)) + pk.free.extents := by
    rw [PackKind.pieces, PackKind.tails, hpk.owned, hpk.trims]
    simp
  have hnotrim : ∀ n, n ∉ pk.trims := by
    rw [hpk.trims]
    exact fun n hn => by cases hn
  refine
    { coalesced := hpk.coalesced
      tiles := fun r x => ?_
      owned_pos := fun e he => hheld.pos e (hpk.owned ▸ he)
      occupied := fun i state hi => ?_
      trimming := fun i state hi => ?_
      trims_pos := fun n hn => absurd hn (hnotrim n)
      trims_end := fun n hn => absurd hn (hnotrim n)
      trims_distinct := by rw [hpk.trims]; exact .nil
      ids_apart := fun n hn => absurd hn (hnotrim n)
      ids_nodup := by rw [hpk.trims]; exact .nil
      ids_lt := fun n hn => absurd hn (hnotrim n)
      active_tail := hpk.activeTail
      active_le := by rw [hpk.activeSegment, hpk.lastSegment]
      numbered := fun i hi => ?_ }
  · rw [hpieces]
    by_cases hr : r ∈ done
    · exact hpk.tiles r hr x
    · -- A number without a file has no entry and holds no object.
      have hnone : pk.segments r = none := by
        by_contra h
        obtain ⟨state, hstate⟩ := Option.ne_none_iff_exists'.mp h
        exact hr (hpk.entry r state hstate).1
      have hempty : ∀ e ∈ (held : Multiset (Extent ℕ)), ¬e.Covers r x := by
        intro e he hcovers
        obtain ⟨file, hfile, hnumber, -⟩ := hheld.inside e he
        exact hr ((hdone r).mpr (List.mem_map.mpr ⟨file, hfile, hnumber.trans hcovers.1⟩))
      rw [coverage_add, hpk.clear r hr x, coverage_eq_zero hempty, PackKind.segmentBytes, hnone]
      rfl
  · rw [(hpk.entry i state hi).2.1, hpk.owned]
  · rw [(hpk.entry i state hi).2.2, hpk.trims]
    simp
  · obtain ⟨state, hstate⟩ := Option.ne_none_iff_exists'.mp hi
    rw [hpk.lastSegment]
    exact hlast i (hpk.entry i state hstate).1

lemma le_foldr_max {l : List ℕ} {i : ℕ} (hi : i ∈ l) : i ≤ l.foldr max 0 := by
  induction l with
  | nil => cases hi
  | cons j l ih =>
    rcases List.mem_cons.mp hi with rfl | hi
    · exact le_max_left ..
    · exact (ih hi).trans (le_max_right ..)

lemma rebuildKind_spec (h : CleanImage files objects) :
    (rebuildKind files objects).2 = true ∧ (rebuildKind files objects).1.Tiled ∧
      ∀ i, (rebuildKind files objects).1.segments i ≠ none → i ∈ files.map (·.1) := by
  have hheld := held_heldExtents h
  have hperm := List.perm_insertionSort (fun a b : ℕ × ℕ => a.1 ≤ b.1) files
  obtain ⟨hok, done, hdone, hpk⟩ := (Rebuilt.initial (heldExtents files objects)
    ((files.map (·.1)).foldr max 0)).segments hheld (fun file hf => hperm.mem_iff.mp hf)
    ((hperm.map _).nodup_iff.mpr h.files_distinct) fun _ _ hmem => by cases hmem
  have hdone' : ∀ i, i ∈ done ↔ i ∈ files.map (·.1) := by
    intro i
    rw [hdone]
    simp
  refine ⟨hok, hpk.tiled hheld hdone' fun i hi => le_foldr_max ((hdone' i).mp hi), fun i hi => ?_⟩
  obtain ⟨state, hstate⟩ := Option.ne_none_iff_exists'.mp hi
  exact (hdone' i).mp (hpk.entry i state hstate).1

/-- The charge that rebuilding adds up file by file is the length of all segments. -/
lemma rebuildKind_charge (h : CleanImage files objects) :
    (files.map fun file => (rebuildKind files objects).1.segmentBytes file.1).sum =
      (rebuildKind files objects).1.totalBytes := by
  obtain ⟨-, htiled, hentry⟩ := rebuildKind_spec h
  generalize (rebuildKind files objects).1 = pk at htiled hentry ⊢
  have hlist : (files.map fun file => pk.segmentBytes file.1) =
      (files.map (·.1)).map pk.segmentBytes := by
    rw [List.map_map]
    rfl
  have hzero : ∀ i, i ∉ files.map (·.1) → pk.segmentBytes i = 0 := by
    intro i hi
    have hnone : pk.segments i = none := by
      by_contra hsome
      exact hi (hentry i hsome)
    rw [PackKind.segmentBytes, hnone]
    rfl
  obtain ⟨m, hlast, hm⟩ : ∃ m, pk.lastSegment < m ∧ ∀ i ∈ files.map (·.1), i < m := by
    refine ⟨pk.lastSegment + (files.map (·.1)).foldr max 0 + 1, by omega, fun i hi => ?_⟩
    have := le_foldr_max hi
    omega
  rw [hlist, ← List.sum_toFinset _ h.files_distinct, htiled.totalBytes_eq hlast]
  refine Finset.sum_subset (fun i hi => ?_) fun i _ hi => ?_
  · exact Finset.mem_range.mpr (hm i (List.mem_toFinset.mp hi))
  · exact hzero i (fun hmem => hi (List.mem_toFinset.mpr hmem))

/-- Rebuilding over a clean image succeeds and gives a sound allocator. -/
lemma rebuildFreeExtents_spec (capacityBytes : ℕ) {files : DiskObjectKind → SegmentFiles}
    {objects : DiskObjectKind → List (Extent ℕ)} (h : ∀ k, CleanImage (files k) (objects k)) :
    ∃ s, rebuildFreeExtents capacityBytes files objects = some s ∧ s.Sound := by
  refine ⟨_, if_pos fun k => (rebuildKind_spec (h k)).1, fun k => (rebuildKind_spec (h k)).2.1, ?_⟩
  dsimp only
  exact Finset.sum_congr rfl fun k _ => rebuildKind_charge (h k)

/-! ## What every run keeps -/

/-- The packs of one kind, seen from outside. -/
structure PackKind.Accounts (pk : PackKind) : Prop where
  /-- What is owned, what is being trimmed and what is free cut each segment into pieces. -/
  tiles : Tiles ((pk.owned : Multiset (Extent ℕ)) + pk.tails + pk.free.extents) pk.segmentBytes
  /-- No two free extents of a segment are adjacent. -/
  separated : ∀ e ∈ pk.free.extents, ∀ e' ∈ pk.free.extents, e.region = e'.region →
    e.stop ≠ e'.start
  /-- The by-offset index lists the nodes of the by-size index, each under its own key. -/
  inverse : ((pk.free.offsets.map fun o => (o.size, o.key) : List (ℕ × ExtentKey)) :
    Multiset (ℕ × ExtentKey)) = (pk.free.sizes.map fun n => (n.id, n.key) : List (ℕ × ExtentKey))
  sizes_distinct : (pk.free.sizes.map (·.id)).Nodup
  offsets_distinct : (pk.free.offsets.map (·.key)).Nodup
  occupied : ∀ i state, pk.segments i = some state → state.occupiedBytes = bytesIn i pk.owned

/-- The allocator, seen from outside. -/
structure PackAllocator.Accounts (s : PackAllocator) : Prop where
  kinds : ∀ k, (s.kinds k).Accounts
  /-- The storage charge is the length of all segments. -/
  storage : s.packStorageBytes = ∑ k, (s.kinds k).totalBytes
  /-- A reservation that grows a pack stays inside the capacity and inside a segment. -/
  growth : ∀ k bytes created opened,
    wp (reservePackExtent k bytes created opened)
      (fun e s' => s'.packStorageBytes ≠ s.packStorageBytes →
        s'.packStorageBytes ≤ s.capacityBytes ∧ e.stop ≤ kPackSegmentBytes)
      (fun _ s' => s'.packStorageBytes = s.packStorageBytes) s

lemma PackKind.Tiled.accounts (hpk : pk.Tiled) : pk.Accounts where
  tiles := hpk.tiles
  separated := hpk.coalesced.apart
  inverse := hpk.coalesced.twin.inverse
  sizes_distinct := hpk.coalesced.twin.ids_nodup
  offsets_distinct := hpk.coalesced.twin.keys_nodup
  occupied := hpk.occupied

lemma AllocReachable.sound {s : PackAllocator} (h : AllocReachable s) : s.Sound := by
  induction h with
  | rebuilt hclean hs =>
    obtain ⟨s, hs', hsound⟩ := rebuildFreeExtents_spec _ hclean
    cases hs'.symm.trans hs
    exact hsound
  | step op hop _ ih => exact ih.call hop

/-- In every state reached from a rebuilt allocator, and in the unlocked window of every trim, the
segments are tiled by what is owned, being trimmed and free. -/
theorem allocReachable_accounts {s : PackAllocator} (h : AllocReachable s) : s.Accounts where
  kinds k := (h.sound.tiled k).accounts
  storage := h.sound.storage
  growth k bytes created opened := by
    refine wp_mono (wp_reservePackExtent h.sound k bytes created opened) ?_ fun _ _ h => h.2
    rintro e s' (hsettled | hgrown) hchanged
    · exact absurd hsettled.2 hchanged
    · exact ⟨hgrown.capacity, hgrown.segment⟩

/-- The allocator of an empty directory. -/
def emptyAllocator : PackAllocator where
  kinds _ := {}
  packStorageBytes := 0
  capacityBytes := 2 ^ 20

lemma emptyAllocator_reachable : AllocReachable emptyAllocator := by
  have hclean : ∀ _ : DiskObjectKind, CleanImage [] [] :=
    fun _ => ⟨.nil, fun _ h => absurd h List.not_mem_nil, .nil⟩
  have hrebuild : rebuildFreeExtents (2 ^ 20) (fun _ => []) (fun _ => []) = some emptyAllocator :=
    rfl
  exact .rebuilt hclean hrebuild

/-- A page was written, dropped, and its segment is being trimmed. -/
def trimWindow : PackAllocator :=
  (AllocOp.trimBegin .main 0 false).call.after
    ((AllocOp.release .main ⟨0, 0, 4096⟩).call.after
      ((AllocOp.reserve .main 4096 true true).call.after emptyAllocator))

lemma trimWindow_reachable : AllocReachable trimWindow := by
  refine .step _ trivial (.step _ ?_ (.step _ trivial emptyAllocator_reachable))
  exact List.mem_cons_self

theorem allocReachable_accounts_trimWindow : trimWindow.Accounts :=
  allocReachable_accounts trimWindow_reachable

/-- A tail being trimmed is not counted as occupied. -/
theorem trimWindow_occupied :
    ¬∀ s, AllocReachable s → ∀ k i state, (s.kinds k).segments i = some state →
      state.occupiedBytes =
        bytesIn i ((s.kinds k).owned ++ (s.kinds k).trims.map SizeNode.extent) := by
  intro h
  have := h trimWindow trimWindow_reachable .main 0
    { bytes := 4096, occupiedBytes := 0, trimming := true } rfl
  revert this
  decide

end NInfer.Disk
