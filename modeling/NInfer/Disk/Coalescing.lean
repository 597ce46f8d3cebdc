import NInfer.Disk.FreeExtents

/-!
# Coalescing

A free-extent index is coalesced when its extents are nonempty, disjoint, and no two of one segment
touch.  The lemmas here are the specifications of the index operations: each keeps the index
coalesced and says, as an equation of coverages, which extent it gives or takes.  Joining two
neighbours works because the neighbour, if it exists, is the one `lower_bound` finds: any other
candidate would have to start inside an extent that is already accounted for.
-/

namespace NInfer.Disk.FreeExtents

variable {e : Extent ℕ}

lemma mem_extents {f : FreeExtents} :
    e ∈ f.extents ↔ ∃ n ∈ f.sizes, n.extent = e := by
  simp [extents]

lemma mem_extents_of_unlink {f : FreeExtents} {o : OffsetNode} (he : e ∈ (f.unlink o).extents) :
    e ∈ f.extents := by
  obtain ⟨n, hn, rfl⟩ := mem_extents.mp he
  exact mem_extents.mpr ⟨n, List.mem_of_mem_filter hn, rfl⟩

/-- The free extents are nonempty and no two of a segment touch. -/
structure Coalesced (f : FreeExtents) : Prop where
  twin : Twin f
  pos : ∀ e ∈ f.extents, 0 < e.length
  apart : ∀ e ∈ f.extents, ∀ e' ∈ f.extents, e.region = e'.region → e.stop ≠ e'.start
  disjoint : ∀ r x, coverage f.extents r x ≤ 1

lemma Coalesced.empty : Coalesced {} where
  twin := ⟨.nil, rfl, .nil, .nil, fun _ h => by cases h⟩
  pos _ h := by cases h
  apart _ h := by cases h
  disjoint _ _ := Nat.zero_le _

lemma mem_of_before {f : FreeExtents} {key : ExtentKey} {c : OffsetNode}
    (hc : f.before key = some c) : c ∈ f.offsets ∧ c.key < key := by
  have hmem := List.mem_of_getLast? hc
  simpa using hmem

/-- `before` finds the closest predecessor. -/
lemma Twin.before_of_mem {f : FreeExtents} (hf : Twin f) {key : ExtentKey} {o : OffsetNode}
    (ho : o ∈ f.offsets) (hlt : o.key < key) :
    ∃ c, f.before key = some c ∧ (c = o ∨ o.key < c.key) := by
  have hmem : o ∈ f.offsets.filter fun o => o.key < key := by simp [ho, hlt]
  have hsorted := hf.offsets_sorted.sublist (List.filter_sublist (p := fun o => o.key < key))
  obtain ⟨c, hc⟩ : ∃ c, f.before key = some c := by
    unfold before
    cases hlast : (f.offsets.filter fun o => o.key < key).getLast? with
    | none => simp [List.getLast?_eq_none_iff.mp hlast] at hmem
    | some c => exact ⟨c, rfl⟩
  refine ⟨c, hc, ?_⟩
  obtain ⟨l, hl⟩ := List.getLast?_eq_some_iff.mp hc
  rw [hl] at hmem hsorted
  rcases List.mem_append.mp hmem with hmem | hmem
  · exact .inr ((List.pairwise_append.mp hsorted).2.2 o hmem c (by simp))
  · exact .inl (List.mem_singleton.mp hmem).symm

namespace Coalesced

variable {f : FreeExtents} (hf : Coalesced f)

include hf

/-- Two free extents that share an address are the same. -/
lemma eq_of_covers {e e' : Extent ℕ} (he : e ∈ f.extents) (he' : e' ∈ f.extents) {r x : ℕ}
    (hx : e.Covers r x) (hx' : e'.Covers r x) : e = e' := by
  by_contra hne
  have := two_le_coverage he he' hne hx hx'
  have := hf.disjoint r x
  omega

variable {o : OffsetNode} {e : Extent ℕ}

/-- The free extent at a by-offset node. -/
lemma extent_mem (ho : o ∈ f.offsets) :
    (⟨o.key.segment, o.key.offset, f.bytesOf o⟩ : Extent ℕ) ∈ f.extents := by
  obtain ⟨n, hn, -, -, hkey, hbytes⟩ := hf.twin.exists_node ho
  refine mem_extents.mpr ⟨n, hn, ?_⟩
  rw [SizeNode.extent, hkey, hbytes]

lemma bytesOf_pos (ho : o ∈ f.offsets) : 0 < f.bytesOf o :=
  hf.pos _ (hf.extent_mem ho)

/-- The address a by-offset node is keyed at is covered. -/
lemma one_le_coverage_key (ho : o ∈ f.offsets) :
    1 ≤ coverage f.extents o.key.segment o.key.offset := by
  have hpos := hf.bytesOf_pos ho
  exact one_le_coverage (hf.extent_mem ho)
    ⟨rfl, Nat.le_refl _, by unfold Extent.stop; simp only; omega⟩

/-- No node is keyed at an address that is not covered. -/
lemma key_ne_of_uncovered {key : ExtentKey}
    (huncovered : coverage f.extents key.segment key.offset = 0) :
    ∀ o ∈ f.offsets, o.key ≠ key := by
  rintro o ho rfl
  have hcov := hf.one_le_coverage_key ho
  omega

/-- The by-offset node of a by-size node denotes it. -/
lemma bytesOf_node {n : SizeNode} (hn : n ∈ f.sizes) : f.bytesOf ⟨n.key, n.id⟩ = n.bytes := by
  obtain ⟨m, hm, -, hid, -, hbytes⟩ := hf.twin.exists_node (hf.twin.offset_mem hn)
  rw [hbytes, hf.twin.eq_of_id_eq hm hn hid]

/-- The by-offset node of a free extent. -/
lemma exists_offset (he : e ∈ f.extents) :
    ∃ o ∈ f.offsets, o.key = ⟨e.region, e.start⟩ ∧ f.bytesOf o = e.length := by
  obtain ⟨n, hn, rfl⟩ := mem_extents.mp he
  exact ⟨⟨n.key, n.id⟩, hf.twin.offset_mem hn, rfl, hf.bytesOf_node hn⟩

/-- If `joinBefore` finds nothing, no free extent ends at the key. -/
lemma stop_ne_of_joinBefore_none {key : ExtentKey} (hnone : f.joinBefore key = none)
    (he : e ∈ f.extents) (hregion : e.region = key.segment) :
    e.stop ≠ key.offset := by
  intro hstop
  obtain ⟨o, ho, hkey, hbytes⟩ := hf.exists_offset he
  have hpos := hf.pos e he
  unfold Extent.stop at hstop
  have hlt : o.key < key := by
    rw [hkey]
    exact .inr ⟨hregion, by simp only; omega⟩
  obtain ⟨c, hc, hclose⟩ := hf.twin.before_of_mem ho hlt
  obtain ⟨hcmem, hclt⟩ := mem_of_before hc
  have hco : c = o := by
    refine hclose.resolve_right fun hoc => ?_
    -- A closer predecessor would start inside `e`.
    simp only [hkey, ExtentKey.lt_iff] at hoc hclt
    have hcpos := hf.bytesOf_pos hcmem
    have heq := hf.eq_of_covers he (hf.extent_mem hcmem) (r := e.region) (x := c.key.offset)
      ⟨rfl, by omega, by unfold Extent.stop; omega⟩
      ⟨by simp only; omega, Nat.le_refl _, by unfold Extent.stop; simp only; omega⟩
    have : e.start = c.key.offset := by rw [heq]
    omega
  subst hco
  unfold joinBefore at hnone
  rw [hc] at hnone
  simp [hkey, hbytes, hregion, hstop] at hnone

/-- A free extent that starts just past an uncovered range is the range's `lower_bound`. -/
lemma lowerBound_of_start {segment offset bytes : ℕ}
    (huncovered : ∀ x, offset ≤ x → x < offset + bytes → coverage f.extents segment x = 0)
    (he : e ∈ f.extents) (hregion : e.region = segment) (hstart : e.start = offset + bytes) :
    ∃ o, f.lowerBound ⟨segment, offset⟩ = some o ∧ o.key = ⟨segment, offset + bytes⟩ := by
  obtain ⟨o, ho, hkey, -⟩ := hf.exists_offset he
  rw [hregion, hstart] at hkey
  have hnot : ¬o.key < ⟨segment, offset⟩ := by
    rw [hkey, ExtentKey.lt_iff]
    simp only
    omega
  obtain ⟨n, hn⟩ : ∃ n, f.lowerBound ⟨segment, offset⟩ = some n := by
    unfold lowerBound
    cases hfind : f.offsets.find? (fun o => ¬o.key < ⟨segment, offset⟩) with
    | none => exact absurd (List.find?_eq_none.mp hfind o ho) (by simpa using hnot)
    | some n => exact ⟨n, rfl⟩
  refine ⟨n, hn, ?_⟩
  obtain ⟨hnge, l₁, l₂, hsplit, hbefore⟩ := List.find?_eq_some_iff_append.mp hn
  have hnge : ¬n.key < ⟨segment, offset⟩ := by simpa using hnge
  have hnmem : n ∈ f.offsets := by rw [hsplit]; simp
  have hsorted := hf.twin.offsets_sorted
  rw [hsplit] at ho hsorted
  rcases List.mem_append.mp ho with ho | ho
  · exact absurd (hbefore o ho) (by simpa using hnot)
  rcases List.mem_cons.mp ho with rfl | ho
  · exact hkey
  -- Any other candidate would start inside the uncovered range.
  have hlt : n.key < o.key :=
    (List.pairwise_cons.mp (List.pairwise_append.mp hsorted).2.1).1 o ho
  simp only [hkey, ExtentKey.lt_iff] at hlt hnge
  have hcov := hf.one_le_coverage_key hnmem
  rw [show n.key.segment = segment by omega, huncovered _ (by omega) (by omega)] at hcov
  omega

end Coalesced

/-- `g` is `f` without some of its extents, and `⟨segment, start, size⟩` is
`⟨segment, offset, bytes⟩` with those extents joined to it. -/
structure Absorbs (f g : FreeExtents) (segment offset bytes start size : ℕ) : Prop where
  twin : Twin g
  sizes : ∀ n ∈ g.sizes, n ∈ f.sizes
  nextNode : g.nextNode = f.nextNode
  offsets : ∀ o ∈ g.offsets, o ∈ f.offsets
  coverage : ∀ r x, coverage (⟨segment, offset, bytes⟩ ::ₘ f.extents) r x =
    coverage (⟨segment, start, size⟩ ::ₘ g.extents) r x

lemma Absorbs.extents {f g : FreeExtents} {segment offset bytes start size : ℕ}
    (h : Absorbs f g segment offset bytes start size) (he : e ∈ g.extents) :
    e ∈ f.extents := by
  obtain ⟨n, hn, rfl⟩ := mem_extents.mp he
  exact mem_extents.mpr ⟨n, h.sizes n hn, rfl⟩

lemma Absorbs.refl {f : FreeExtents} (hf : Twin f) (segment offset bytes : ℕ) :
    Absorbs f f segment offset bytes offset bytes :=
  ⟨hf, fun _ hn => hn, rfl, fun _ ho => ho, fun _ _ => rfl⟩

namespace Coalesced

variable {f : FreeExtents} (hf : Coalesced f)

include hf

/-- Joining the extent that ends where the new one starts. -/
lemma absorbBefore (segment offset bytes : ℕ) :
    ∃ start size g,
      start = ((f.joinBefore ⟨segment, offset⟩).map (·.key.offset)).getD offset ∧
      size = bytes + ((f.joinBefore ⟨segment, offset⟩).map f.bytesOf).getD 0 ∧
      g = ((f.joinBefore ⟨segment, offset⟩).map f.unlink).getD f ∧
      Absorbs f g segment offset bytes start size ∧
      start + size = offset + bytes ∧
      (∀ o ∈ f.offsets, start < o.key.offset → o ∈ g.offsets) ∧
      (∀ e ∈ g.extents, e.region = segment → e.stop ≠ start) ∧
      ((∀ o ∈ f.offsets, o.key ≠ ⟨segment, offset⟩) →
        ∀ o ∈ g.offsets, o.key ≠ ⟨segment, start⟩) := by
  refine ⟨_, _, _, rfl, rfl, rfl, ?_⟩
  cases hjoin : f.joinBefore ⟨segment, offset⟩ with
  | none =>
    refine ⟨.refl hf.twin .., rfl, fun o ho _ => ho, fun e he hregion => ?_, fun h => h⟩
    exact hf.stop_ne_of_joinBefore_none hjoin he hregion
  | some c =>
    obtain ⟨hc, hsegment, hend⟩ : f.before ⟨segment, offset⟩ = some c ∧
        c.key.segment = segment ∧ c.key.offset + f.bytesOf c = offset := by
      unfold joinBefore at hjoin
      simpa [Option.filter_eq_some_iff] using hjoin
    have hcmem := (mem_of_before hc).1
    obtain ⟨htwin, hextents⟩ := hf.twin.unlink hcmem
    simp only [Option.map_some, Option.getD_some]
    refine ⟨⟨htwin, ?_, rfl, ?_, ?_⟩, by omega, ?_, ?_, ?_⟩
    · exact fun n hn => List.mem_of_mem_filter hn
    · exact fun o ho => List.mem_of_mem_filter ho
    · intro r x
      rw [hextents, hsegment, Multiset.cons_swap, ← hend, coverage_join, add_comm]
    · intro o ho hlt
      refine List.mem_filter.mpr ⟨ho, ?_⟩
      have hne : o.key ≠ c.key := fun h => by
        rw [h] at hlt
        omega
      simpa using hne
    · intro e he hregion hstop
      have hc' : (⟨segment, c.key.offset, f.bytesOf c⟩ : Extent ℕ) ∈ f.extents := by
        rw [hextents, hsegment]
        exact Multiset.mem_cons_self _ _
      exact hf.apart e (mem_extents_of_unlink he) _ hc' hregion hstop
    · intro _ o ho hkey
      have hne : o.key ≠ c.key := by simpa using (List.mem_filter.mp ho).2
      exact hne (by rw [hkey, ← hsegment])

variable {segment offset bytes start size : ℕ} {o : OffsetNode}

/-- Joining the extent that starts where the new one, already joined to the left, ends. -/
lemma absorbAfter {g : FreeExtents} (habs : Absorbs f g segment offset bytes start size)
    (hstop : start + size = offset + bytes) (hsize : 0 < size)
    (hkeep : ∀ o ∈ f.offsets, start < o.key.offset → o ∈ g.offsets)
    (huncovered : ∀ x, offset ≤ x → x < offset + bytes → coverage f.extents segment x = 0) :
    ∃ next size' g',
      next = (f.lowerBound ⟨segment, offset⟩).filter (fun n => n.key = ⟨segment, start + size⟩) ∧
      size' = size + (next.map f.bytesOf).getD 0 ∧ g' = (next.map g.unlink).getD g ∧
      Absorbs f g' segment offset bytes start size' ∧
      (∀ e ∈ g'.extents, e ∈ g.extents) ∧ (∀ o ∈ g'.offsets, o ∈ g.offsets) ∧
      (∀ e ∈ g'.extents, e.region = segment → e.start ≠ start + size') := by
  refine ⟨_, _, _, rfl, rfl, rfl, ?_⟩
  cases hnext : (f.lowerBound ⟨segment, offset⟩).filter
      (fun n => n.key = ⟨segment, start + size⟩) with
  | none =>
    refine ⟨habs, fun e he => he, fun o ho => ho, fun e he hregion heq => ?_⟩
    obtain ⟨o, ho, hkey⟩ :=
      hf.lowerBound_of_start huncovered (habs.extents he) hregion (heq.trans hstop)
    rw [ho, hstop] at hnext
    simp [hkey] at hnext
  | some n =>
    obtain ⟨hlower, hkey⟩ : f.lowerBound ⟨segment, offset⟩ = some n ∧
        n.key = ⟨segment, start + size⟩ := by
      simpa [Option.filter_eq_some_iff] using hnext
    have hnf : n ∈ f.offsets := List.mem_of_find?_eq_some hlower
    have hng : n ∈ g.offsets := hkeep n hnf (by rw [hkey]; simp only; omega)
    obtain ⟨htwin, hextents⟩ := habs.twin.unlink hng
    -- The iterator still denotes the node it denoted in `f`.
    have hbytes : g.bytesOf n = f.bytesOf n := by
      obtain ⟨m, hm, -, hid, -, hmb⟩ := habs.twin.exists_node hng
      obtain ⟨m', hm', -, hid', -, hmb'⟩ := hf.twin.exists_node hnf
      rw [hmb, hmb', hf.twin.eq_of_id_eq (habs.sizes m hm) hm' (hid.trans hid'.symm)]
    rw [hkey, hbytes] at hextents
    simp only [Option.map_some, Option.getD_some]
    refine ⟨⟨htwin, ?_, habs.nextNode, ?_, ?_⟩, ?_, ?_, ?_⟩
    · exact fun m hm => habs.sizes m (List.mem_of_mem_filter hm)
    · exact fun o ho => habs.offsets o (List.mem_of_mem_filter ho)
    · intro r x
      rw [habs.coverage, hextents, coverage_join]
    · exact fun e he => mem_extents_of_unlink he
    · exact fun o ho => List.mem_of_mem_filter ho
    · intro e he hregion heq
      have hn' : (⟨segment, start + size, f.bytesOf n⟩ : Extent ℕ) ∈ f.extents :=
        habs.extents (by rw [hextents]; exact Multiset.mem_cons_self _ _)
      refine hf.apart _ hn' e (habs.extents (mem_extents_of_unlink he)) hregion.symm ?_
      unfold Extent.stop
      simp only
      omega

/-- Linking the joined extent completes the index. -/
lemma link_absorbed {g : FreeExtents} (id : ℕ) (habs : Absorbs f g segment offset bytes start size)
    (hsize : 0 < size) (hid : ∀ m ∈ g.sizes, m.id ≠ id) (hlt : id < g.nextNode)
    (hkey : ∀ o ∈ g.offsets, o.key ≠ ⟨segment, start⟩)
    (hbefore : ∀ e ∈ g.extents, e.region = segment → e.stop ≠ start)
    (hafter : ∀ e ∈ g.extents, e.region = segment → e.start ≠ start + size)
    (huncovered : ∀ x, offset ≤ x → x < offset + bytes → coverage f.extents segment x = 0) :
    Coalesced (g.link ⟨id, size, ⟨segment, start⟩⟩) ∧
    ∀ r x, coverage (g.link ⟨id, size, ⟨segment, start⟩⟩).extents r x =
      coverage (⟨segment, offset, bytes⟩ ::ₘ f.extents) r x := by
  obtain ⟨htwin, hextents⟩ := habs.twin.link (n := ⟨id, size, ⟨segment, start⟩⟩) hid hlt hkey
  have hcoverage : ∀ r x, coverage (g.link ⟨id, size, ⟨segment, start⟩⟩).extents r x =
      coverage (⟨segment, offset, bytes⟩ ::ₘ f.extents) r x := by
    intro r x
    rw [hextents, habs.coverage]
    rfl
  refine ⟨⟨htwin, ?_, ?_, fun r x => ?_⟩, hcoverage⟩
  · intro e he
    rw [hextents] at he
    rcases Multiset.mem_cons.mp he with rfl | he
    · exact hsize
    · exact hf.pos e (habs.extents he)
  · intro e he e' he' hregion
    rw [hextents] at he he'
    rcases Multiset.mem_cons.mp he with rfl | he <;> rcases Multiset.mem_cons.mp he' with rfl | he'
    · unfold Extent.stop SizeNode.extent
      simp only
      omega
    · exact (hafter e' he' hregion.symm).symm
    · exact hbefore e he hregion
    · exact hf.apart e (habs.extents he) e' (habs.extents he') hregion
  · rw [hcoverage, coverage_cons]
    have hone := hf.disjoint r x
    split
    · rename_i hx
      obtain ⟨rfl, hle, hlt⟩ := hx
      rw [huncovered x hle hlt]
    · omega

/-- `insert_free_extent` on a range that no free extent covers succeeds, keeps the index
coalesced, and adds exactly the range. -/
lemma insertFreeExtent (segment offset bytes : ℕ)
    (huncovered : ∀ x, offset ≤ x → x < offset + bytes → coverage f.extents segment x = 0) :
    (f.insertFreeExtent segment offset bytes).2 = true ∧
    Coalesced (f.insertFreeExtent segment offset bytes).1 ∧
    ∀ r x, coverage (f.insertFreeExtent segment offset bytes).1.extents r x =
      coverage (⟨segment, offset, bytes⟩ ::ₘ f.extents) r x := by
  by_cases hbytes : bytes = 0
  · have hnone : ∀ r x, ¬(⟨segment, offset, 0⟩ : Extent ℕ).Covers r x := by
      rintro r x ⟨-, hle, hlt⟩
      exact absurd hlt (by unfold Extent.stop; simpa using hle)
    subst hbytes
    refine ⟨rfl, hf, fun r x => ?_⟩
    rw [coverage_cons, if_neg (hnone r x), zero_add]
    rfl
  have hf' : Coalesced { f with nextNode := f.nextNode + 1 } :=
    { hf with twin := hf.twin.bump }
  obtain ⟨start, size, g, hstart, hsize, hg, habs, hstop, hkeep, hbefore, hkeys⟩ :=
    hf'.absorbBefore segment offset bytes
  obtain ⟨next, size', g', hnext, hsize', hg', habs', hsub, hsubo, hafter⟩ :=
    hf'.absorbAfter habs hstop (by omega) hkeep huncovered
  have hnokey : ∀ o ∈ f.offsets, o.key ≠ ⟨segment, offset⟩ :=
    hf.key_ne_of_uncovered (huncovered offset (Nat.le_refl _) (by omega))
  have hkey' : ∀ o ∈ g'.offsets, o.key ≠ ⟨segment, start⟩ :=
    fun o ho => hkeys hnokey o (hsubo o ho)
  have hresult : f.insertFreeExtent segment offset bytes =
      (g'.link ⟨f.nextNode, size', ⟨segment, start⟩⟩,
        g'.offsets.all fun o => o.key ≠ ⟨segment, start⟩) := by
    unfold FreeExtents.insertFreeExtent
    rw [if_neg hbytes, hg', hsize', hnext, hg, hsize, hstart]
    rfl
  rw [hresult]
  refine ⟨by simpa using hkey', hf'.link_absorbed _ habs' (by omega) ?_ ?_ hkey'
    (fun e he => hbefore e (hsub e he)) hafter huncovered⟩
  · intro m hm
    exact Nat.ne_of_lt (hf.twin.fresh m (habs'.sizes m hm))
  · rw [habs'.nextNode]
    exact Nat.lt_succ_self _

/-- Removing a free extent. -/
lemma unlink (ho : o ∈ f.offsets) :
    Coalesced (f.unlink o) ∧
      f.extents = ⟨o.key.segment, o.key.offset, f.bytesOf o⟩ ::ₘ (f.unlink o).extents := by
  obtain ⟨htwin, hextents⟩ := hf.twin.unlink ho
  refine ⟨⟨htwin, fun e he => hf.pos e (mem_extents_of_unlink he), fun e he e' he' =>
    hf.apart e (mem_extents_of_unlink he) e' (mem_extents_of_unlink he'), fun r x => ?_⟩, hextents⟩
  have hone := hf.disjoint r x
  rw [hextents, coverage_cons] at hone
  omega

/-- Nothing else covers what a removed extent covered. -/
lemma coverage_unlink (ho : o ∈ f.offsets) {x : ℕ} (hle : o.key.offset ≤ x)
    (hlt : x < o.key.offset + f.bytesOf o) :
    coverage (f.unlink o).extents o.key.segment x = 0 := by
  have hone := hf.disjoint o.key.segment x
  rw [(hf.unlink ho).2, coverage_cons, if_pos ⟨rfl, hle, hlt⟩] at hone
  omega

/-- Carving takes exactly the front of the extent. -/
lemma carve (ho : o ∈ f.offsets) {bytes : ℕ} (hpos : 0 < bytes) (hfit : bytes ≤ f.bytesOf o) :
    Coalesced (f.carve o (f.bytesOf o) bytes) ∧
    ∀ r x, coverage (⟨o.key.segment, o.key.offset, bytes⟩ ::ₘ
      (f.carve o (f.bytesOf o) bytes).extents) r x = coverage f.extents r x := by
  obtain ⟨hrest, hextents⟩ := hf.unlink ho
  unfold FreeExtents.carve
  by_cases hwhole : f.bytesOf o - bytes = 0
  · have heq : bytes = f.bytesOf o := by omega
    simp only [hwhole, ne_eq, not_true_eq_false, if_false]
    refine ⟨hrest, fun r x => ?_⟩
    conv_rhs => rw [hextents]
    rw [heq]
  simp only [ne_eq, hwhole, not_false_eq_true, if_true]
  obtain ⟨n, hn, -, hid, -, -⟩ := hf.twin.exists_node ho
  have huncovered : ∀ x, o.key.offset + bytes ≤ x →
      x < o.key.offset + bytes + (f.bytesOf o - bytes) →
      coverage (f.unlink o).extents o.key.segment x = 0 :=
    fun x hle hlt => hf.coverage_unlink ho (by omega) (by omega)
  have hids : ∀ m ∈ (f.unlink o).sizes, m.id ≠ o.size := by
    intro m hm
    simpa using (List.mem_filter.mp hm).2
  have hfresh : o.size < (f.unlink o).nextNode := by
    rw [← hid]
    exact hf.twin.fresh n hn
  -- A node keyed at the suffix would cover an address of the carved extent.
  have hkeys : ∀ o' ∈ (f.unlink o).offsets,
      o'.key ≠ ⟨o.key.segment, o.key.offset + bytes⟩ :=
    hrest.key_ne_of_uncovered (huncovered (o.key.offset + bytes) (Nat.le_refl _) (by omega))
  -- So would an extent that ends where the suffix starts.
  have hbefore : ∀ e ∈ (f.unlink o).extents, e.region = o.key.segment →
      e.stop ≠ o.key.offset + bytes := by
    intro e he hregion hstop
    have hepos := hrest.pos e he
    have hcov := one_le_coverage he (r := o.key.segment) (x := o.key.offset + bytes - 1)
      ⟨hregion, by unfold Extent.stop at hstop; omega, by omega⟩
    rw [hf.coverage_unlink ho (by omega) (by omega)] at hcov
    omega
  have hafter : ∀ e ∈ (f.unlink o).extents, e.region = o.key.segment →
      e.start ≠ o.key.offset + bytes + (f.bytesOf o - bytes) := by
    intro e he hregion heq
    refine hf.apart _ (hf.extent_mem ho) e (mem_extents_of_unlink he) hregion.symm ?_
    unfold Extent.stop
    simp only
    omega
  obtain ⟨hco, hcov⟩ := hrest.link_absorbed o.size
    (.refl hrest.twin o.key.segment (o.key.offset + bytes) (f.bytesOf o - bytes))
    (by omega) hids hfresh hkeys hbefore hafter huncovered
  refine ⟨hco, fun r x => ?_⟩
  rw [coverage_cons, hcov, ← coverage_cons, coverage_join, Nat.add_sub_cancel' hfit, ← hextents]

/-- What `freeTail` finds is a free extent that ends where the segment ends. -/
lemma freeTail_spec {segment bytes : ℕ} {n : SizeNode} (htail : f.freeTail segment bytes = some n) :
    n ∈ f.sizes ∧ n.key.segment = segment ∧ n.key.offset + n.bytes = bytes := by
  obtain ⟨o, ho, hderef⟩ := Option.bind_eq_some_iff.mp htail
  simp only [Option.filter_eq_some_iff, decide_eq_true_eq] at ho
  obtain ⟨hlast, hsegment, hend⟩ := ho
  have homem : o ∈ f.offsets := List.mem_of_mem_filter (List.mem_of_getLast? hlast)
  obtain ⟨m, hm, hderef', -, hkey, hbytes⟩ := hf.twin.exists_node homem
  obtain rfl : m = n := Option.some.inj (hderef'.symm.trans hderef)
  rw [hkey, ← hbytes]
  exact ⟨hm, hsegment, hend⟩

/-- Putting a tail back adds exactly the tail. -/
lemma relink {n : SizeNode} (hpos : 0 < n.bytes) (hid : ∀ m ∈ f.sizes, m.id ≠ n.id)
    (hlt : n.id < f.nextNode)
    (huncovered : ∀ x, n.key.offset ≤ x → x < n.key.offset + n.bytes →
      coverage f.extents n.key.segment x = 0)
    (hend : ∀ e ∈ f.extents, e.region = n.key.segment → e.start ≠ n.key.offset + n.bytes) :
    Coalesced (f.relink n) ∧
    ∀ r x, coverage (f.relink n).extents r x = coverage (n.extent ::ₘ f.extents) r x := by
  obtain ⟨start, size, g, hstart, hsize, hg, habs, hstop, -, hbefore, hkeys⟩ :=
    hf.absorbBefore n.key.segment n.key.offset n.bytes
  have hresult : f.relink n = g.link ⟨n.id, size, ⟨n.key.segment, start⟩⟩ := by
    unfold FreeExtents.relink
    rw [hg, hsize, hstart]
    cases hjoin : f.joinBefore n.key with
    | none => rfl
    | some c =>
      have hsegment : c.key.segment = n.key.segment := by
        unfold joinBefore at hjoin
        simp only [Option.filter_eq_some_iff, decide_eq_true_eq] at hjoin
        exact hjoin.2.1
      simp only [Option.map_some, Option.getD_some, ← hsegment]
  have hnokey := hf.key_ne_of_uncovered (huncovered _ (Nat.le_refl _) (by omega))
  rw [hresult]
  refine hf.link_absorbed _ habs (by omega) (fun m hm => hid m (habs.sizes m hm)) ?_ (hkeys hnokey)
    hbefore ?_ huncovered
  · rwa [habs.nextNode]
  · intro e he hregion heq
    exact hend e (habs.extents he) hregion (heq.trans hstop)

end Coalesced

end NInfer.Disk.FreeExtents
