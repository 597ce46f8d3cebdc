import NInfer.PagedKV.Safety

/-!
# The device block tables mirror the page lists

Kernels look up the pages of a sequence in the block-table row its allocation is bound to.  Only
new ranges are copied there, so a row also holds entries of trimmed pages and of earlier owners;
they never lie below the mapped count of the allocation the row is bound to now.  Copies are
ordered by their stream, and every one is taken to succeed (`copied = true`).  All other calls leave
the device tables alone, and an allocation bound after such a call has at most the pages that the
owner of its row had before it (`Covers`).
-/

namespace NInfer.PagedKV

open Throwing PagedKVAllocation

variable {ι : Type} [DecidableEq ι] {specs : ι → PagedKVPoolSpec} {h : Heap ι}
  {x y : PagedKVAllocation ι} {a : ℕ} {p : ι}

/-- The row of the pool that `x` is bound to, if any, starts with the pages of `x`. -/
def PagedKVAllocation.MirroredIn (pool : PagedKVPool) (x : PagedKVAllocation ι) : Prop :=
  0 ≤ x.boundRow →
    ∀ i page, x.pageIds[i]? = some page → pool.blockTables x.boundRow.toNat i = page

/-- Every bound allocation is mirrored in its pool. -/
def Mirrored (h : Heap ι) : Prop :=
  ∀ x ∈ h.allocations, ∀ p, x.pool = some p → x.MirroredIn (h.pools p)

/-! ## Publishing a range -/

lemma writeRow_of_ne {tables : ℕ → ℕ → ℕ} {row first r : ℕ} {pages : List ℕ} (hr : r ≠ row) :
    writeRow tables row first pages r = tables r := by
  funext i
  simp [writeRow, hr]

/-- Publishing from `first` on completes a row that was right up to `first`. -/
lemma writeRow_published {tables : ℕ → ℕ → ℕ} {row first count i page : ℕ} {ids : List ℕ}
    (hbefore : i < first → tables row i = page) (hall : ids.length ≤ first + count)
    (hi : ids[i]? = some page) :
    writeRow tables row first ((ids.drop first).take count) row i = page := by
  obtain ⟨hlt, -⟩ := List.getElem?_eq_some_iff.mp hi
  unfold writeRow
  split
  · have hpos : first + (i - first) = i := by omega
    simp [List.getElem?_take_of_lt (show i - first < count by omega), hpos, hi]
  · rename_i hout
    refine hbefore (by_contra fun hge => hout ⟨rfl, by omega, ?_⟩)
    rw [List.length_take, List.length_drop]
    omega

/-- Every bound allocation except the one at `a` is mirrored in its pool. -/
def MirroredExcept (a : ℕ) (h : Heap ι) : Prop :=
  ∀ b z, b ≠ a → h.allocations[b]? = some z → ∀ p, z.pool = some p → z.MirroredIn (h.pools p)

lemma Mirrored.write (hm : Mirrored h) {P : PagedKVPool}
    (hP : P.blockTables = (h.pools p).blockTables) : MirroredExcept a (h.write p P a y) := by
  intro b z hba hz q hq
  rw [List.getElem?_set_ne (Ne.symm hba)] at hz
  have hzm := hm z (List.mem_of_getElem? hz) q hq
  by_cases hqp : q = p
  · subst hqp
    simpa [MirroredIn, hP] using hzm
  · simpa [hqp] using hzm

omit [DecidableEq ι] in
lemma MirroredExcept.mirrored (hm : MirroredExcept a h) (hget : h.allocations[a]? = some y)
    (hp : y.pool = some p) (hy : y.MirroredIn (h.pools p)) : Mirrored h := by
  intro z hz q hq
  obtain ⟨b, hb⟩ := List.mem_iff_getElem?.mp hz
  by_cases hba : b = a
  · obtain rfl : y = z := Option.some.inj (hget.symm.trans (hba ▸ hb))
    obtain rfl : p = q := Option.some.inj (hp.symm.trans hq)
    exact hy
  · exact hm b z hba hb q hq

/-- No two allocations of a pool are bound to one row. -/
lemma Sound.row_ne (hs : Sound specs h) (hx : h.allocations[a]? = some x) {b : ℕ}
    {z : PagedKVAllocation ι} (hz : h.allocations[b]? = some z) (hba : b ≠ a)
    (hxp : x.pool = some p) (hzp : z.pool = some p) (hxr : 0 ≤ x.boundRow)
    (hzr : 0 ≤ z.boundRow) : z.boundRow.toNat ≠ x.boundRow.toNat := by
  intro heq
  have hz' : (h.allocations.set a {})[b]? = some z := by
    rw [List.getElem?_set_ne (Ne.symm hba), hz]
  have hxset := slotSum_set (rowsIn p) hx {}
  have hzset := slotSum_set (rowsIn p) hz' {}
  rw [rowsIn_empty, add_zero] at hxset hzset
  have hnodup : (h.pools p).usedRows.Nodup := (Multiset.nodup_range _).filter _
  rw [(hs.balanced p).rows, ← hxset, ← hzset] at hnodup
  simp [rowsIn, hxp, hzp, hxr, hzr, heq, Multiset.nodup_add] at hnodup

/-- Publishing the pages from `first` on restores the mirror, if the row was right before. -/
lemma wp_publishRange_mirrored (hs : Sound specs h) (hm : MirroredExcept a h)
    (hget : h.allocations[a]? = some y) (hp : y.pool = some p) (hrow : 0 ≤ y.boundRow)
    {first count : ℕ} (hall : y.pageIds.length ≤ first + count)
    (hbefore : ∀ i page, i < first → y.pageIds[i]? = some page →
      (h.pools p).blockTables y.boundRow.toNat i = page) :
    wp (publishRange a first count true) (fun _ => Mirrored) (fun _ => Mirrored) h := by
  have hlt := (hs.wellFormed y (List.mem_of_getElem? hget)).row_lt p hp
  have hrange : ¬(y.boundRow < 0 ∨ y.boundRow ≥ (h.pools p).spec.tableRows) := by
    rw [(hs.balanced p).spec_eq]
    omega
  simp only [publishRange, wp_bind, wp_load, List.getD_eq_getElem?_getD, hget, Option.getD_some, hp,
    wp_ite, wp_loadPool, wp_throwIf, hrange, wp_modifyPool]
  refine ⟨fun hcount => hm.mirrored hget hp fun _ i page hi => ?_, fun _ => ?_⟩
  · exact hbefore i page (by have := (List.getElem?_eq_some_iff.mp hi).1; omega) hi
  · refine ⟨False.elim, fun _ => ⟨by simp, fun _ => ?_⟩⟩
    refine MirroredExcept.mirrored (fun b z hba hz q hq => ?_) hget hp ?_
    · have hzm := hm b z hba hz q hq
      by_cases hqp : q = p
      · subst hqp
        intro hzr
        simpa [writeRow_of_ne (hs.row_ne hget hz hba hp hq hrow hzr)] using hzm hzr
      · simpa [hqp] using hzm
    · intro _ i page hi
      simpa using writeRow_published (fun hi' => hbefore i page hi' hi) hall hi

/-! ## Calls that publish nothing -/

/-- A bound allocation has at most the pages that the owner of its row had. -/
def Covers (table table' : List (PagedKVAllocation ι)) : Prop :=
  ∀ y ∈ table', 0 ≤ y.boundRow → ∃ x ∈ table,
    x.pool = y.pool ∧ x.boundRow = y.boundRow ∧ y.pageIds <+: x.pageIds

section Covers

omit [DecidableEq ι]

variable {table table' : List (PagedKVAllocation ι)}

lemma Mirrored.covered {h' : Heap ι} (hm : Mirrored h)
    (htables : ∀ p, (h'.pools p).blockTables = (h.pools p).blockTables)
    (hcovers : Covers h.allocations h'.allocations) : Mirrored h' := by
  intro y hy p hp hrow i page hi
  obtain ⟨x, hx, hpool, hbound, rest, hrest⟩ := hcovers y hy hrow
  obtain ⟨hlt, -⟩ := List.getElem?_eq_some_iff.mp hi
  rw [htables, ← hbound]
  refine hm x hx p (hpool.trans hp) (hbound ▸ hrow) i page ?_
  rw [← hrest, List.getElem?_append_left hlt, hi]

/-- Calls that only drop allocations, move them or add unbound ones. -/
lemma covers_of_mem (hmem : ∀ y ∈ table', y ∈ table ∨ y.boundRow < 0) : Covers table table' :=
  fun y hy hrow => ⟨y, (hmem y hy).resolve_right (not_lt.mpr hrow), rfl, rfl, List.prefix_rfl⟩

lemma covers_append (hunbound : ∀ y ∈ table', y.boundRow < 0) : Covers table (table ++ table') :=
  covers_of_mem fun y hy => (List.mem_append.mp hy).imp_right (hunbound y)

lemma getD_mem_or (table : List (PagedKVAllocation ι)) (a : ℕ) :
    table.getD a {} ∈ table ∨ (table.getD a {}).boundRow < 0 := by
  by_cases ha : a < table.length <;> simp [ha]

lemma covers_applied (changes : List PagedKVResize) (table : List (PagedKVAllocation ι)) :
    Covers table (changes.foldl PagedKVResize.applied table) := by
  induction changes generalizing table with
  | nil => exact covers_of_mem fun y hy => .inl hy
  | cons change rest ih =>
    intro y hy hrow
    obtain ⟨x, hx, hpool, hbound, hpages⟩ := ih _ y hy hrow
    rw [← hpool, ← hbound]
    unfold PagedKVResize.applied at hx
    split at hx
    · exact ⟨x, hx, rfl, rfl, hpages⟩
    rcases List.mem_or_eq_of_mem_set hx with hx | rfl
    · exact ⟨x, hx, rfl, rfl, hpages⟩
    · refine ⟨_, (getD_mem_or table _).resolve_right ?_, rfl, rfl,
        hpages.trans (List.take_prefix ..)⟩
      exact not_lt.mpr (hbound ▸ hrow)

end Covers

lemma Mirrored.rewrite (hm : Mirrored h) (hx : h.allocations[a]? = some x) {P : PagedKVPool}
    (hP : P.blockTables = (h.pools p).blockTables) (hy : 0 ≤ y.boundRow →
      x.pool = y.pool ∧ x.boundRow = y.boundRow ∧ y.pageIds <+: x.pageIds) :
    Mirrored (h.write p P a y) := by
  refine hm.covered (blockTables_update hP) fun z hz hrow => ?_
  rcases List.mem_or_eq_of_mem_set hz with hz | rfl
  · exact ⟨z, hz, rfl, rfl, List.prefix_rfl⟩
  · exact ⟨x, List.mem_of_getElem? hx, hy hrow⟩

/-! ## Runs -/

/-- Every copy to the device takes effect. -/
def Op.Copied : Op ι → Prop
  | .materializePages _ _ copied | .bindRow _ _ copied => copied = true
  | _ => True

/-- The heaps reached by such calls from any heap in which no allocation is bound. -/
inductive Published (specs : ι → PagedKVPoolSpec) : Heap ι → Prop where
  | unbound {h : Heap ι} : Reachable specs h → (∀ x ∈ h.allocations, x.boundRow < 0) →
      Published specs h
  | step {h : Heap ι} (op : Op ι) (hop : ∀ a ∈ op.addresses, a < h.allocations.length) :
      op.Copied → Published specs h → Published specs (op.call.after h)

lemma Published.reachable (hp : Published specs h) : Reachable specs h := by
  induction hp with
  | unbound hr _ => exact hr
  | step op hop _ _ ih => exact .step op hop ih

lemma Located.get_write (hx : Located specs h a p x) (P : PagedKVPool) :
    (h.write p P a y).allocations[a]? = some y :=
  List.getElem?_set_self (List.getElem?_eq_some_iff.mp hx.get).1

lemma wp_materializePages_mirrored (hm : Mirrored h) (hs : Sound specs h) (pages : ℕ) :
    wp (materializePages a pages true) (fun _ => Mirrored) (fun _ => Mirrored) h := by
  refine wp_materializePages hs hm hm fun p x acquired P hx hlen hP hs' => ?_
  have hexcept := hm.write (y := { x with pageIds := x.pageIds ++ acquired }) (a := a) hP
  rw [wp_ite]
  refine ⟨fun hrow => ?_, fun hrow => ?_⟩
  · refine wp_publishRange_mirrored hs' hexcept (hx.get_write P) hx.pool hrow ?_ ?_
    · show (x.pageIds ++ acquired).length ≤ x.mappedPageCount + (pages - x.mappedPageCount)
      omega
    · intro i page hi hpage
      rw [List.getElem?_append_left hi] at hpage
      simpa [hP] using hm x (List.mem_of_getElem? hx.get) p hx.pool hrow i page hpage
  · exact hexcept.mirrored (hx.get_write P) hx.pool fun h => absurd h hrow

lemma wp_bindRow_mirrored (hm : Mirrored h) (hs : Sound specs h) (row : ℤ) :
    wp (bindRow a row true) (fun _ => Mirrored) (fun _ => Mirrored) h := by
  refine wp_bindRow hs hm fun p x P hx hrow hP hs' => ?_
  refine wp_publishRange_mirrored hs' (hm.write hP) (hx.get_write P) hx.pool hrow ?_ ?_
  · exact Nat.le_add_left _ _
  · exact fun i page hi => absurd hi (Nat.not_lt_zero i)

/-- Each of these calls keeps the mirror. -/
lemma Mirrored.call (hm : Mirrored h) (hs : Sound specs h) {op : Op ι} (hop : op.Copied) :
    Mirrored (op.call.after h) := by
  have hreleased : ∀ {a : ℕ} (_ : Unit) h', Unpublished specs h h' ∧
      h'.allocations = h.allocations.set a {} → Mirrored h' := by
    rintro a - h' ⟨hs', htable⟩
    refine hm.covered hs'.tables (covers_of_mem fun y hy => ?_)
    rw [htable] at hy
    exact (List.mem_or_eq_of_mem_set hy).imp_right fun hy => by simp [hy]
  refine wp_after ?_
  cases op with
  | materializePages a pages copied =>
    obtain rfl : copied = true := hop
    exact wp_materializePages_mirrored hm hs pages
  | bindRow a row copied =>
    obtain rfl : copied = true := hop
    exact wp_bindRow_mirrored hm hs row
  | unbindRow a =>
    cases hp : (h.allocations.getD a {}).pool with
    | none => simpa only [Op.call, unbindRow, wp_bind, wp_load, hp, wp_pure] using hm
    | some p =>
      have hx := hs.located hp
      refine wp_mono (wp_unbindRow hs hx) ?_ fun _ _ he => he.elim
      rintro - _ ⟨-, P, rfl, hP⟩
      exact hm.rewrite hx.get hP fun hrow => absurd hrow (by simp)
  | cancelUnmappedEntitlement a =>
    refine wp_cancelUnmappedEntitlement hs hm fun _ _ _ hx hP _ => ?_
    exact hm.rewrite hx.get hP fun _ => ⟨rfl, rfl, List.prefix_rfl⟩
  | trimPages a pages =>
    refine wp_trimPages_of hs hm fun p x hx => ?_
    exact hm.rewrite hx.get rfl fun _ => ⟨rfl, rfl, List.take_prefix ..⟩
  | setPageEntitlement a pages =>
    refine wp_setPageEntitlement_of hs hm fun _ _ _ hx hP _ => ?_
    exact hm.rewrite hx.get hP fun _ => ⟨rfl, rfl, List.prefix_rfl⟩
  | release a => exact wp_mono (wp_release hs a) hreleased fun _ _ he => he.elim
  | reserve p pages hosted =>
    rw [Op.call, wp_discard]
    refine wp_mono (wp_reserve hs p pages hosted) ?_ (by rintro - _ rfl; exact hm)
    rintro - h' ⟨hs', -, htable⟩
    exact hm.covered hs'.tables (htable ▸ covers_append (by simp))
  | reserveBundle reservations hosted =>
    rw [Op.call, wp_discard]
    refine wp_mono (wp_reservePagedKVBundle hs reservations hosted) ?_ ?_
    · rintro - h' ⟨hs', htable⟩
      exact hm.covered hs'.tables
        (htable ▸ covers_append (by simp [PagedKVReservation.allocation]))
    · rintro - h' ⟨hs', n, htable⟩
      exact hm.covered hs'.tables (htable ▸ covers_append (by simp))
  | resizeBundle changes hosted =>
    refine wp_mono (wp_resizePagedKVBundle hs changes hosted) ?_ (by rintro - _ rfl; exact hm)
    rintro - h' ⟨hs', htable⟩
    exact hm.covered hs'.tables (htable ▸ covers_applied changes _)
  | construct => exact hm.covered (fun _ => rfl) (covers_append (by simp))
  | moveConstruct other =>
    simp only [Op.call, moveConstruct, wp_discard, wp_bind, wp_load, wp_construct, wp_store]
    refine hm.covered (fun _ => rfl) (covers_of_mem fun y hy => ?_)
    rcases List.mem_or_eq_of_mem_set hy with hy | rfl
    · rw [List.mem_append, List.mem_singleton] at hy
      exact hy.elim Or.inl fun hy => hy ▸ getD_mem_or ..
    · exact Or.inr (by simp)
  | moveAssign a other =>
    simp only [Op.call, moveAssign, wp_ite, wp_bind]
    refine ⟨fun _ => hm, fun _ => ?_⟩
    refine wp_mono (wp_release hs a) (fun _ h' hpost => ?_) fun _ _ he => he.elim
    simp only [wp_bind, wp_load, wp_store]
    refine (hreleased () h' hpost).covered (fun _ => rfl) (covers_of_mem fun y hy => ?_)
    rcases List.mem_or_eq_of_mem_set hy with hy | rfl
    · rcases List.mem_or_eq_of_mem_set hy with hy | rfl
      · exact Or.inl hy
      · exact getD_mem_or ..
    · exact Or.inr (by simp)

lemma Published.mirrored (hp : Published specs h) : Mirrored h := by
  induction hp with
  | unbound _ hunbound => exact fun x hx _ _ hrow => absurd (hunbound x hx) (not_lt.mpr hrow)
  | step op _ hop hp ih => exact ih.call hp.reachable.sound hop

/-- In every run of calls on any number of allocations and pools, bundles and moves included, the
first `mapped_page_count` entries of a bound allocation's row are its `page_ids`, in order. -/
theorem block_table_mirror (hp : Published specs h) : ∀ x ∈ h.allocations, ∀ p,
    x.pool = some p → 0 ≤ x.boundRow →
      (List.range x.mappedPageCount).map ((h.pools p).blockTables x.boundRow.toNat) =
        x.pageIds := by
  intro x hx p hxp hrow
  refine List.ext_getElem (by simp [mappedPageCount]) fun i _ hi => ?_
  simpa using hp.mirrored x hx p hxp hrow i _ (List.getElem?_eq_getElem hi)

/-- Bind, map two pages, resize to one, move, map two others, and bind again beside a new owner of
the first row. -/
def rebindingRun : List (Op Unit) :=
  [.bindRow 0 0 true, .materializePages 0 2 true, .resizeBundle [⟨some 0, 1, 3⟩] true,
    .moveConstruct 0, .materializePages 1 3 true, .unbindRow 1, .bindRow 1 1 true,
    .reserve () 1 true, .bindRow 2 0 true, .materializePages 2 1 true]

theorem block_table_mirror_rebindingRun :
    ∃ h : Heap Unit, Published (fun _ => smallSpec) h ∧
      h.allocations.map (·.boundRow) = [-1, 1, 0] ∧
      h.allocations.map (·.pageIds) = [[], [0, 1, 2], [3]] ∧
      ∀ x ∈ h.allocations, ∀ p, x.pool = some p → 0 ≤ x.boundRow →
        (List.range x.mappedPageCount).map ((h.pools p).blockTables x.boundRow.toNat) =
          x.pageIds := by
  have hstart : Published (fun _ => smallSpec)
      ((Op.reserve () 3 true).call.after (Heap.initial (fun _ => smallSpec) 0)) :=
    .unbound (.step _ (by decide) (.initial 0)) (by decide)
  have hp : Published (fun _ => smallSpec) (rebindingRun.foldl (fun h op => op.call.after h) _) :=
    .step _ (by decide) rfl <| .step _ (by decide) rfl <| .step _ (by decide) trivial <|
      .step _ (by decide) rfl <| .step _ (by decide) trivial <| .step _ (by decide) rfl <|
      .step _ (by decide) trivial <| .step _ (by decide) trivial <| .step _ (by decide) rfl <|
      .step _ (by decide) rfl hstart
  exact ⟨_, hp, by decide, by decide, block_table_mirror hp⟩

end NInfer.PagedKV
