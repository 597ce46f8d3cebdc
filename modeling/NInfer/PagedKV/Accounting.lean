import NInfer.Foundation.SlotSum
import NInfer.PagedKV.Pool

/-!
# The books of a pool

What a pool records about itself (free pages, mapped and entitled counts, rows in use) is a copy of
what its allocations hold.  `Sound` says so for every pool of a heap, as four conservation laws
over the table of allocations; every operation is then an exchange between one pool and one
allocation (`Exchange`), and `Sound.exchange` carries the laws across it.
-/

namespace NInfer.PagedKV

variable {ι : Type}

/-! ## What an allocation holds of a pool -/

namespace PagedKVAllocation

/-- The allocation's own invariant, against the shapes of the pools. -/
structure WellFormed (specs : ι → PagedKVPoolSpec) (x : PagedKVAllocation ι) : Prop where
  mapped_le : x.mappedPageCount ≤ x.pageEntitlement
  entitlement_le : ∀ p, x.pool = some p → x.pageEntitlement ≤ (specs p).logicalPageCapacity
  row_lt : ∀ p, x.pool = some p → x.boundRow < (specs p).tableRows
  row_ge : -1 ≤ x.boundRow
  empty : x.pool = none → x = {}

lemma wellFormed_empty (specs : ι → PagedKVPoolSpec) : WellFormed specs {} where
  mapped_le := Nat.le_refl _
  entitlement_le := by simp
  row_lt := by simp
  row_ge := Int.le_refl _
  empty := fun _ => rfl

variable [DecidableEq ι]

/-- The physical pages of `p` the allocation has mapped. -/
def pagesIn (p : ι) (x : PagedKVAllocation ι) : Multiset ℕ :=
  if x.pool = some p then x.pageIds else 0

/-- How many pages of `p` the allocation has mapped. -/
def mappedIn (p : ι) (x : PagedKVAllocation ι) : ℕ :=
  if x.pool = some p then x.mappedPageCount else 0

/-- How many pages of `p` the allocation is entitled to. -/
def entitledIn (p : ι) (x : PagedKVAllocation ι) : ℕ :=
  if x.pool = some p then x.pageEntitlement else 0

/-- The block-table row of `p` the allocation is bound to, if any. -/
def rowsIn (p : ι) (x : PagedKVAllocation ι) : Multiset ℕ :=
  if x.pool = some p ∧ 0 ≤ x.boundRow then {x.boundRow.toNat} else 0

@[simp] lemma entitledIn_empty (p : ι) : entitledIn p {} = 0 := rfl

@[simp] lemma rowsIn_empty (p : ι) : rowsIn p {} = 0 := rfl

lemma card_pagesIn (p : ι) (x : PagedKVAllocation ι) : (x.pagesIn p).card = x.mappedIn p := by
  unfold pagesIn mappedIn
  split <;> rfl

end PagedKVAllocation

open PagedKVAllocation

/-- The allocation `x` holds nothing of the pools other than `p`. -/
def OnlyIn (p : ι) (x : PagedKVAllocation ι) : Prop := ∀ q, x.pool = some q → q = p

lemma onlyIn_of_pool_eq {x : PagedKVAllocation ι} {p : ι} (hp : x.pool = some p) : OnlyIn p x := by
  intro q hq
  rw [hp] at hq
  exact (Option.some.inj hq).symm

lemma onlyIn_empty (p : ι) : OnlyIn p {} := by
  intro q hq
  cases hq

variable {table : List (PagedKVAllocation ι)} {spec : PagedKVPoolSpec} {a : ℕ}

lemma OnlyIn.slotSum_set {M : Type} [AddCommMonoid M] (f : ι → PagedKVAllocation ι → M)
    (hf : ∀ q z, z.pool ≠ some q → f q z = 0) {p q : ι} (hq : q ≠ p) {x y : PagedKVAllocation ι}
    (hxa : table[a]? = some x) (hx : OnlyIn p x) (hy : OnlyIn p y) :
    slotSum (f q) (table.set a y) = slotSum (f q) table := by
  have hset := NInfer.slotSum_set (f q) hxa y
  rwa [hf q x fun h => hq (hx q h), hf q y fun h => hq (hy q h), add_zero, add_zero] at hset

variable [DecidableEq ι]

/-- The rows a pool has marked as in use. -/
def PagedKVPool.usedRows (pool : PagedKVPool) : Multiset ℕ :=
  (Multiset.range pool.spec.tableRows).filter fun r => pool.rowInUse.getD r false = true

/-- The books of one pool agree with the table of allocations. -/
structure Balanced (spec : PagedKVPoolSpec) (pool : PagedKVPool) (p : ι)
    (table : List (PagedKVAllocation ι)) : Prop where
  spec_eq : pool.spec = spec
  free_sorted : pool.freePageIds.Pairwise (· ≤ ·)
  pages : (pool.freePageIds : Multiset ℕ) + slotSum (pagesIn p) table =
    Multiset.range spec.pageGroupCount
  mapped : pool.mappedPages = slotSum (mappedIn p) table
  entitled : pool.entitledPages = slotSum (entitledIn p) table
  entitled_le : pool.entitledPages ≤ spec.pageGroupCount
  rows_length : pool.rowInUse.length = spec.tableRows
  rows : pool.usedRows = slotSum (rowsIn p) table

/-- The invariant of the heap. -/
structure Sound (specs : ι → PagedKVPoolSpec) (h : Heap ι) : Prop where
  balanced : ∀ p, Balanced (specs p) (h.pools p) p h.allocations
  wellFormed : ∀ x ∈ h.allocations, x.WellFormed specs
  not_wrapped : h.wrapped = false

lemma Balanced.free_strictMono {pool : PagedKVPool} {p : ι} (hb : Balanced spec pool p table) :
    pool.freePageIds.Pairwise (· < ·) := by
  have hnodup : (pool.freePageIds : Multiset ℕ).Nodup := by
    refine Multiset.nodup_of_le ?_ (Multiset.nodup_range spec.pageGroupCount)
    rw [← hb.pages]
    exact Multiset.le_add_right _ _
  have hne : pool.freePageIds.Pairwise (· ≠ ·) := Multiset.coe_nodup.mp hnodup
  exact (hb.free_sorted.and hne).imp fun ⟨hle, hne⟩ => lt_of_le_of_ne hle hne

/-- Free and mapped pages add up to the pool. -/
lemma Balanced.free_add_mapped {pool : PagedKVPool} {p : ι} (hb : Balanced spec pool p table) :
    pool.freePageIds.length + slotSum (mappedIn p) table = spec.pageGroupCount := by
  have hcard : (slotSum (pagesIn p) table).card = slotSum (mappedIn p) table := by
    clear hb
    induction table with
    | nil => rfl
    | cons x table ih => simp only [slotSum_cons, Multiset.card_add, ih, card_pagesIn]
  have := congrArg Multiset.card hb.pages
  rwa [Multiset.card_add, hcard, Multiset.card_range] at this

/-- The heap before the first call is sound. -/
lemma sound_initial (specs : ι → PagedKVPoolSpec) (tables : ι → ℕ → ℕ → ℕ) :
    Sound specs (Heap.initial specs tables) where
  balanced p :=
    { spec_eq := rfl
      free_sorted := List.pairwise_le_range
      pages := by simp [Heap.initial, PagedKVPool.create, Multiset.range]
      mapped := rfl
      entitled := rfl
      entitled_le := Nat.zero_le _
      rows_length := by simp [Heap.initial, PagedKVPool.create]
      rows := by
        refine Multiset.filter_eq_nil.mpr fun r hr => ?_
        have hr : r < (specs p).tableRows := Multiset.mem_range.mp hr
        simp [Heap.initial, PagedKVPool.create, hr] }
  wellFormed := by simp [Heap.initial]
  not_wrapped := rfl

/-! ## Exchanges between a pool and an allocation -/

/-- Replacing the pool's record `P` by `P'` and the allocation `x` by `y` leaves the books of `p`
balanced: what the pool loses the allocation gains, and conversely. -/
structure Exchange (specs : ι → PagedKVPoolSpec) (p : ι) (P P' : PagedKVPool)
    (x y : PagedKVAllocation ι) : Prop where
  spec_eq : P'.spec = P.spec
  free_sorted : P'.freePageIds.Pairwise (· ≤ ·)
  pages : (P'.freePageIds : Multiset ℕ) + y.pagesIn p = (P.freePageIds : Multiset ℕ) + x.pagesIn p
  mapped : P'.mappedPages + x.mappedIn p = P.mappedPages + y.mappedIn p
  entitled : P'.entitledPages + x.entitledIn p = P.entitledPages + y.entitledIn p
  entitled_le : P'.entitledPages ≤ (specs p).pageGroupCount
  rows_length : P'.rowInUse.length = P.rowInUse.length
  rows : P'.usedRows + x.rowsIn p = P.usedRows + y.rowsIn p
  old_only : OnlyIn p x
  new_only : OnlyIn p y
  wellFormed : y.WellFormed specs

variable {specs : ι → PagedKVPoolSpec} {h : Heap ι}

/-- The heap with one pool and one allocation rewritten. -/
abbrev Heap.write (h : Heap ι) (p : ι) (P : PagedKVPool) (a : ℕ) (y : PagedKVAllocation ι) :
    Heap ι :=
  { h with pools := Function.update h.pools p P, allocations := h.allocations.set a y }

/-- An update of a pool that leaves its device table alone leaves every device table alone. -/
lemma blockTables_update {pools : ι → PagedKVPool} {p : ι} {P : PagedKVPool}
    (hP : P.blockTables = (pools p).blockTables) (q : ι) :
    (Function.update pools p P q).blockTables = (pools q).blockTables := by
  by_cases hq : q = p
  · subst hq
    simpa using hP
  · simp [hq]

lemma Heap.write_self {p : ι} {x : PagedKVAllocation ι} (hx : h.allocations[a]? = some x) :
    h.write p (h.pools p) a x = h := by
  obtain ⟨hlt, rfl⟩ := List.getElem?_eq_some_iff.mp hx
  simp [Heap.write]

lemma Heap.write_write {p : ι} {P P' : PagedKVPool} {x y : PagedKVAllocation ι} :
    (h.write p P a x).write p P' a y = h.write p P' a y := by
  simp [Heap.write]

/-- An exchange keeps a sound heap sound. -/
lemma Sound.exchange (hs : Sound specs h) {p : ι} {P' : PagedKVPool} {x y : PagedKVAllocation ι}
    (hxa : h.allocations[a]? = some x) (he : Exchange specs p (h.pools p) P' x y) :
    Sound specs (h.write p P' a y) where
  balanced q := by
    by_cases hq : q = p
    · subst hq
      have hb := hs.balanced q
      have hset := fun {M : Type} [AddCommMonoid M] (f : PagedKVAllocation ι → M) =>
        slotSum_set f hxa y
      simp only [Function.update_self]
      refine ⟨he.spec_eq.trans hb.spec_eq, he.free_sorted, ?_, ?_, ?_, he.entitled_le,
        he.rows_length.trans hb.rows_length, ?_⟩
      · have hp := hset (pagesIn q)
        rw [← hb.pages]
        refine add_right_cancel (b := x.pagesIn q) ?_
        rw [add_assoc, hp, add_comm (slotSum _ _), ← add_assoc, he.pages]
        abel
      · have hp := hset (mappedIn q)
        have := he.mapped
        have := hb.mapped
        omega
      · have hp := hset (entitledIn q)
        have := he.entitled
        have := hb.entitled
        omega
      · have hp := hset (rowsIn q)
        refine add_right_cancel (b := x.rowsIn q) ?_
        rw [hp, he.rows, hb.rows]
    · have hb := hs.balanced q
      simp only [Function.update_of_ne hq]
      refine ⟨hb.spec_eq, hb.free_sorted, ?_, ?_, ?_, hb.entitled_le, hb.rows_length, ?_⟩
      · rw [OnlyIn.slotSum_set pagesIn (fun r z hz => if_neg hz) hq hxa he.old_only he.new_only]
        exact hb.pages
      · rw [OnlyIn.slotSum_set mappedIn (fun r z hz => if_neg hz) hq hxa he.old_only he.new_only]
        exact hb.mapped
      · rw [OnlyIn.slotSum_set entitledIn (fun r z hz => if_neg hz) hq hxa he.old_only he.new_only]
        exact hb.entitled
      · rw [OnlyIn.slotSum_set rowsIn (fun r z hz => if_neg fun hr => hz hr.1) hq hxa he.old_only
          he.new_only]
        exact hb.rows
  wellFormed := by
    intro z hz
    rcases List.mem_or_eq_of_mem_set hz with hz | rfl
    · exact hs.wellFormed z hz
    · exact he.wellFormed
  not_wrapped := hs.not_wrapped

/-- The books only see the table through its totals, so a table with the same totals will do. -/
lemma Sound.retable (hs : Sound specs h)
    (hsum : ∀ {M : Type} [AddCancelCommMonoid M] (f : PagedKVAllocation ι → M), f {} = 0 →
      slotSum f table = slotSum f h.allocations)
    (hwf : ∀ x ∈ table, x.WellFormed specs) :
    Sound specs { h with allocations := table } where
  balanced p := by
    have hb := hs.balanced p
    refine ⟨hb.spec_eq, hb.free_sorted, ?_, ?_, ?_, hb.entitled_le, hb.rows_length, ?_⟩
    · rw [hsum (pagesIn p) rfl]
      exact hb.pages
    · rw [hsum (mappedIn p) rfl]
      exact hb.mapped
    · rw [hsum (entitledIn p) rfl]
      exact hb.entitled
    · rw [hsum (rowsIn p) rfl]
      exact hb.rows
  wellFormed := hwf
  not_wrapped := hs.not_wrapped

/-- Constructing an empty allocation. -/
lemma Sound.append_empty (hs : Sound specs h) :
    Sound specs { h with allocations := h.allocations ++ [{}] } := by
  refine hs.retable (fun f hf => by simp [hf]) fun x hx => ?_
  rcases List.mem_append.mp hx with hx | hx
  · exact hs.wellFormed x hx
  · rw [List.mem_singleton.mp hx]
    exact wellFormed_empty specs

/-- Constructing an allocation that takes something from a pool. -/
lemma Sound.append (hs : Sound specs h) {p : ι} {P' : PagedKVPool} {y : PagedKVAllocation ι}
    (he : Exchange specs p (h.pools p) P' {} y) :
    Sound specs { pools := Function.update h.pools p P',
                  allocations := h.allocations ++ [y], wrapped := h.wrapped } := by
  have hget : (h.allocations ++ [({} : PagedKVAllocation ι)])[h.allocations.length]? =
      some {} := by simp
  simpa [Heap.write] using hs.append_empty.exchange hget he

/-! ## The exchanges the operations perform -/

/-- A run taken out of a list: the rest and the run are a rearrangement of it. -/
lemma coe_take_append_drop_add (l : List ℕ) (first count : ℕ) :
    ((l.take first ++ l.drop (first + count) : List ℕ) : Multiset ℕ) +
      ((l.drop first).take count : List ℕ) = l := by
  have hsplit : l = l.take first ++ ((l.drop first).take count ++ l.drop (first + count)) := by
    rw [← List.drop_drop, List.take_append_drop, List.take_append_drop]
  conv_rhs => rw [hsplit]
  simp only [← Multiset.coe_add]
  abel

/-- The pool after `return_pages`. -/
abbrev PagedKVPool.returned (P : PagedKVPool) (pages : List ℕ) : PagedKVPool :=
  { P with
    freePageIds := (P.freePageIds ++ pages).insertionSort (· ≤ ·)
    mappedPages := P.mappedPages - pages.length }

lemma PagedKVPool.returned_nil {P : PagedKVPool} (hsorted : P.freePageIds.Pairwise (· ≤ ·)) :
    P.returned [] = P := by
  simp [returned, hsorted.insertionSort_eq]

section Exchanges

variable {p : ι} {P : PagedKVPool} {x : PagedKVAllocation ι}

/-- Changing nothing. -/
lemma exchange_refl (hp : x.pool = some p) (hsorted : P.freePageIds.Pairwise (· ≤ ·))
    (hle : P.entitledPages ≤ (specs p).pageGroupCount) (hwf : x.WellFormed specs) :
    Exchange specs p P P x x :=
  ⟨rfl, hsorted, rfl, rfl, rfl, hle, rfl, rfl, onlyIn_of_pool_eq hp, onlyIn_of_pool_eq hp, hwf⟩

/-- Reserving an entitlement. -/
lemma exchange_reserve (hsorted : P.freePageIds.Pairwise (· ≤ ·)) {pages : ℕ}
    (hcap : pages ≤ (specs p).logicalPageCapacity)
    (hfit : P.entitledPages + pages ≤ (specs p).pageGroupCount) :
    Exchange specs p P { P with entitledPages := P.entitledPages + pages }
      {} { pool := some p, pageEntitlement := pages } where
  spec_eq := rfl
  free_sorted := hsorted
  pages := by simp [pagesIn]
  mapped := by simp [mappedIn, mappedPageCount]
  entitled := by simp [entitledIn]
  entitled_le := hfit
  rows_length := rfl
  rows := by
    simp [rowsIn, PagedKVPool.usedRows]
  old_only := onlyIn_empty p
  new_only := onlyIn_of_pool_eq rfl
  wellFormed :=
    { mapped_le := Nat.zero_le _
      entitlement_le := fun q hq => by
        obtain rfl : p = q := Option.some.inj hq
        exact hcap
      row_lt := fun q _ => by
        show (-1 : ℤ) < _
        omega
      row_ge := Int.le_refl _
      empty := fun h => by cases h }

/-- Marking a free row as in use adds it to the rows in use. -/
lemma usedRows_set_true (row : ℕ) (hlen : P.rowInUse.length = P.spec.tableRows)
    (hrow : row < P.spec.tableRows) (hfree : P.rowInUse.getD row false = false) :
    { P with rowInUse := P.rowInUse.set row true }.usedRows = P.usedRows + {row} := by
  have hnot : row ∉ P.usedRows := by
    simpa [PagedKVPool.usedRows] using fun _ => hfree
  have hnodup : P.usedRows.Nodup := (Multiset.nodup_range _).filter _
  refine (Multiset.Nodup.ext ((Multiset.nodup_range _).filter _) ?_).mpr fun r => ?_
  · rw [add_comm]
    exact Multiset.nodup_cons.mpr ⟨hnot, hnodup⟩
  · simp only [PagedKVPool.usedRows]
    by_cases hr : row = r
    · subst hr
      simp [hlen, hrow]
    · simp [hr, Ne.symm hr]

/-- Marking a row as free takes it out of the rows in use. -/
lemma usedRows_set_false {row : ℕ} (hlen : P.rowInUse.length = P.spec.tableRows)
    (hused : row ∈ P.usedRows) :
    { P with rowInUse := P.rowInUse.set row false }.usedRows + {row} = P.usedRows := by
  have hrow : row < P.spec.tableRows ∧ P.rowInUse.getD row false = true := by
    simpa [PagedKVPool.usedRows] using hused
  -- Setting the row again restores the table.
  have hlt : row < P.rowInUse.length := by omega
  have htrue : P.rowInUse[row] = true := by simpa [hlt] using hrow.2
  have hback : (P.rowInUse.set row false).set row true = P.rowInUse := by
    rw [List.set_set, ← htrue, List.set_getElem_self]
  have hset := usedRows_set_true (P := { P with rowInUse := P.rowInUse.set row false }) row
    (by simpa using hlen) hrow.1 (by simp [hlt])
  rw [← hset]
  simp only [hback]

variable (hp : x.pool = some p) (he : Exchange specs p P P x x)

include hp he

/-- Taking a run of free pages. -/
lemma exchange_take {first count : ℕ} (hfirst : first + count ≤ P.freePageIds.length)
    (hcount : x.mappedPageCount + count ≤ x.pageEntitlement) :
    Exchange specs p P
      { P with
        freePageIds := P.freePageIds.take first ++ P.freePageIds.drop (first + count)
        mappedPages := P.mappedPages + count }
      x { x with pageIds := x.pageIds ++ (P.freePageIds.drop first).take count } :=
  { he with
    free_sorted := by
      refine he.free_sorted.sublist ?_
      conv_rhs => rw [← List.take_append_drop first P.freePageIds]
      refine List.Sublist.append_left ?_ _
      rw [← List.drop_drop]
      exact List.drop_sublist _ _
    pages := by
      simp only [pagesIn, hp, if_true]
      rw [← coe_take_append_drop_add P.freePageIds first count]
      simp only [← Multiset.coe_add]
      abel
    mapped := by
      simp only [mappedIn, hp, if_true, mappedPageCount, List.length_append, List.length_take,
        List.length_drop]
      omega
    wellFormed :=
      { he.wellFormed with
        mapped_le := by
          simp only [mappedPageCount, List.length_append, List.length_take] at hcount ⊢
          omega
        empty := fun h => by simp [hp] at h } }

/-- Changing an entitlement. -/
lemma exchange_entitlement (hx : x.pageEntitlement ≤ P.entitledPages) {pages : ℕ}
    (hmapped : x.mappedPageCount ≤ pages) (hcap : pages ≤ (specs p).logicalPageCapacity)
    (hfit : P.entitledPages - x.pageEntitlement + pages ≤ (specs p).pageGroupCount) :
    Exchange specs p P { P with entitledPages := P.entitledPages - x.pageEntitlement + pages }
      x { x with pageEntitlement := pages } :=
  { he with
    entitled := by
      simp only [entitledIn, hp, if_true]
      omega
    entitled_le := hfit
    wellFormed :=
      { he.wellFormed with
        mapped_le := hmapped
        entitlement_le := fun q hq => by
          obtain rfl : p = q := Option.some.inj (hp.symm.trans hq)
          exact hcap
        empty := fun h => by simp [hp] at h } }

/-- Returning the pages from `pages` on. -/
lemma exchange_return (hmapped : x.mappedPageCount ≤ P.mappedPages) (pages : ℕ) :
    Exchange specs p P (P.returned (x.pageIds.drop pages))
      x { x with pageIds := x.pageIds.take pages } :=
  { he with
    free_sorted := List.pairwise_insertionSort _ _
    pages := by
      have hperm := List.perm_insertionSort (· ≤ ·) (P.freePageIds ++ x.pageIds.drop pages)
      simp only [pagesIn, hp]
      rw [Multiset.coe_eq_coe.mpr hperm]
      conv_rhs => rw [← List.take_append_drop pages x.pageIds]
      simp only [← Multiset.coe_add]
      abel_nf
    mapped := by
      unfold mappedPageCount at hmapped
      simp only [mappedIn, hp, if_true, mappedPageCount, List.length_take, List.length_drop]
      omega
    wellFormed :=
      { he.wellFormed with
        mapped_le := by
          have hle : x.pageIds.length ≤ x.pageEntitlement := he.wellFormed.mapped_le
          show (x.pageIds.take pages).length ≤ x.pageEntitlement
          rw [List.length_take]
          omega
        empty := fun h => by simp [hp] at h } }

/-- Giving everything back; the row has been unbound before. -/
lemma exchange_release (hmapped : x.mappedPageCount ≤ P.mappedPages)
    (hx : x.pageEntitlement ≤ P.entitledPages) (hrow : x.boundRow < 0) :
    Exchange specs p P
      { P.returned x.pageIds with entitledPages := P.entitledPages - x.pageEntitlement + 0 }
      x {} :=
  { he with
    free_sorted := List.pairwise_insertionSort _ _
    pages := by
      have hperm := List.perm_insertionSort (· ≤ ·) (P.freePageIds ++ x.pageIds)
      simp only [pagesIn, hp, if_true, reduceCtorEq, if_false, add_zero]
      rw [Multiset.coe_eq_coe.mpr hperm, ← Multiset.coe_add]
    mapped := by
      unfold mappedPageCount at hmapped
      simp only [mappedIn, hp, if_true, reduceCtorEq, if_false, mappedPageCount]
      omega
    entitled := by
      simp only [entitledIn, hp, if_true, reduceCtorEq, if_false]
      omega
    entitled_le := (Nat.sub_le ..).trans he.entitled_le
    rows := by
      have hnot : ¬0 ≤ x.boundRow := by omega
      simp only [rowsIn, hnot, and_false, if_false, reduceCtorEq, false_and, PagedKVPool.usedRows]
    new_only := onlyIn_empty p
    wellFormed := wellFormed_empty specs }

/-- Binding a row that is not in use. -/
lemma exchange_bind (hspec : P.spec = specs p) (hlen : P.rowInUse.length = P.spec.tableRows)
    (hunbound : x.boundRow < 0) (row : ℤ) (hpos : 0 ≤ row) (hrow : row < (specs p).tableRows)
    (hfree : P.rowInUse.getD row.toNat false = false) :
    Exchange specs p P { P with rowInUse := P.rowInUse.set row.toNat true }
      x { x with boundRow := row } :=
  { he with
    rows_length := by simp
    rows := by
      have hnot : ¬0 ≤ x.boundRow := by omega
      rw [usedRows_set_true _ hlen (by rw [hspec]; omega) hfree]
      simp only [rowsIn, hp, hnot, hpos, and_self, and_false, if_true, if_false, add_zero]
    wellFormed :=
      { he.wellFormed with
        row_lt := fun q hq => by
          obtain rfl : p = q := Option.some.inj (hp.symm.trans hq)
          exact hrow
        row_ge := by
          show (-1 : ℤ) ≤ row
          omega
        empty := fun h => by simp [hp] at h } }

/-- Unbinding. -/
lemma exchange_unbind (hlen : P.rowInUse.length = P.spec.tableRows) (hbound : 0 ≤ x.boundRow)
    (hused : x.boundRow.toNat ∈ P.usedRows) :
    Exchange specs p P { P with rowInUse := P.rowInUse.set x.boundRow.toNat false }
      x { x with boundRow := -1 } :=
  { he with
    rows_length := by simp
    rows := by
      have hnot : ¬(0 : ℤ) ≤ -1 := by decide
      simp only [rowsIn, hp, hbound, hnot, and_false, if_false, add_zero]
      exact usedRows_set_false hlen hused
    wellFormed :=
      { he.wellFormed with
        row_lt := fun q _ => by
          show (-1 : ℤ) < _
          omega
        row_ge := Int.le_refl _
        empty := fun h => by simp [hp] at h } }

end Exchanges

end NInfer.PagedKV
