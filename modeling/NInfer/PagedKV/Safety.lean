import NInfer.PagedKV.Accounting

/-!
# Every call on the paged KV heap keeps its books

Each operation is first reduced to the heap it leaves behind, by a weakest-precondition lemma that
holds under the arithmetic side conditions of its counters; the side conditions are facts about a
sound heap.  What remains is to exhibit the exchange it performs.
-/

namespace NInfer.PagedKV

open Throwing PagedKVAllocation

variable {ι : Type} [DecidableEq ι] {specs : ι → PagedKVPoolSpec} {h : Heap ι}
  {E : KVError → Heap ι → Prop}

/-! ## Memory accesses -/

omit [DecidableEq ι] in
@[simp] lemma wp_load (a : ℕ) {Q : PagedKVAllocation ι → Heap ι → Prop} :
    wp (load a) Q E h ↔ Q (h.allocations.getD a {}) h := Iff.rfl

variable {Q : Unit → Heap ι → Prop} {a pages : ℕ} {changes : List PagedKVResize}
    {seen : List (ℕ × ι)} {I : Heap ι → Prop} {x : PagedKVAllocation ι} {p : ι}

omit [DecidableEq ι] in
@[simp] lemma wp_store (a : ℕ) (x : PagedKVAllocation ι) :
    wp (store a x) Q E h ↔ Q () { h with allocations := h.allocations.set a x } := Iff.rfl

omit [DecidableEq ι] in
@[simp] lemma wp_construct (x : PagedKVAllocation ι) {Q : ℕ → Heap ι → Prop} :
    wp (construct x) Q E h ↔
      Q h.allocations.length { h with allocations := h.allocations ++ [x] } := Iff.rfl

omit [DecidableEq ι] in
@[simp] lemma wp_loadPool (p : ι) {Q : PagedKVPool → Heap ι → Prop} :
    wp (loadPool p) Q E h ↔ Q (h.pools p) h := Iff.rfl

@[simp] lemma wp_modifyPool (p : ι) (f : PagedKVPool → PagedKVPool) :
    wp (modifyPool p f) Q E h ↔
      Q () { h with pools := Function.update h.pools p (f (h.pools p)) } := Iff.rfl

omit [DecidableEq ι] in
lemma wp_counterSub {a b : ℕ} (hba : b ≤ a) (ha : a < 2 ^ 32) {Q : ℕ → Heap ι → Prop} :
    wp (counterSub a b) Q E h ↔ Q (a - b) h := by
  have hmod : (a + 2 ^ 32 - b) % 2 ^ 32 = a - b := by omega
  have hlt : ¬a < b := by omega
  simp only [counterSub, wp_bind, wp_modify, wp_pure, hmod, hlt, decide_false, Bool.or_false]

/-! ## Bounds of a sound heap -/

omit [DecidableEq ι] in
/-- An address that holds an allocation with a pool is the address of a constructed object. -/
lemma getElem?_of_getD {a : ℕ} (hp : (h.allocations.getD a {}).pool = some p) :
    h.allocations[a]? = some (h.allocations.getD a {}) := by
  rw [List.getD_eq_getElem?_getD] at hp ⊢
  cases hget : h.allocations[a]? with
  | none =>
    rw [hget] at hp
    cases hp
  | some y => rfl

omit [DecidableEq ι] in
lemma pageGroupCount_lt (spec : PagedKVPoolSpec) : spec.pageGroupCount < 2 ^ 31 := by
  have := spec.pageGroupCount_le
  unfold int32Max at this
  omega

namespace Sound

variable (hs : Sound specs h) (p : ι)

include hs

lemma entitled_le : (h.pools p).entitledPages ≤ (specs p).pageGroupCount :=
  (hs.balanced p).entitled_le

lemma free_add_mapped :
    (h.pools p).freePageIds.length + (h.pools p).mappedPages = (specs p).pageGroupCount := by
  rw [(hs.balanced p).mapped]
  exact (hs.balanced p).free_add_mapped

variable {p} {x : PagedKVAllocation ι} (hx : x ∈ h.allocations) (hp : x.pool = some p)

include hx hp

lemma mapped_ge : x.mappedPageCount ≤ (h.pools p).mappedPages := by
  have hle := le_slotSum (mappedIn p) hx
  rwa [← (hs.balanced p).mapped, mappedIn, if_pos hp] at hle

lemma entitled_ge : x.pageEntitlement ≤ (h.pools p).entitledPages := by
  have hle := le_slotSum (entitledIn p) hx
  rwa [← (hs.balanced p).entitled, entitledIn, if_pos hp] at hle

/-- What an allocation may still map is free: the entitlements of a pool are backed by pages. -/
lemma entitlement_backed :
    x.pageEntitlement - x.mappedPageCount ≤ (h.pools p).freePageIds.length := by
  obtain ⟨a, hlt, rfl⟩ := List.getElem_of_mem hx
  have hget : h.allocations[a]? = some h.allocations[a] := List.getElem?_eq_getElem hlt
  -- Suppose the allocation mapped all it is entitled to: the table would still fit the pool.
  have hmapped := slotSum_set (mappedIn p) hget {}
  have hentitled := slotSum_set (entitledIn p) hget {}
  have hle : slotSum (mappedIn p) (h.allocations.set a {}) ≤
      slotSum (entitledIn p) (h.allocations.set a {}) := by
    refine slotSum_le_slotSum fun z hz => ?_
    have hwf : z.WellFormed specs := by
      rcases List.mem_or_eq_of_mem_set hz with hz | rfl
      · exact hs.wellFormed z hz
      · exact wellFormed_empty specs
    unfold mappedIn entitledIn
    split
    · exact hwf.mapped_le
    · exact Nat.le_refl _
  have hfree := (hs.balanced p).free_add_mapped
  have hcap := hs.entitled_le p
  rw [(hs.balanced p).entitled] at hcap
  simp only [entitledIn_empty] at hmapped hentitled
  simp only [mappedIn, entitledIn, if_pos hp] at hmapped hentitled
  omega

end Sound

/-! ## The pool's functions -/

lemma Sound.wp_canReserve (hs : Sound specs h) (p : ι) (n : ℕ) {Q : Bool → Heap ι → Prop} :
    wp (canReserve p n) Q E h ↔
      Q (decide (n ≠ 0 ∧ n ≤ (specs p).logicalPageCapacity ∧
        n ≤ (specs p).pageGroupCount - (h.pools p).entitledPages)) h := by
  have hlt := pageGroupCount_lt (specs p)
  simp only [canReserve, wp_bind, wp_loadPool, (hs.balanced p).spec_eq]
  rw [wp_counterSub (hs.entitled_le p) (by omega), wp_pure]

lemma wp_replaceEntitlement {oldPages newPages : ℕ}
    (hold : oldPages ≤ (h.pools p).entitledPages) (hfit : (h.pools p).entitledPages < 2 ^ 32)
    (hnew : (h.pools p).entitledPages - oldPages + newPages < 2 ^ 32) :
    wp (replaceEntitlement p oldPages newPages) Q E h ↔
      Q () { h with
        pools := Function.update h.pools p
          { h.pools p with
            entitledPages := (h.pools p).entitledPages - oldPages + newPages } } := by
  simp only [replaceEntitlement, wp_bind, wp_loadPool]
  rw [wp_counterSub hold hfit, wp_modifyPool, Nat.mod_eq_of_lt hnew]

lemma wp_returnPages {pages : List ℕ} (hlen : pages.length ≤ (h.pools p).mappedPages)
    (hfit : (h.pools p).mappedPages < 2 ^ 32) (hsorted : (h.pools p).freePageIds.Pairwise (· ≤ ·)) :
    wp (returnPages p pages) Q E h ↔
      Q () { h with pools := Function.update h.pools p ((h.pools p).returned pages) } := by
  by_cases hnil : pages = []
  · subst hnil
    simp only [returnPages, if_true, wp_pure, PagedKVPool.returned_nil hsorted,
      Function.update_eq_self]
  · simp only [returnPages, hnil, if_false, wp_bind, wp_loadPool]
    rw [wp_counterSub hlen hfit, wp_modifyPool]

/-- The run `take_pages` selects lies inside the free list. -/
lemma selectRun_add_le (free : List ℕ) (count : ℕ) (preferredFirst : ℤ)
    (hne : selectRun free count preferredFirst ≠ free.length) :
    selectRun free count preferredFirst + count ≤ free.length := by
  have hrun : ∀ first, runAt free count first = true → first + count ≤ free.length := by
    intro first hfirst
    simp only [runAt, Bool.and_eq_true, decide_eq_true_eq] at hfirst
    exact hfirst.1
  simp only [selectRun] at hne ⊢
  split at hne
  · rename_i hpreferred
    rw [if_pos hpreferred]
    exact hrun _ hpreferred.2.2
  · rename_i hpreferred
    rw [if_neg hpreferred]
    cases hfind : (List.range (free.length + 1 - count)).find? (runAt free count) with
    | none =>
      rw [hfind] at hne
      exact absurd rfl hne
    | some first => exact hrun first (List.find?_some hfind)

lemma wp_takePages {count : ℕ} {preferredFirst : ℤ} (hcount : count ≠ 0)
    (hfree : count ≤ (h.pools p).freePageIds.length)
    (hfit : (h.pools p).mappedPages + count < 2 ^ 32) {Q : List ℕ → Heap ι → Prop}
    (hQ : ∀ first, first + count ≤ (h.pools p).freePageIds.length →
      Q (((h.pools p).freePageIds.drop first).take count)
        { h with
          pools := Function.update h.pools p
            { h.pools p with
              freePageIds := (h.pools p).freePageIds.take first ++
                (h.pools p).freePageIds.drop (first + count)
              mappedPages := (h.pools p).mappedPages + count } }) :
    wp (takePages p count preferredFirst) Q E h := by
  have hnot : ¬count > (h.pools p).freePageIds.length := by omega
  simp only [takePages, wp_bind, wp_loadPool, hcount, if_false, wp_throwIf, hnot, false_imp_iff,
    true_and, not_false_eq_true, true_imp_iff, wp_modifyPool, wp_pure, Nat.mod_eq_of_lt hfit]
  apply hQ
  split
  · omega
  · exact selectRun_add_le _ _ _ ‹_›

/-! ## The operations -/

/-- Block-table contents play no part in the books. -/
lemma Sound.modify_blockTables (hs : Sound specs h) (p : ι) (tables : ℕ → ℕ → ℕ) :
    Sound specs { h with
      pools := Function.update h.pools p { h.pools p with blockTables := tables } } where
  balanced q := by
    by_cases hq : q = p
    · subst hq
      have hb := hs.balanced q
      simp only [Function.update_self]
      exact { hb with }
    · simpa only [Function.update_of_ne hq] using hs.balanced q
  wellFormed := hs.wellFormed
  not_wrapped := hs.not_wrapped

/-- `publish_range` keeps the heap sound and throws only what its own checks throw. -/
lemma wp_publishRange (a firstPage pageCount : ℕ) (copied : Bool) (hs : Sound specs h) :
    wp (publishRange a firstPage pageCount copied) (fun _ => Sound specs)
      (fun e h' => Sound specs h' ∧
        (e = .outOfRange "Paged KV block-table row out of range" ∨ e = .cudaError)) h := by
  simp only [publishRange, wp_bind, wp_load]
  split
  · exact hs
  · rename_i p _
    simp only [wp_ite, wp_bind, wp_loadPool, wp_throwIf]
    refine ⟨fun _ => hs, fun _ => ⟨fun _ => ⟨hs, .inl trivial⟩, fun _ => ?_⟩⟩
    exact ⟨fun _ => ⟨hs, .inr trivial⟩, fun _ => hs.modify_blockTables p _⟩

/-- What a sound heap knows about the allocation at an address. -/
structure Located (specs : ι → PagedKVPoolSpec) (h : Heap ι) (a : ℕ) (p : ι)
    (x : PagedKVAllocation ι) : Prop where
  get : h.allocations[a]? = some x
  pool : x.pool = some p
  wellFormed : x.WellFormed specs
  mapped_le : x.mappedPageCount ≤ (h.pools p).mappedPages
  entitled_le : x.pageEntitlement ≤ (h.pools p).entitledPages
  backed : x.pageEntitlement - x.mappedPageCount ≤ (h.pools p).freePageIds.length

lemma Sound.located (hs : Sound specs h) {a : ℕ} (hp : (h.allocations.getD a {}).pool = some p) :
    Located specs h a p (h.allocations.getD a {}) := by
  have hget := getElem?_of_getD hp
  have hmem := List.mem_of_getElem? hget
  exact ⟨hget, hp, hs.wellFormed _ hmem, hs.mapped_ge hmem hp, hs.entitled_ge hmem hp,
    hs.entitlement_backed hmem hp⟩

/-- The exchange that every operation on a located allocation starts from. -/
lemma Sound.unchanged (hs : Sound specs h) {a : ℕ}
    (hx : Located specs h a p x) : Exchange specs p (h.pools p) (h.pools p) x x :=
  exchange_refl hx.pool (hs.balanced p).free_sorted (hs.entitled_le p) hx.wellFormed

/-- A pool can back `pages` for an allocation in place of its entitlement. -/
abbrev Backs (specs : ι → PagedKVPoolSpec) (h : Heap ι) (p : ι) (x : PagedKVAllocation ι)
    (pages : ℕ) : Prop :=
  pages ≤ (specs p).logicalPageCapacity ∧
    pages ≤ (specs p).pageGroupCount - ((h.pools p).entitledPages - x.pageEntitlement)

lemma Sound.wp_canReplaceEntitlement (hs : Sound specs h)
    (hx : Located specs h a p x) {Q : Bool → Heap ι → Prop}
    (hfits : Backs specs h p x pages → Q true h) (hnot : ¬Backs specs h p x pages → Q false h) :
    wp (canReplaceEntitlement p x.pageEntitlement pages) Q E h := by
  have hle := hx.entitled_le
  have hent := hs.entitled_le p
  have hlt := pageGroupCount_lt (specs p)
  simp only [canReplaceEntitlement, wp_bind, wp_loadPool, if_pos hle, (hs.balanced p).spec_eq]
  rw [wp_counterSub hle (by omega), wp_bind, wp_counterSub (by omega) (by omega), wp_pure]
  by_cases hbacks : Backs specs h p x pages
  · rw [decide_eq_true hbacks]
    exact hfits hbacks
  · rw [decide_eq_false hbacks]
    exact hnot hbacks

lemma wp_setPageEntitlement (hs : Sound specs h) (hx : Located specs h a p x)
    (hsmall : pages < x.mappedPageCount →
      E (.invalidArgument "Paged KV entitlement is smaller than mapped pages") h)
    (hfull : ¬Backs specs h p x pages → E .badAlloc h)
    (hset : ∀ P, P.blockTables = (h.pools p).blockTables → x.mappedPageCount ≤ pages →
      Backs specs h p x pages → Sound specs (h.write p P a { x with pageEntitlement := pages }) →
      Q () (h.write p P a { x with pageEntitlement := pages })) :
    wp (setPageEntitlement a pages) Q E h := by
  have hent := hs.entitled_le p
  have hlt := pageGroupCount_lt (specs p)
  obtain rfl : h.allocations.getD a {} = x := by simp [hx.get]
  simp only [setPageEntitlement, wp_bind, wp_load]
  split
  · rename_i hnone
    exact absurd (hx.pool.symm.trans hnone) (by simp)
  rename_i q hq
  obtain rfl : p = q := Option.some.inj (hx.pool.symm.trans hq)
  simp only [wp_bind, wp_throwIf]
  refine ⟨hsmall, fun hmapped => hs.wp_canReplaceEntitlement hx (fun hbacks => ?_) fun hnot => ?_⟩
  · refine (wp_bind ..).mpr ((wp_throwIf ..).mpr ⟨by simp, fun _ => ?_⟩)
    rw [wp_bind, wp_replaceEntitlement hx.entitled_le (by omega) (by omega)]
    refine hset _ rfl (by omega) hbacks (hs.exchange hx.get ?_)
    exact exchange_entitlement hx.pool (hs.unchanged hx) hx.entitled_le (by omega) hbacks.1
      (by omega)
  · exact (wp_bind ..).mpr ((wp_throwIf ..).mpr ⟨fun _ => hfull hnot, by simp⟩)

lemma wp_setPageEntitlement_of (hs : Sound specs h) (hI : I h)
    (hset : ∀ p x P, Located specs h a p x → P.blockTables = (h.pools p).blockTables →
      Sound specs (h.write p P a { x with pageEntitlement := pages }) →
      I (h.write p P a { x with pageEntitlement := pages })) :
    wp (setPageEntitlement a pages) (fun _ => I) (fun _ => I) h := by
  cases hp : (h.allocations.getD a {}).pool with
  | none => simpa only [setPageEntitlement, wp_bind, wp_load, hp, wp_throw] using hI
  | some p =>
    have hx := hs.located hp
    exact wp_setPageEntitlement hs hx (fun _ => hI) (fun _ => hI) fun P hP _ _ => hset p _ P hx hP

lemma wp_cancelUnmappedEntitlement (hs : Sound specs h) (hI : I h)
    (hset : ∀ p x P, Located specs h a p x → P.blockTables = (h.pools p).blockTables →
      Sound specs (h.write p P a { x with pageEntitlement := x.mappedPageCount }) →
      I (h.write p P a { x with pageEntitlement := x.mappedPageCount })) :
    wp (cancelUnmappedEntitlement a) (fun _ => I) (fun _ => I) h := by
  simp only [cancelUnmappedEntitlement, wp_bind, wp_load]
  split
  · exact hI
  · rename_i p hp
    have hx := hs.located hp
    have hent := hs.entitled_le p
    have hlt := pageGroupCount_lt (specs p)
    have hmapped := hx.wellFormed.mapped_le
    have hcap := hx.wellFormed.entitlement_le p hp
    have hle := hx.entitled_le
    simp only [wp_bind]
    rw [wp_replaceEntitlement hle (by omega) (by omega)]
    refine hset p _ _ hx rfl (hs.exchange hx.get ?_)
    exact exchange_entitlement hp (hs.unchanged hx) hle (Nat.le_refl _) (by omega) (by omega)

/-- Up to its last step `materialize_pages` moves free pages, which are there, to the allocation. -/
lemma wp_materializePages {copied : Bool}
    (hs : Sound specs h) (hsame : Q () h)
    (hthrow : E (.invalidArgument "Paged KV materialize extent is outside entitlement") h)
    (hpublish : ∀ p x acquired P, Located specs h a p x →
      (x.pageIds ++ acquired).length = pages → P.blockTables = (h.pools p).blockTables →
      Sound specs (h.write p P a { x with pageIds := x.pageIds ++ acquired }) →
      wp (if 0 ≤ x.boundRow then publishRange a x.mappedPageCount (pages - x.mappedPageCount) copied
        else return ()) Q E (h.write p P a { x with pageIds := x.pageIds ++ acquired })) :
    wp (materializePages a pages copied) Q E h := by
  simp only [materializePages, wp_bind, wp_load]
  split
  · exact hthrow
  · rename_i p hp
    have hx := hs.located hp
    have hfree := hs.free_add_mapped p
    have hlt := pageGroupCount_lt (specs p)
    have hbacked := hx.backed
    simp only [wp_bind, wp_throwIf]
    refine ⟨fun _ => hthrow, fun hext => ?_⟩
    rw [wp_ite]
    refine ⟨fun _ => hsame, fun hcount => ?_⟩
    rw [wp_bind]
    refine wp_takePages hcount (by omega) (by omega) fun first hfirst => ?_
    rw [wp_bind, wp_store]
    refine hpublish p _ _ _ hx ?_ rfl (hs.exchange hx.get
      (exchange_take hp (hs.unchanged hx) hfirst (by omega)))
    simp only [mappedPageCount, List.length_append, List.length_take, List.length_drop] at *
    omega

/-- `materialize_pages` keeps the heap sound, and is never refused for lack of pages. -/
lemma sound_materializePages (a pages : ℕ) (copied : Bool) (hs : Sound specs h) :
    wp (materializePages a pages copied) (fun _ => Sound specs)
      (fun e h' => Sound specs h' ∧
        e ≠ .logicError "Paged KV entitlement could not be materialized") h := by
  refine wp_materializePages hs hs ⟨hs, by decide⟩ fun _ _ _ _ _ _ _ hs' => ?_
  rw [wp_ite]
  refine ⟨fun _ => ?_, fun _ => hs'⟩
  refine wp_mono (wp_publishRange a _ _ copied hs') (fun _ _ h => h) ?_
  rintro e h' ⟨hs', rfl | rfl⟩
  · exact ⟨hs', by decide⟩
  · exact ⟨hs', by decide⟩

/-- `trim_pages` gives the pages from `pages` on back. -/
lemma wp_trimPages (hs : Sound specs h)
    (hx : Located specs h a p x) (hpages : pages ≤ x.mappedPageCount) :
    wp (trimPages a pages) Q E h ↔ Q () (h.write p ((h.pools p).returned (x.pageIds.drop pages)) a
      { x with pageIds := x.pageIds.take pages }) := by
  have hfree := hs.free_add_mapped p
  have hlt := pageGroupCount_lt (specs p)
  have hsorted := (hs.balanced p).free_sorted
  obtain ⟨pool, ids, entitlement, row⟩ := x
  obtain rfl : pool = some p := hx.pool
  have hmapped : ids.length ≤ _ := hx.mapped_le
  have hlen : (ids.drop pages).length ≤ (h.pools p).mappedPages := by
    rw [List.length_drop]
    omega
  simp only [trimPages, wp_bind, wp_load, List.getD_eq_getElem?_getD, hx.get, Option.getD_some,
    wp_throwIf, not_lt.mpr hpages]
  by_cases heq : pages = ids.length
  · simp [heq, mappedPageCount, PagedKVPool.returned_nil hsorted, Heap.write_self hx.get]
  · simp [mappedPageCount, heq, wp_returnPages hlen (by omega) hsorted]

/-- `trim_pages` either throws at once or trims. -/
lemma wp_trimPages_of (hs : Sound specs h) (hI : I h)
    (htrim : ∀ p x, Located specs h a p x →
      I (h.write p ((h.pools p).returned (x.pageIds.drop pages)) a
        { x with pageIds := x.pageIds.take pages })) :
    wp (trimPages a pages) (fun _ => I) (fun _ => I) h := by
  cases hp : (h.allocations.getD a {}).pool with
  | none => simpa only [trimPages, wp_bind, wp_load, hp, wp_throw] using hI
  | some p =>
    have hx := hs.located hp
    by_cases hpages : pages ≤ (h.allocations.getD a {}).mappedPageCount
    · exact (wp_trimPages hs hx hpages).mpr (htrim p _ hx)
    · simp only [trimPages, wp_bind, wp_load, hp, wp_throwIf]
      exact ⟨fun _ => hI, fun hle => absurd (not_lt.mp hle) hpages⟩

lemma keeps_trimPages (a pages : ℕ) : Keeps (Sound specs) (trimPages (ι := ι) a pages) :=
  fun _ hs => wp_trimPages_of hs hs fun _ _ hx => hs.exchange hx.get
    (exchange_return hx.pool (hs.unchanged hx) hx.mapped_le pages)

/-- Up to its last step `bind_row` marks a row that was not in use. -/
lemma wp_bindRow {a : ℕ} {row : ℤ} {copied : Bool} (hs : Sound specs h)
    (hI : I h)
    (hpublish : ∀ p x P, Located specs h a p x → 0 ≤ row →
      P.blockTables = (h.pools p).blockTables →
      Sound specs (h.write p P a { x with boundRow := row }) →
      wp (publishRange a 0 x.mappedPageCount copied) (fun _ => I) (fun _ => I)
        (h.write p P a { x with boundRow := row })) :
    wp (bindRow a row copied) (fun _ => I) (fun _ => I) h := by
  simp only [bindRow, wp_bind, wp_load]
  split
  · exact hI
  · rename_i p hp
    have hx := hs.located hp
    have hb := hs.balanced p
    simp only [acquireRow, wp_bind, wp_throwIf, wp_loadPool, wp_modifyPool, wp_store]
    refine ⟨fun _ => hI, fun hunbound => ⟨fun _ => hI, fun hrow => ⟨fun _ => hI, fun hfree => ?_⟩⟩⟩
    rw [hb.spec_eq] at hrow
    exact hpublish p _ _ hx (by omega) rfl (hs.exchange hx.get (exchange_bind hp
      (hs.unchanged hx) hb.spec_eq (hb.rows_length.trans (by rw [hb.spec_eq])) (by omega) row
      (by omega) (by omega) (by simpa using hfree)))

lemma keeps_bindRow (a : ℕ) (row : ℤ) (copied : Bool) :
    Keeps (Sound specs) (bindRow (ι := ι) a row copied) := fun _ hs =>
  wp_bindRow hs hs fun _ _ _ _ _ _ hs' =>
    wp_mono (wp_publishRange a _ _ copied hs') (fun _ _ h => h) fun _ _ he => he.1

/-- `unbind_row` does not throw, and afterwards the allocation is not bound. -/
lemma wp_unbindRow (hs : Sound specs h) {a : ℕ} (hx : Located specs h a p x) : wp (unbindRow a)
      (fun _ h' => Sound specs h' ∧ ∃ P, h' = h.write p P a { x with boundRow := -1 } ∧
        P.blockTables = (h.pools p).blockTables)
      (fun _ _ => False) h := by
  have hget : h.allocations.getD a {} = x := by simp [hx.get]
  have hb := hs.balanced p
  simp only [unbindRow, wp_bind, wp_load, hget]
  split
  · rename_i hnone
    rw [hx.pool] at hnone
    cases hnone
  rename_i q hq
  obtain rfl : p = q := Option.some.inj (hx.pool.symm.trans hq)
  simp only [wp_bind, wp_ite, releaseRow, wp_modifyPool, wp_store]
  refine ⟨fun hneg => ⟨hs, h.pools p, ?_, rfl⟩, fun hbound => ⟨?_, _, rfl, rfl⟩⟩
  · -- An unbound row is exactly `-1`.
    have hrow : x.boundRow = -1 := by
      have := hx.wellFormed.row_ge
      omega
    rw [← hrow]
    exact (Heap.write_self hx.get).symm
  · have hmem : x.boundRow.toNat ∈ (h.pools p).usedRows := by
      have hle : x.rowsIn p ≤ slotSum (rowsIn p) h.allocations := by
        have hset := slotSum_set (rowsIn p) hx.get {}
        rw [rowsIn_empty, add_zero] at hset
        rw [← hset]
        exact Multiset.le_add_left _ _
      rw [hb.rows]
      refine Multiset.mem_of_le hle ?_
      simp [rowsIn, hx.pool, show 0 ≤ x.boundRow by omega]
    exact hs.exchange hx.get (exchange_unbind hx.pool (hs.unchanged hx)
      (hb.rows_length.trans (by rw [hb.spec_eq])) (by omega) hmem)

/-- What a call that copies nothing to the device leaves behind. -/
structure Unpublished (specs : ι → PagedKVPoolSpec) (h h' : Heap ι) : Prop where
  sound : Sound specs h'
  tables : ∀ q, (h'.pools q).blockTables = (h.pools q).blockTables

lemma Unpublished.trans {h₀ h' : Heap ι} (hs : Unpublished specs h₀ h)
    (hs' : Unpublished specs h h') : Unpublished specs h₀ h' :=
  ⟨hs'.sound, fun q => (hs'.tables q).trans (hs.tables q)⟩

variable {h₀ : Heap ι}

/-- `release` does not throw, and leaves an empty allocation behind. -/
lemma wp_release (hs : Sound specs h) (a : ℕ) :
    wp (release a)
      (fun _ h' => Unpublished specs h h' ∧ h'.allocations = h.allocations.set a {})
      (fun _ _ => False) h := by
  simp only [release, wp_bind, wp_load]
  split
  · rename_i hp
    refine ⟨⟨hs, fun _ => rfl⟩, ?_⟩
    cases hget : h.allocations[a]? with
    | none => exact (List.set_eq_of_length_le (List.getElem?_eq_none_iff.mp hget)).symm
    | some x =>
      have hx : h.allocations.getD a {} = x := by simp [hget]
      rw [hx] at hp
      have hempty := (hs.wellFormed x (List.mem_of_getElem? hget)).empty hp
      obtain ⟨hlt, hxa⟩ := List.getElem?_eq_some_iff.mp hget
      rw [← hempty, ← hxa, List.set_getElem_self]
  · rename_i p hp
    have hx := hs.located hp
    generalize h.allocations.getD a {} = x at hp hx ⊢
    rw [wp_bind]
    refine wp_mono (wp_unbindRow hs hx) ?_ (fun _ _ he => he)
    rintro - h₁ ⟨hs₁, P, hwrite, hP⟩
    have htable := congrArg Heap.allocations hwrite
    obtain ⟨hlt, -⟩ := List.getElem?_eq_some_iff.mp hx.get
    have hget₁ : h₁.allocations.getD a {} = { x with boundRow := -1 } := by
      simp [htable, hlt]
    have hx₁ := hs₁.located (a := a) (p := p) (by rw [hget₁]; exact hp)
    rw [hget₁] at hx₁
    have hmapped := hx₁.mapped_le
    have hent := hx₁.entitled_le
    have hle := hs₁.entitled_le p
    have hfree := hs₁.free_add_mapped p
    have hlt := pageGroupCount_lt (specs p)
    rw [wp_bind, wp_returnPages hmapped (by omega) (hs₁.balanced p).free_sorted, wp_bind,
      wp_replaceEntitlement (by simpa using hent) (by simp; omega) (by simp; omega)]
    simp only [wp_bind, wp_load, hget₁, Function.update_self, Function.update_idem]
    have hneg : ({ x with boundRow := -1 } : PagedKVAllocation ι).boundRow < 0 := by
      show (-1 : ℤ) < 0
      decide
    refine ⟨⟨hs₁.exchange hx₁.get (exchange_release hx₁.pool (hs₁.unchanged hx₁) hmapped hent
      hneg), fun q => ?_⟩, by simp only [htable, List.set_set]⟩
    have hq : (h₁.pools q).blockTables = (h.pools q).blockTables := by
      rw [hwrite, blockTables_update hP]
    refine Eq.trans (blockTables_update ?_ q) hq
    rfl

lemma keeps_release (a : ℕ) : Keeps (Sound specs) (release (ι := ι) a) :=
  fun _ hs => wp_mono (wp_release hs a) (fun _ _ h => h.1.sound) (fun _ _ he => he.elim)

lemma keeps_unbindRow (a : ℕ) : Keeps (Sound specs) (unbindRow (ι := ι) a) := by
  intro h hs
  cases hp : (h.allocations.getD a {}).pool with
  | none =>
    simp only [unbindRow, wp_bind, wp_load]
    split
    · exact hs
    · simp_all
  | some p =>
    exact wp_mono (wp_unbindRow hs (hs.located hp)) (fun _ _ h => h.1) (fun _ _ he => he.elim)

/-- `reserve` constructs an allocation, or throws and changes nothing. -/
lemma wp_reserve (hs : Sound specs h) (p : ι) (pages : ℕ) (hosted : Bool) :
    wp (reserve p pages hosted)
      (fun a h' => Unpublished specs h h' ∧ a = h.allocations.length ∧
        h'.allocations = h.allocations ++ [{ pool := some p, pageEntitlement := pages }])
      (fun _ h' => h' = h) h := by
  have hb := hs.balanced p
  have hlt := pageGroupCount_lt (specs p)
  simp only [reserve, wp_bind]
  rw [hs.wp_canReserve]
  simp only [wp_throwIf, wp_bind, wp_construct, addEntitlement, wp_modifyPool]
  refine ⟨fun _ => trivial, fun hfits => ⟨fun _ => trivial, fun _ =>
    ⟨⟨?_, blockTables_update rfl⟩, rfl, rfl⟩⟩⟩
  simp only [Bool.not_eq_false, decide_eq_true_eq] at hfits
  rw [Nat.mod_eq_of_lt (by omega)]
  exact hs.append (exchange_reserve hb.free_sorted hfits.2.1 (by omega))

lemma keeps_moveConstruct {other : ℕ} (hs : Sound specs h) (hlt : other < h.allocations.length) :
    wp (moveConstruct other) (fun _ => Sound specs) (fun _ => Sound specs) h := by
  have hget : h.allocations[other]? = some h.allocations[other] := List.getElem?_eq_getElem hlt
  have hgetD : h.allocations.getD other {} = h.allocations[other] := by simp [hlt]
  simp only [moveConstruct, wp_bind, wp_load, hgetD]
  refine hs.retable (fun f hf => ?_) fun x hx => ?_
  · have hget' : (h.allocations ++ [h.allocations[other]])[other]? =
        some h.allocations[other] := by
      rw [List.getElem?_append_left hlt, hget]
    have hset := slotSum_set f hget' {}
    rw [hf, add_zero, slotSum_append, slotSum_cons, slotSum_nil, add_zero] at hset
    exact add_right_cancel hset
  · rcases List.mem_or_eq_of_mem_set hx with hx | rfl
    · rcases List.mem_append.mp hx with hx | hx
      · exact hs.wellFormed x hx
      · rw [List.mem_singleton.mp hx]
        exact hs.wellFormed _ (List.getElem_mem hlt)
    · exact wellFormed_empty specs

lemma keeps_moveAssign {a other : ℕ} (hs : Sound specs h) (ha : a < h.allocations.length)
    (hother : other < h.allocations.length) :
    wp (moveAssign a other) (fun _ => Sound specs) (fun _ => Sound specs) h := by
  simp only [moveAssign, wp_ite, wp_bind]
  refine ⟨fun _ => hs, fun hne => ?_⟩
  refine wp_mono (wp_release hs a) ?_ (fun _ _ he => he.elim)
  rintro - h₁ ⟨⟨hs₁, -⟩, htable⟩
  simp only [wp_bind, wp_load]
  have hlen : h₁.allocations.length = h.allocations.length := by rw [htable, List.length_set]
  have hgeta : h₁.allocations[a]? = some {} := by simp [htable, ha]
  have hget : h₁.allocations[other]? = some (h₁.allocations.getD other {}) := by
    simp [hlen, hother]
  generalize h₁.allocations.getD other {} = x at hget
  refine hs₁.retable (fun f _ => ?_) fun y hy => ?_
  · have hget' : (h₁.allocations.set a x)[other]? = some x := by
      rw [List.getElem?_set_ne hne, hget]
    have hset₁ := slotSum_set f hgeta x
    have hset₂ := slotSum_set f hget' {}
    rw [hset₁] at hset₂
    exact add_right_cancel hset₂
  · rcases List.mem_or_eq_of_mem_set hy with hy | rfl
    · rcases List.mem_or_eq_of_mem_set hy with hy | rfl
      · exact hs₁.wellFormed y hy
      · exact hs₁.wellFormed _ (List.mem_of_getElem? hget)
    · exact wellFormed_empty specs

/-! ## Bundles -/

lemma wp_validateDistinctPools (seen rest : List (PagedKVReservation ι)) :
    wp (validateDistinctPools seen rest) (fun _ h' => h' = h ∧ ∀ r ∈ rest, r.pool ≠ none)
      (fun _ h' => h' = h) h := by
  induction rest generalizing seen with
  | nil => exact ⟨rfl, by simp⟩
  | cons r rest ih =>
    simp only [validateDistinctPools, wp_bind, wp_throwIf]
    refine ⟨fun _ => trivial, fun hr => ⟨fun _ => trivial, fun _ => wp_imp (ih _) ?_⟩⟩
    rintro - _ ⟨rfl, hrest⟩
    exact ⟨rfl, List.forall_mem_cons.mpr ⟨fun hnone => hr (.inl hnone), hrest⟩⟩

lemma wp_checkReservable (hs : Sound specs h) (r : PagedKVReservation ι) :
    wp (checkReservable r) (fun _ h' => h' = h) (fun _ h' => h' = h) h := by
  unfold checkReservable
  split
  · trivial
  · rw [wp_bind, hs.wp_canReserve, wp_throwIf]
    exact ⟨fun _ => rfl, fun _ => rfl⟩

/-- What is left in the table of objects that were destroyed. -/
abbrev destroyed (n : ℕ) : List (PagedKVAllocation ι) := List.replicate n {}

/-- Destroying the objects at the end of the table. -/
lemma wp_forEach_release (hs : Unpublished specs h₀ h) {table built : List (PagedKVAllocation ι)}
    (htable : h.allocations = table ++ built) :
    wp (forEach (List.range' table.length built.length) release)
      (fun _ h' => Unpublished specs h₀ h' ∧ h'.allocations = table ++ destroyed built.length)
      (fun _ _ => False) h := by
  induction built generalizing h table with
  | nil => exact ⟨hs, htable⟩
  | cons x built ih =>
    rw [List.length_cons, List.range'_succ, forEach, wp_bind]
    refine wp_imp (wp_release hs.sound table.length) ?_
    rintro - h₁ ⟨hs₁, htable₁⟩
    have htable₂ : h₁.allocations = table ++ destroyed 1 ++ built := by simp [htable₁, htable]
    simpa [List.replicate_succ] using ih (hs.trans hs₁) htable₂

/-- The allocation that a reservation asks for. -/
def PagedKVReservation.allocation (r : PagedKVReservation ι) : PagedKVAllocation ι :=
  { pool := r.pool, pageEntitlement := r.pageEntitlement }

/-- A throw in the loop destroys what was built; the destroyed objects stay as empty ones. -/
lemma wp_reserveEach (hosted : ℕ → Bool) {table : List (PagedKVAllocation ι)}
    {built rest : List (PagedKVReservation ι)} (hs : Unpublished specs h₀ h)
    (htable : h.allocations = table ++ built.map (·.allocation))
    (hrest : ∀ r ∈ rest, r.pool ≠ none) :
    wp (reserveEach hosted (List.range' table.length built.length) rest)
      (fun _ h' => Unpublished specs h₀ h' ∧
        h'.allocations = table ++ (built ++ rest).map (·.allocation))
      (fun _ h' => Unpublished specs h₀ h' ∧ ∃ n, h'.allocations = table ++ destroyed n) h := by
  induction rest generalizing h built with
  | nil => exact ⟨hs, by simpa using htable⟩
  | cons r rest ih =>
    obtain ⟨hr, hrest⟩ := List.forall_mem_cons.mp hrest
    unfold reserveEach
    split
    · exact absurd ‹_› hr
    · rename_i p hp
      rw [wp_bind, wp_tryCatch]
      refine wp_mono (wp_reserve hs.sound p _ _) ?_ ?_
      · rintro a h₁ ⟨hs₁, rfl, htable₁⟩
        have htable₂ : h₁.allocations = table ++ (built ++ [r]).map (·.allocation) := by
          simp [htable₁, htable, PagedKVReservation.allocation, hp]
        simpa [List.range'_concat, htable] using ih (hs.trans hs₁) htable₂ hrest
      · rintro e _ rfl
        rw [wp_bind]
        have hback := wp_forEach_release hs htable
        rw [List.length_map] at hback
        exact wp_mono hback (fun _ _ h => ⟨h.1, _, h.2⟩) fun _ _ he => he.elim

lemma wp_reservePagedKVBundle (hs : Sound specs h) (reservations : List (PagedKVReservation ι))
    (hosted : ℕ → Bool) :
    wp (reservePagedKVBundle reservations hosted)
      (fun _ h' => Unpublished specs h h' ∧
        h'.allocations = h.allocations ++ reservations.map (·.allocation))
      (fun _ h' => Unpublished specs h h' ∧ ∃ n, h'.allocations = h.allocations ++ destroyed n)
      h := by
  have hunpublished : Unpublished specs h h := ⟨hs, fun _ => rfl⟩
  have hsame : ∀ (_ : KVError) h', h' = h → Unpublished specs h h' ∧ ∃ n, h'.allocations =
      h.allocations ++ destroyed n := by
    rintro - _ rfl
    exact ⟨hunpublished, 0, by simp⟩
  have hcheck : wp (forEach reservations checkReservable) (fun _ h' => h' = h) (fun _ h' => h' = h)
      h := wp_forEach reservations (fun r _ _ hh => hh ▸ wp_checkReservable hs r) rfl
  rw [reservePagedKVBundle, wp_bind]
  refine wp_mono (wp_validateDistinctPools [] reservations) ?_ hsame
  rintro - _ ⟨rfl, hpools⟩
  rw [wp_bind]
  refine wp_mono hcheck ?_ hsame
  rintro - h' rfl
  have htable : h'.allocations = h'.allocations ++
      ([] : List (PagedKVReservation ι)).map (·.allocation) := by simp
  exact wp_reserveEach hosted hunpublished htable hpools

/-- What the checks of a resize establish for one change. -/
structure Resizable (specs : ι → PagedKVPoolSpec) (h : Heap ι) (change : PagedKVResize) (a : ℕ)
    (p : ι) : Prop where
  allocation : change.allocation = some a
  pool : (h.allocations.getD a {}).pool = some p
  mapped_le : change.mappedPages ≤ (h.allocations.getD a {}).mappedPageCount
  le : change.mappedPages ≤ change.pageEntitlement
  backs : Backs specs h p (h.allocations.getD a {}) change.pageEntitlement

/-- All changes passed the checks, and no two concern one allocation or one pool. -/
def Resizables (specs : ι → PagedKVPoolSpec) (h : Heap ι) :
    List (ℕ × ι) → List PagedKVResize → Prop
  | _, [] => True
  | seen, change :: rest => ∃ a p, Resizable specs h change a p ∧
      (¬∃ s ∈ seen, a = s.1 ∨ p = s.2) ∧ Resizables specs h (seen ++ [(a, p)]) rest

lemma wp_validateResize (hs : Sound specs h) (seen : List (ℕ × ι)) (changes : List PagedKVResize) :
    wp (validateResize seen changes) (fun _ h' => h' = h ∧ Resizables specs h seen changes)
      (fun _ h' => h' = h) h := by
  induction changes generalizing seen with
  | nil => exact ⟨rfl, trivial⟩
  | cons change rest ih =>
    unfold validateResize
    split
    · rfl
    rename_i a ha
    simp only [wp_bind, wp_load]
    split
    · rfl
    rename_i p hp
    simp only [wp_bind, wp_throwIf]
    refine ⟨fun _ => trivial, fun hext => ⟨fun _ => trivial, fun hnew => ?_⟩⟩
    refine hs.wp_canReplaceEntitlement (hs.located hp) (fun hbacks => ?_) fun _ => ?_
    · refine (wp_bind ..).mpr ((wp_throwIf ..).mpr ⟨by simp, fun _ => wp_imp (ih _) ?_⟩)
      rintro - _ ⟨rfl, hrest⟩
      exact ⟨rfl, a, p, ⟨ha, hp, by omega, by omega, hbacks⟩, hnew, hrest⟩
    · exact (wp_bind ..).mpr ((wp_throwIf ..).mpr ⟨fun _ => rfl, by simp⟩)

/-- A change leaves what was established for the others. -/
lemma Resizables.write {b : ℕ} {q : ι} {P : PagedKVPool} {y : PagedKVAllocation ι}
    (hr : Resizables specs h seen changes) (hmem : (b, q) ∈ seen) :
    Resizables specs (h.write q P b y) seen changes := by
  induction changes generalizing seen with
  | nil => trivial
  | cons change rest ih =>
    obtain ⟨a, p, hc, hnew, hrest⟩ := hr
    have hne : ¬(a = b ∨ p = q) := fun heq => hnew ⟨_, hmem, heq⟩
    push Not at hne
    have hget : (h.write q P b y).allocations.getD a {} = h.allocations.getD a {} := by
      simp [List.getElem?_set_ne hne.1.symm]
    have hpool : (h.write q P b y).pools p = h.pools p := Function.update_of_ne hne.2 ..
    refine ⟨a, p, ⟨hc.allocation, ?_, ?_, hc.le, ?_⟩, hnew, ih hrest (List.mem_append_left _ hmem)⟩
    · rw [hget]
      exact hc.pool
    · rw [hget]
      exact hc.mapped_le
    · rw [Backs, hget, hpool]
      exact hc.backs

/-- A change carried out on the table of allocations. -/
def PagedKVResize.applied (table : List (PagedKVAllocation ι)) (change : PagedKVResize) :
    List (PagedKVAllocation ι) :=
  match change.allocation with
  | none => table
  | some a => table.set a
      { table.getD a {} with
        pageIds := (table.getD a {}).pageIds.take change.mappedPages
        pageEntitlement := change.pageEntitlement }

lemma wp_applyResize (hs : Sound specs h) {change : PagedKVResize} {a : ℕ}
    (hc : Resizable specs h change a p) :
    wp (applyResize change)
      (fun _ h' => Unpublished specs h h' ∧ ∃ P y, h' = h.write p P a y ∧
        h'.allocations = change.applied h.allocations) (fun _ _ => False) h := by
  have hx := hs.located hc.pool
  have hbacks := hc.backs
  have hmapped := hc.mapped_le
  simp only [applyResize, PagedKVResize.applied, hc.allocation, wp_bind]
  generalize h.allocations.getD a {} = x at hx hbacks hmapped ⊢
  rw [wp_trimPages hs hx hmapped]
  have hs₁ := hs.exchange hx.get (exchange_return hx.pool (hs.unchanged hx) hx.mapped_le
    change.mappedPages)
  generalize hP : (h.pools p).returned (x.pageIds.drop change.mappedPages) = P at hs₁ ⊢
  have hx₁ := hs₁.located (a := a) (p := p)
  simp only [List.getD_eq_getElem?_getD, (List.getElem?_eq_some_iff.mp hx.get).1,
    List.getElem?_set_self, Option.getD_some] at hx₁
  specialize hx₁ hx.pool
  refine wp_setPageEntitlement hs₁ hx₁ (fun hlt => ?_) (fun hnot => hnot ?_)
    fun P' hP' _ _ hs₂ => ?_
  · have := hc.le
    simp only [mappedPageCount, List.length_take] at hlt
    omega
  · simpa [Backs, ← hP] using hbacks
  · rw [Heap.write_write] at hs₂ ⊢
    exact ⟨⟨hs₂, blockTables_update (by simpa [← hP] using hP')⟩, P', _, rfl, by simp⟩

lemma wp_forEach_applyResize (hs : Unpublished specs h₀ h)
    (hr : Resizables specs h seen changes) :
    wp (forEach changes applyResize)
      (fun _ h' => Unpublished specs h₀ h' ∧
        h'.allocations = changes.foldl PagedKVResize.applied h.allocations)
      (fun _ _ => False) h := by
  induction changes generalizing h seen with
  | nil => exact ⟨hs, rfl⟩
  | cons change rest ih =>
    obtain ⟨a, p, hc, -, hrest⟩ := hr
    rw [forEach, wp_bind]
    refine wp_imp (wp_applyResize hs.sound hc) ?_
    rintro - _ ⟨hs', P, y, rfl, htable⟩
    rw [List.foldl_cons, ← htable]
    exact ih (hs.trans hs') (hrest.write (by simp))

lemma wp_resizePagedKVBundle (hs : Sound specs h) (changes : List PagedKVResize) (hosted : Bool) :
    wp (resizePagedKVBundle changes hosted)
      (fun _ h' => Unpublished specs h h' ∧
        h'.allocations = changes.foldl PagedKVResize.applied h.allocations)
      (fun _ h' => h' = h) h := by
  rw [resizePagedKVBundle, wp_bind]
  refine wp_imp (wp_validateResize hs [] changes) ?_
  rintro - _ ⟨rfl, hr⟩
  rw [wp_bind, wp_throwIf]
  refine ⟨fun _ => rfl, fun _ => ?_⟩
  exact wp_mono (wp_forEach_applyResize ⟨hs, fun _ => rfl⟩ hr) (fun _ _ h => h)
    fun _ _ he => he.elim

/-! ## Runs -/

/-- One call keeps a sound heap sound, returning or throwing. -/
lemma Sound.call (hs : Sound specs h) (op : Op ι)
    (hop : ∀ a ∈ op.addresses, a < h.allocations.length) : Sound specs (op.call.after h) := by
  have hwp : wp op.call (fun _ => Sound specs) (fun _ => Sound specs) h := by
    cases op with
    | construct => exact hs.append_empty
    | reserve p pages hosted =>
      rw [Op.call, wp_discard]
      exact wp_mono (wp_reserve hs p pages hosted) (fun _ _ h => h.1.sound)
        (by rintro _ _ rfl; exact hs)
    | reserveBundle reservations hosted =>
      rw [Op.call, wp_discard]
      exact wp_mono (wp_reservePagedKVBundle hs reservations hosted) (fun _ _ h => h.1.sound)
        fun _ _ h => h.1.sound
    | setPageEntitlement a pages => exact wp_setPageEntitlement_of hs hs fun _ _ _ _ _ h => h
    | cancelUnmappedEntitlement a => exact wp_cancelUnmappedEntitlement hs hs fun _ _ _ _ _ h => h
    | materializePages a pages copied =>
      exact wp_mono (sound_materializePages a pages copied hs) (fun _ _ h => h) fun _ _ h => h.1
    | trimPages a pages => exact keeps_trimPages a pages h hs
    | bindRow a row copied => exact keeps_bindRow a row copied h hs
    | unbindRow a => exact keeps_unbindRow a h hs
    | moveConstruct other =>
      exact keeps_moveConstruct hs (hop other (by simp [Op.addresses]))
    | moveAssign a other =>
      exact keeps_moveAssign hs (hop a (by simp [Op.addresses]))
        (hop other (by simp [Op.addresses]))
    | release a => exact keeps_release a h hs
    | resizeBundle changes hosted =>
      exact wp_mono (wp_resizePagedKVBundle hs changes hosted) (fun _ _ h => h.1.sound)
        (by rintro _ _ rfl; exact hs)
  exact wp_after hwp

lemma Reachable.sound (hr : Reachable specs h) : Sound specs h := by
  induction hr with
  | initial tables => exact sound_initial specs tables
  | step op hop _ ih => exact ih.call op hop

/-- Whether an allocation is bound to a row of a pool. -/
def PagedKVAllocation.boundAt (p : ι) (row : ℕ) (x : PagedKVAllocation ι) : Bool :=
  decide (x.pool = some p ∧ x.boundRow = (row : ℤ))

/-- How many live allocations are bound to a row of a pool. -/
def Heap.boundTo (h : Heap ι) (p : ι) (row : ℕ) : ℕ := h.allocations.countP (boundAt p row)

lemma count_rowsIn (p : ι) (row : ℕ) (table : List (PagedKVAllocation ι)) :
    (slotSum (rowsIn p) table).count row = table.countP (boundAt p row) := by
  induction table with
  | nil => rfl
  | cons x table ih =>
    rw [slotSum_cons, Multiset.count_add, ih, add_comm]
    unfold rowsIn boundAt
    by_cases hp : x.pool = some p
    · by_cases hrow : 0 ≤ x.boundRow
      · by_cases heq : x.boundRow = row
        · simp [hp, heq]
        · have hne : row ≠ x.boundRow.toNat := by omega
          simp [hp, hrow, heq, hne]
      · have hne : x.boundRow ≠ row := by omega
        simp [hrow, hne]
    · simp [hp]

lemma Balanced.mem_usedRows {row : ℕ} (hb : Balanced (specs p) (h.pools p) p h.allocations)
    (hrow : row < (specs p).tableRows) :
    row ∈ (h.pools p).usedRows ↔ (h.pools p).rowInUse.getD row false = true := by
  simp [PagedKVPool.usedRows, hb.spec_eq, hrow]

/-- The books of every pool, spelled out, and what follows from them for the code. -/
structure Accounts (specs : ι → PagedKVPoolSpec) (h : Heap ι) : Prop where
  /-- `free_page_ids_` is strictly increasing. -/
  free_increasing : ∀ p, (h.pools p).freePageIds.Pairwise (· < ·)
  /-- The free list and the pages of all allocations partition the pool's pages. -/
  partition : ∀ p, ((h.pools p).freePageIds : Multiset ℕ) + slotSum (pagesIn p) h.allocations =
    Multiset.range (specs p).pageGroupCount
  mapped_eq : ∀ p, (h.pools p).mappedPages = slotSum (mappedIn p) h.allocations
  entitled_eq : ∀ p, (h.pools p).entitledPages = slotSum (entitledIn p) h.allocations
  entitled_le : ∀ p, (h.pools p).entitledPages ≤ (specs p).pageGroupCount
  allocation_le : ∀ x ∈ h.allocations, ∀ p, x.pool = some p →
    x.mappedPageCount ≤ x.pageEntitlement ∧ x.pageEntitlement ≤ (specs p).logicalPageCapacity
  /-- A row is in use exactly when one live allocation is bound to it, and never two are. -/
  row_in_use : ∀ p, ∀ row < (specs p).tableRows,
    ((h.pools p).rowInUse.getD row false = true ↔ h.boundTo p row = 1) ∧ h.boundTo p row ≤ 1
  /-- No materialization is refused for lack of pages. -/
  materialize_backed : ∀ a pages copied e h',
    (materializePages a pages copied).exec h = (.error e, h') →
      e ≠ .logicError "Paged KV entitlement could not be materialized"
  /-- No counter subtraction has wrapped around. -/
  not_wrapped : h.wrapped = false

/-- In every state a finite run of calls can reach, the pools' books agree with what the
allocations hold. -/
theorem reachable_accounts (hr : Reachable specs h) : Accounts specs h where
  free_increasing p := (hr.sound.balanced p).free_strictMono
  partition p := (hr.sound.balanced p).pages
  mapped_eq p := (hr.sound.balanced p).mapped
  entitled_eq p := (hr.sound.balanced p).entitled
  entitled_le p := hr.sound.entitled_le p
  allocation_le x hx p hp :=
    ⟨(hr.sound.wellFormed x hx).mapped_le, (hr.sound.wellFormed x hx).entitlement_le p hp⟩
  row_in_use p row hrow := by
    have hb := hr.sound.balanced p
    have hcount : (h.pools p).usedRows.count row = h.boundTo p row := by
      rw [hb.rows, count_rowsIn]
      rfl
    have hnodup : (h.pools p).usedRows.Nodup := (Multiset.nodup_range _).filter _
    have hle := Multiset.nodup_iff_count_le_one.mp hnodup row
    rw [← hb.mem_usedRows hrow, ← Multiset.one_le_count_iff_mem]
    omega
  materialize_backed a pages copied e h' hexec := by
    have hwp := sound_materializePages a pages copied hr.sound
    unfold wp at hwp
    rw [hexec] at hwp
    exact hwp.2
  not_wrapped := hr.sound.not_wrapped

/-- A pool of four pages and two rows. -/
def smallSpec : PagedKVPoolSpec where
  pageGroupCount := 4
  logicalPageCapacity := 3
  tableRows := 2
  pageGroupCount_pos := by decide
  pageGroupCount_le := by decide
  logicalPageCapacity_pos := by decide
  logicalPageCapacity_le := by decide
  tableRows_pos := by decide

/-- Reserve three pages, map two, bind a row, and move the allocation. -/
def smallRun : List (Op Unit) :=
  [.reserve () 3 true, .materializePages 0 2 true, .bindRow 0 1 true, .moveConstruct 0]

lemma reachable_smallRun : Reachable (fun _ => smallSpec)
    (smallRun.foldl (fun h op => op.call.after h) (Heap.initial (fun _ => smallSpec) 0)) :=
  .step _ (by decide) <| .step _ (by decide) <| .step _ (by decide) <| .step _ (by decide) <|
    .initial 0

theorem reachable_accounts_smallRun :
    ∃ h : Heap Unit, Reachable (fun _ => smallSpec) h ∧ h.allocations.length = 2 ∧
      (h.pools ()).freePageIds = [2, 3] ∧ Accounts (fun _ => smallSpec) h :=
  ⟨_, reachable_smallRun, by decide, by decide, reachable_accounts reachable_smallRun⟩

/-! ## All or nothing -/

/-- What a pool records is the same; the contents of its block tables aside. -/
structure SameBooks (P P' : PagedKVPool) : Prop where
  free : P'.freePageIds = P.freePageIds
  mapped : P'.mappedPages = P.mappedPages
  entitled : P'.entitledPages = P.entitledPages
  rows : P'.rowInUse = P.rowInUse

/-- In sound heaps the books are determined by the allocations. -/
lemma Sound.sameBooks {h' : Heap ι} (hs : Sound specs h) (hs' : Sound specs h') {n : ℕ}
    (htable : h'.allocations = h.allocations ++ destroyed n) (p : ι) :
    SameBooks (h.pools p) (h'.pools p) := by
  have hb := hs.balanced p
  have hb' := hs'.balanced p
  have hsum : ∀ {M : Type} [AddCommMonoid M] (f : PagedKVAllocation ι → M), f {} = 0 →
      slotSum f h'.allocations = slotSum f h.allocations := by
    intro M _ f hf
    have hdead : slotSum f (destroyed n) = 0 :=
      slotSum_eq_zero f fun x hx => by rw [List.eq_of_mem_replicate hx, hf]
    rw [htable, slotSum_append, hdead, add_zero]
  refine ⟨?_, ?_, ?_, ?_⟩
  · refine List.Perm.eq_of_pairwise' hb'.free_sorted hb.free_sorted (Multiset.coe_eq_coe.mp ?_)
    refine add_right_cancel (b := slotSum (pagesIn p) h.allocations) ?_
    rw [hb.pages, ← hsum (pagesIn p) rfl, hb'.pages]
  · rw [hb.mapped, hb'.mapped, hsum (mappedIn p) rfl]
  · rw [hb.entitled, hb'.entitled, hsum (entitledIn p) rfl]
  · refine List.ext_getElem (hb'.rows_length.trans hb.rows_length.symm) fun r h₁ h₂ => ?_
    have hused : r ∈ (h'.pools p).usedRows ↔ r ∈ (h.pools p).usedRows := by
      rw [hb.rows, hb'.rows, hsum (rowsIn p) rfl]
    have hrow : r < (specs p).tableRows := hb.rows_length ▸ h₂
    rw [hb.mem_usedRows hrow, hb'.mem_usedRows hrow] at hused
    simpa [h₁, h₂] using hused

/-- In every reachable state a bundle of reservations or of resizes either carries out every change,
the books of all pools following the allocations, or throws and leaves every pool's free list,
counters and rows and every allocation as before. -/
theorem bundle_atomicity (hr : Reachable specs h) :
    (∀ reservations hosted, wp (reservePagedKVBundle reservations hosted)
      (fun _ h' => Sound specs h' ∧
        h'.allocations = h.allocations ++ reservations.map (·.allocation))
      (fun _ h' => (∀ p, SameBooks (h.pools p) (h'.pools p)) ∧
        ∃ n, h'.allocations = h.allocations ++ destroyed n) h) ∧
    ∀ changes hosted, wp (resizePagedKVBundle changes hosted)
      (fun _ h' => Sound specs h' ∧
        h'.allocations = changes.foldl PagedKVResize.applied h.allocations)
      (fun _ h' => h' = h) h := by
  refine ⟨fun reservations hosted => ?_, fun changes hosted => ?_⟩
  · refine wp_mono (wp_reservePagedKVBundle hr.sound reservations hosted)
      (fun _ _ h => h.imp_left (·.sound)) ?_
    rintro - h' ⟨hs', n, htable⟩
    exact ⟨hr.sound.sameBooks hs'.sound htable, n, htable⟩
  · exact wp_imp (wp_resizePagedKVBundle hr.sound changes hosted)
      fun _ _ h => h.imp_left (·.sound)

theorem bundle_atomicity_smallRun :
    ∃ h : Heap Unit, Reachable (fun _ => smallSpec) h ∧ h.allocations.length = 2 ∧
      wp (resizePagedKVBundle [⟨some 1, 1, 2⟩] true)
        (fun _ h' => Sound (fun _ => smallSpec) h' ∧
          h'.allocations = [⟨some 1, 1, 2⟩].foldl PagedKVResize.applied h.allocations)
        (fun _ h' => h' = h) h :=
  ⟨_, reachable_smallRun, by decide, (bundle_atomicity reachable_smallRun).2 _ _⟩

end NInfer.PagedKV
