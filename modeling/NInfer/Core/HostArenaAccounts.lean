import NInfer.Core.HostPinnedArena

/-!
# The pinned host arena keeps its accounts

`Sound` is the invariant of the arena: its free spans and its live blocks tile the region, the free
list is coalesced, the used bytes are the live total, and the free list has room for every release
to come.  `tryAlloc_spec` and `release_spec` say what a call does to a sound arena, and
`hostPinnedArena_accounts` collects what follows for any sequence of calls.

The room of the free list rests on a count.  A free span ends at the end of the region or where a
live block starts (`Sound.stop_mem`), because a span that ended at another free span would have been
joined to it; the ends of the free spans are distinct, so there is at most one more of them than
there are live blocks (`Sound.free_length_le`).
-/

namespace NInfer.Core.HostPinnedArena

open Throwing

/-! ## What every call keeps -/

/-- The blocks handed out. -/
def blocks (a : HostPinnedArena) : List Span := a.live.map (·.2)

/-- The free spans and the live blocks cut the region into pieces, the accounts are right, and
there is room for the spans of every later release. -/
structure Sound {capacity : ℕ} (mapping : Mapping capacity) (a : HostPinnedArena) : Prop where
  base_eq : a.base = mapping.base
  cap_eq : a.cap = capacity
  capacity_pos : 0 < capacity
  coalesced : Coalesced a.free
  tiles : Tiles (extents a.free + extents a.blocks) fun _ => capacity
  blocks_pos : ∀ b ∈ a.blocks, 0 < b.size
  address : ∀ entry ∈ a.live, entry.1 = a.base + entry.2.offset
  used_eq : a.used = (a.blocks.map (·.size)).sum
  room : a.live.length + 1 ≤ a.freeCapacity

variable {capacity : ℕ} {mapping : Mapping capacity} {a : HostPinnedArena}

namespace Sound

variable (ha : Sound mapping a)

include ha

lemma nonnull : a.base ≠ 0 := ha.base_eq ▸ mapping.nonnull

lemma fits : a.base + capacity ≤ sizeMax + 1 := ha.base_eq ▸ mapping.fits

/-- A piece of the region lies inside it. -/
lemma stop_le {s : Span} (hs : s ∈ a.free ∨ s ∈ a.blocks) : s.stop ≤ capacity := by
  rcases hs with hs | hs
  · exact ha.tiles.stop_le (Multiset.mem_add.mpr (.inl (extent_mem hs))) (ha.coalesced.pos s hs)
  · exact ha.tiles.stop_le (Multiset.mem_add.mpr (.inr (extent_mem hs))) (ha.blocks_pos s hs)

/-- Some piece covers each address of the region. -/
lemma exists_covers {x : ℕ} (hx : x < capacity) :
    ∃ s, (s ∈ a.free ∨ s ∈ a.blocks) ∧ s.offset ≤ x ∧ x < s.stop := by
  by_contra hnone
  push Not at hnone
  have hcov := ha.tiles () x
  rw [if_pos hx, coverage_eq_zero fun e he hcovers => ?_] at hcov
  · omega
  · obtain ⟨s, hs, rfl⟩ : ∃ s, (s ∈ a.free ∨ s ∈ a.blocks) ∧ s.extent = e := by
      rcases Multiset.mem_add.mp he with he | he
      · obtain ⟨s, hs, rfl⟩ := List.mem_map.mp he
        exact ⟨s, .inl hs, rfl⟩
      · obtain ⟨s, hs, rfl⟩ := List.mem_map.mp he
        exact ⟨s, .inr hs, rfl⟩
    exact absurd (hnone s hs hcovers.2.1) (not_le.mpr hcovers.2.2)

/-- A free span and a live block do not overlap. -/
lemma disjoint_block {s t : Span} (hs : s ∈ a.free) (ht : t ∈ a.blocks) :
    s.stop ≤ t.offset ∨ t.stop ≤ s.offset := by
  obtain ⟨rest, hrest⟩ := Multiset.exists_cons_of_mem (extent_mem hs)
  have htiles := ha.tiles
  rw [hrest, Multiset.cons_add] at htiles
  exact stop_le_start_or_of_coverage htiles.coverage_le_one
    (Multiset.mem_add.mpr (.inr (extent_mem ht))) rfl (ha.coalesced.pos s hs) (ha.blocks_pos t ht)

/-- Two free spans do not overlap. -/
lemma disjoint_free {s t : Span} (hs : s ∈ a.free) (ht : t ∈ a.free) (hne : s ≠ t) :
    s.stop ≤ t.offset ∨ t.stop ≤ s.offset := by
  have hne' : s.extent ≠ t.extent := by
    intro h
    injection h with _ hoffset hsize
    exact hne (by cases s; cases t; simp_all)
  exact ha.tiles.stop_le_start_or (Multiset.mem_add.mpr (.inl (extent_mem hs)))
    (Multiset.mem_add.mpr (.inl (extent_mem ht))) hne' rfl (ha.coalesced.pos s hs)
    (ha.coalesced.pos t ht)

/-- Behind a free span comes the end of the region or a live block. -/
lemma stop_mem {s : Span} (hs : s ∈ a.free) : s.stop ∈ capacity :: a.blocks.map (·.offset) := by
  by_cases hend : s.stop = capacity
  · exact hend ▸ List.mem_cons_self
  have hlt : s.stop < capacity := lt_of_le_of_ne (ha.stop_le (.inl hs)) hend
  obtain ⟨t, ht, hfrom, hto⟩ := ha.exists_covers hlt
  have hne : s ≠ t := by
    rintro rfl
    omega
  -- The piece that covers the first address behind the span starts there.
  have hstart : t.offset = s.stop := by
    have hdisjoint := ht.elim (fun ht => ha.disjoint_free hs ht hne) (ha.disjoint_block hs)
    unfold Span.stop at *
    omega
  rcases ht with ht | ht
  · exact absurd hstart.symm (ha.coalesced.stop_ne_offset hs ht)
  · exact List.mem_cons_of_mem _ (hstart ▸ List.mem_map_of_mem (f := (·.offset)) ht)

/-- Every free span but the last is followed by a live block of its own. -/
lemma free_length_le : a.free.length ≤ a.live.length + 1 := by
  have hsub : a.free.map Span.stop ⊆ capacity :: a.blocks.map (·.offset) := by
    intro x hx
    obtain ⟨s, hs, rfl⟩ := List.mem_map.mp hx
    exact ha.stop_mem hs
  have hle := (ha.coalesced.stops_nodup.subperm hsub).length_le
  simpa [blocks] using hle

/-- With no block handed out, the region is one span. -/
lemma free_of_live_nil (hlive : a.live = []) : a.free = [⟨0, capacity⟩] ∧ a.used = 0 := by
  have hblocks : a.blocks = [] := by rw [blocks, hlive]; rfl
  have hle := ha.free_length_le
  have hcap := ha.capacity_pos
  obtain ⟨s, hs, hfrom, -⟩ := ha.exists_covers hcap
  obtain ⟨t, ht, -, hto⟩ := ha.exists_covers (Nat.sub_lt hcap one_pos)
  rw [hblocks, or_iff_left (List.not_mem_nil)] at hs ht
  rw [hlive] at hle
  obtain ⟨u, hu⟩ : ∃ u, a.free = [u] := List.length_eq_one_iff.mp (by
    have := List.length_pos_of_mem hs
    simp only [List.length_nil] at hle
    omega)
  have hstop := ha.stop_le (.inl ht)
  rw [hu, List.mem_singleton] at hs ht
  subst hs ht
  refine ⟨?_, by rw [ha.used_eq, hblocks]; rfl⟩
  rw [hu]
  obtain ⟨offset, size⟩ := t
  unfold Span.stop at *
  simp only at *
  obtain rfl : offset = 0 := by omega
  obtain rfl : size = capacity := by omega
  rfl

end Sound

/-- The arena is as it was, but for the capacity of its free list. -/
def Unchanged (a a' : HostPinnedArena) : Prop :=
  a' = { a with freeCapacity := a'.freeCapacity } ∧ a.freeCapacity ≤ a'.freeCapacity

lemma Unchanged.sound {a' : HostPinnedArena} (h : Unchanged a a') (ha : Sound mapping a) :
    Sound mapping a' := by
  obtain ⟨heq, hle⟩ := h
  rw [heq]
  exact { ha with room := ha.room.trans hle }

/-- The block `try_alloc` hands out. -/
structure Granted (a a' : HostPinnedArena) (bytes align ptr : ℕ) : Prop where
  aligned : align ∣ ptr
  inRange : a.base ≤ ptr ∧ ptr + bytes ≤ a.base + a.cap
  disjoint : ∀ entry ∈ a.live, entry.1 + entry.2.size ≤ ptr ∨ ptr + bytes ≤ entry.1
  published : a'.live = (ptr, ⟨ptr - a.base, bytes⟩) :: a.live
  used : a'.used = a.used + bytes

lemma reserveSpans_spec (a : HostPinnedArena) (heap : Heap) :
    (reserveSpans heap).wp (fun _ a' => Unchanged a a' ∧ a.live.length + 2 ≤ a'.freeCapacity)
      (fun e a' => e = .badAlloc ∧ heap ≠ .serves ∧ Unchanged a a') a := by
  unfold reserveSpans
  rw [wp_bind, wp_get, wp_ite]
  constructor
  · intro hshort
    rw [wp_bind, wp_throwIf]
    constructor
    · rintro rfl
      exact ⟨rfl, by decide, rfl, le_rfl⟩
    · intro _
      refine ⟨⟨rfl, ?_⟩, le_max_left _ _⟩
      show a.freeCapacity ≤ max (a.live.length + 2) (a.freeCapacity * 2)
      omega
  · intro henough
    exact ⟨⟨rfl, le_rfl⟩, not_lt.mp henough⟩

/-- Giving a span back, or none if it is empty. -/
lemma insertFreeSpan_eq (a : HostPinnedArena) (offset size : ℕ) :
    ∃ capacity, a.freeCapacity ≤ capacity ∧
      (if size ≠ 0 then a.insertFreeSpan offset size else a) =
        { a with free := insertFree a.free offset size, freeCapacity := capacity } := by
  by_cases hsize : size = 0
  · exact ⟨a.freeCapacity, le_rfl, by rw [if_neg (not_not.mpr hsize), insertFree, if_pos hsize]⟩
  · exact ⟨_, le_max_left _ _, if_pos hsize⟩

/-- The arena a successful `try_alloc` leaves. -/
lemma publish_eq (a : HostPinnedArena) (fit : Fit) (bytes : ℕ) :
    ∃ capacity, a.freeCapacity ≤ capacity ∧ a.publish fit bytes =
      { a with
        live := (a.base + (fit.span.offset + fit.lead),
          ⟨fit.span.offset + fit.lead, bytes⟩) :: a.live
        free := insertFree (insertFree fit.rest (fit.span.offset + fit.lead + bytes)
          (fit.span.size - fit.lead - bytes)) fit.span.offset fit.lead
        freeCapacity := capacity
        used := a.used + bytes } := by
  obtain ⟨capacity, hcapacity, htail⟩ := insertFreeSpan_eq
    { a with
      live := (a.base + (fit.span.offset + fit.lead), ⟨fit.span.offset + fit.lead, bytes⟩) :: a.live
      free := fit.rest } (fit.span.offset + fit.lead + bytes) (fit.span.size - fit.lead - bytes)
  obtain ⟨capacity', hcapacity', hlead⟩ := insertFreeSpan_eq
    { a with
      live := (a.base + (fit.span.offset + fit.lead), ⟨fit.span.offset + fit.lead, bytes⟩) :: a.live
      free := insertFree fit.rest (fit.span.offset + fit.lead + bytes)
        (fit.span.size - fit.lead - bytes)
      freeCapacity := capacity } fit.span.offset fit.lead
  exact ⟨capacity', hcapacity.trans hcapacity', by simp only [publish, htail, hlead]⟩

/-- Cutting a span into the gap, the block and the tail covers the same addresses. -/
lemma coverage_cut {fit : Fit} {bytes : ℕ} (hfits : fit.lead + bytes ≤ fit.span.size)
    (s : Multiset (Extent Unit)) (x : ℕ) :
    coverage (fit.span.extent ::ₘ s) () x =
      coverage (Span.extent ⟨fit.span.offset, fit.lead⟩ ::ₘ
        Span.extent ⟨fit.span.offset + fit.lead, bytes⟩ ::ₘ
        Span.extent ⟨fit.span.offset + fit.lead + bytes, fit.span.size - fit.lead - bytes⟩ ::ₘ s)
        () x := by
  have htail := coverage_join s () (fit.span.offset + fit.lead) bytes
    (fit.span.size - fit.lead - bytes) () x
  have hlead := coverage_join s () fit.span.offset fit.lead
    (bytes + (fit.span.size - fit.lead - bytes)) () x
  have hsize : fit.lead + (bytes + (fit.span.size - fit.lead - bytes)) = fit.span.size := by omega
  rw [hsize] at hlead
  simp only [coverage_cons, Span.extent] at htail hlead ⊢
  omega

/-- Taking a block out of a free span. -/
lemma Sound.publish (ha : Sound mapping a) {fit : Fit} {bytes : ℕ} (hbytes : bytes ≠ 0)
    (hroom : a.live.length + 2 ≤ a.freeCapacity)
    (hsplit : ∃ before after, a.free = before ++ fit.span :: after ∧ fit.rest = before ++ after)
    (hfits : fit.lead + bytes ≤ fit.span.size) : Sound mapping (a.publish fit bytes) := by
  obtain ⟨before, after, hfree, hrest⟩ := hsplit
  obtain ⟨capacity, hcapacity, heq⟩ := publish_eq a fit bytes
  have hextents : extents a.free = fit.span.extent ::ₘ extents fit.rest := by
    rw [hfree, hrest, extents_append, extents_append, extents_cons, Multiset.add_cons]
  have hcoalesced : Coalesced fit.rest := by
    refine ha.coalesced.sublist ?_
    rw [hfree, hrest]
    exact (List.sublist_cons_self ..).append_left _
  have hone : ∀ x, coverage (extents a.free) () x ≤ 1 := by
    intro x
    have := ha.tiles.coverage_le_one () x
    rw [coverage_add] at this
    omega
  have hcut : ∀ x, coverage (extents a.free) () x = _ := fun x => by
    rw [hextents, coverage_cut hfits]
  simp only [coverage_cons] at hcut
  obtain ⟨htail, htailCov⟩ := insertFree_spec (fit.span.offset + fit.lead + bytes)
    (fit.span.size - fit.lead - bytes) hcoalesced fun x => by
    have := hone x
    rw [hcut] at this
    rw [coverage_cons]
    omega
  obtain ⟨hlead, hleadCov⟩ := insertFree_spec fit.span.offset fit.lead htail fun x => by
    have := hone x
    rw [hcut] at this
    rw [coverage_cons, htailCov, coverage_cons]
    omega
  rw [heq]
  refine ⟨ha.base_eq, ha.cap_eq, ha.capacity_pos, hlead, fun r x => ?_, ?_, ?_, ?_, ?_⟩
  · have htiles := ha.tiles () x
    rw [coverage_add, hcut] at htiles
    show coverage (_ + extents (⟨fit.span.offset + fit.lead, bytes⟩ :: a.blocks)) () x = _
    rw [coverage_add, hleadCov, coverage_cons, htailCov, coverage_cons, extents_cons, coverage_cons,
      ← htiles]
    omega
  · intro b hb
    rcases List.mem_cons.mp hb with rfl | hb
    · exact Nat.pos_of_ne_zero hbytes
    · exact ha.blocks_pos b hb
  · intro entry hentry
    rcases List.mem_cons.mp hentry with rfl | hentry
    · rfl
    · exact ha.address entry hentry
  · show a.used + bytes = bytes + (a.blocks.map (·.size)).sum
    rw [ha.used_eq, Nat.add_comm]
  · exact (Nat.le_refl _).trans (hroom.trans hcapacity)

/-- A block inside a free span overlaps no live block. -/
lemma Sound.disjoint_fit (ha : Sound mapping a) {fit : Fit} {bytes : ℕ}
    (hspan : fit.span ∈ a.free) (hfits : fit.lead + bytes ≤ fit.span.size) (entry : ℕ × Span)
    (hentry : entry ∈ a.live) :
    entry.1 + entry.2.size ≤ a.base + (fit.span.offset + fit.lead) ∨
      a.base + (fit.span.offset + fit.lead) + bytes ≤ entry.1 := by
  have hdisjoint := ha.disjoint_block hspan (List.mem_map_of_mem (f := (·.2)) hentry)
  have haddress := ha.address entry hentry
  unfold Span.stop at hdisjoint
  omega

lemma takeBlock_spec (ha : Sound mapping a) {bytes align : ℕ} (hbytes : bytes ≠ 0) (heap : Heap)
    {fit : Fit} (hfit : Searched a.base bytes align a.free (.ok (some fit))) :
    (takeBlock fit bytes heap).wp
      (fun
        | some ptr, a' => Sound mapping a' ∧ Granted a a' bytes align ptr
        | none, a' => a' = a ∧ ∀ span ∈ a.free, ¬span.Holds a.base bytes align)
      (fun e a' => Unchanged a a' ∧ ((∀ span ∈ a.free, ¬span.Holds a.base bytes align) ∨
        e = .badAlloc ∧ heap ≠ .serves)) a := by
  obtain ⟨hsplit, hdvd, hfits⟩ := hfit
  have hspan : fit.span ∈ a.free := by
    obtain ⟨before, after, hfree, -⟩ := hsplit
    simp [hfree]
  have hdisjoint := ha.disjoint_fit hspan hfits
  unfold takeBlock
  rw [wp_bind]
  refine wp_mono (reserveSpans_spec a heap) (fun _ a₁ ⟨hsame, hroom⟩ => ?_)
    (fun e a₁ ⟨he, hheap, hsame⟩ => ⟨hsame, .inr ⟨he, hheap⟩⟩)
  have ha₁ := hsame.sound ha
  have hlive : a₁.live = a.live := by rw [hsame.1]
  have hbase : a₁.base = a.base := by rw [hsame.1]
  have hfree : a₁.free = a.free := by rw [hsame.1]
  simp only [wp_bind, wp_throwIf, wp_get, wp_modify]
  refine ⟨?_, fun _ => ⟨fun hdup => ?_, fun _ => ⟨?_, ?_⟩⟩⟩
  · rintro rfl
    exact ⟨hsame, .inr ⟨trivial, by decide⟩⟩
  · obtain ⟨entry, hentry, hptr⟩ := List.mem_map.mp hdup
    rw [hlive] at hentry
    have hpos := ha.blocks_pos entry.2 (List.mem_map_of_mem (f := (·.2)) hentry)
    have := hdisjoint entry hentry
    omega
  · exact ha₁.publish hbytes (by rwa [hlive]) (by rwa [hfree]) hfits
  · obtain ⟨capacity, -, heq⟩ := publish_eq a₁ fit bytes
    have hstop := ha.stop_le (.inl hspan)
    rw [hbase]
    refine ⟨hdvd, ⟨by omega, ?_⟩, hdisjoint, ?_, ?_⟩
    · rw [ha.cap_eq]
      unfold Span.stop at hstop
      omega
    · rw [heq, hlive, hbase, Nat.add_sub_cancel_left]
    · rw [heq]
      rw [hsame.1]

/-- `try_alloc` hands out a block, or no span holds one, or the host refused the metadata; only in
the first case does the arena change. -/
lemma tryAlloc_spec (ha : Sound mapping a) {bytes align : ℕ} (hbytes : bytes ≠ 0)
    (halign : IsPowerOfTwo align) (heap : Heap) :
    (tryAlloc bytes align heap).wp
      (fun
        | some ptr, a' => Sound mapping a' ∧ Granted a a' bytes align ptr
        | none, a' => a' = a ∧ ∀ span ∈ a.free, ¬span.Holds a.base bytes align)
      (fun e a' => Unchanged a a' ∧ ((∀ span ∈ a.free, ¬span.Holds a.base bytes align) ∨
        e = .badAlloc ∧ heap ≠ .serves)) a := by
  have hstop : ∀ span ∈ a.free, a.base + span.stop ≤ sizeMax + 1 := fun span hspan =>
    (Nat.add_le_add_left (ha.stop_le (.inl hspan)) _).trans ha.fits
  have hsearch := firstFit_spec halign ha.nonnull hbytes ha.coalesced hstop
  unfold tryAlloc
  simp only [wp_bind, wp_get, wp_throwIf, wp_ite,
    wp_pure, ha.nonnull, halign, hbytes, not_true_eq_false, false_imp_iff, true_and,
    not_false_eq_true, true_imp_iff]
  refine ⟨fun hlarge => ?_, fun _ => ?_⟩
  · -- A block larger than the arena fits into no span of it.
    rintro span hspan ⟨offset, hfrom, hto, -⟩
    have := ha.stop_le (.inl hspan)
    rw [ha.cap_eq] at hlarge
    omega
  rcases hfit : firstFit a.base bytes align a.free with e | (_ | fit)
  · rw [hfit] at hsearch
    exact ⟨⟨rfl, le_rfl⟩, .inl hsearch⟩
  · rw [hfit] at hsearch
    exact ⟨rfl, hsearch⟩
  · rw [hfit] at hsearch
    exact takeBlock_spec ha hbytes heap hsearch

/-- A call with a bad argument throws before it changes anything. -/
lemma tryAlloc_keeps (bytes align : ℕ) (heap : Heap) :
    Keeps (Sound mapping) (tryAlloc bytes align heap) := by
  intro a ha
  by_cases hargs : bytes ≠ 0 ∧ IsPowerOfTwo align
  · refine wp_mono (tryAlloc_spec ha hargs.1 hargs.2 heap) (fun r a' h => ?_)
      (fun _ _ h => h.1.sound ha)
    cases r with
    | none => exact h.1 ▸ ha
    | some ptr => exact h.1
  · unfold tryAlloc
    simp only [wp_bind, wp_get, wp_throwIf]
    refine ⟨fun _ => ha, fun _ => ⟨fun _ => ha, fun halign => ⟨fun _ => ha, fun hbytes => ?_⟩⟩⟩
    exact absurd ⟨hbytes, not_not.mp halign⟩ hargs

/-- Erasing the entry a lookup finds. -/
lemma perm_eraseP_of_lookup {l : List (ℕ × Span)} {block : ℕ} {live : Span}
    (hlookup : l.lookup block = some live) :
    l.Perm ((block, live) :: l.eraseP (·.1 = block)) := by
  induction l with
  | nil => simp at hlookup
  | cons entry l ih =>
    obtain ⟨key, value⟩ := entry
    rw [List.lookup_cons] at hlookup
    by_cases hkey : block = key
    · subst hkey
      obtain rfl : value = live := by simpa using hlookup
      rw [List.eraseP_cons_of_pos (by simp)]
    · have hrest : l.lookup block = some live := by
        rwa [beq_false_of_ne hkey] at hlookup
      rw [List.eraseP_cons_of_neg (by simpa using Ne.symm hkey)]
      exact ((ih hrest).cons _).trans (.swap ..)

namespace Sound

variable (ha : Sound mapping a)

include ha

/-- An address belongs to one block. -/
lemma block_unique {block : ℕ} {s t : Span} (hs : (block, s) ∈ a.live) (ht : (block, t) ∈ a.live) :
    s = t := by
  have hoffset : s.offset = t.offset := by
    have := ha.address _ hs
    have := ha.address _ ht
    simp only at *
    omega
  have hsmem : s ∈ a.blocks := List.mem_map_of_mem (f := (·.2)) hs
  have htmem : t ∈ a.blocks := List.mem_map_of_mem (f := (·.2)) ht
  have hspos := ha.blocks_pos s hsmem
  have htpos := ha.blocks_pos t htmem
  by_contra hne
  have hextent : s.extent ≠ t.extent := by
    intro h
    injection h with _ _ hsize
    exact hne (by cases s; cases t; simp_all)
  have hdisjoint := ha.tiles.stop_le_start_or (Multiset.mem_add.mpr (.inr (extent_mem hsmem)))
    (Multiset.mem_add.mpr (.inr (extent_mem htmem))) hextent rfl hspos htpos
  simp only [Extent.stop, Span.extent] at hdisjoint
  omega

lemma lookup_eq {block : ℕ} {live : Span} (hlive : (block, live) ∈ a.live) :
    a.live.lookup block = some live := by
  cases hlookup : a.live.lookup block with
  | none => exact absurd hlive (by simpa using List.lookup_eq_none_iff.mp hlookup _ hlive)
  | some other =>
    have hother := (perm_eraseP_of_lookup hlookup).symm.subset List.mem_cons_self
    rw [ha.block_unique hother hlive]

/-- Giving a live block back keeps the arena sound. -/
lemma insertFreeSpan {ptr offset size : ℕ} {rest : List (ℕ × Span)}
    (hperm : a.live.Perm ((ptr, ⟨offset, size⟩) :: rest)) :
    Sound mapping (({ a with live := rest, used := a.used - size } : HostPinnedArena).insertFreeSpan
      offset size) := by
  have hblocks : a.blocks.Perm (⟨offset, size⟩ :: rest.map (·.2)) := hperm.map _
  have hextents : extents a.blocks = Span.extent ⟨offset, size⟩ ::ₘ extents (rest.map (·.2)) :=
    Multiset.coe_eq_coe.mpr (hblocks.map Span.extent)
  have hcov : ∀ x, coverage (extents a.free) () x +
      ((if (Span.extent ⟨offset, size⟩).Covers () x then 1 else 0) +
        coverage (extents (rest.map (·.2))) () x) = if x < capacity then 1 else 0 := by
    intro x
    have := ha.tiles () x
    rwa [hextents, coverage_add] at this
  obtain ⟨hfree, hfreeCov⟩ := insertFree_spec offset size ha.coalesced fun x => by
    have hle := ha.tiles.coverage_le_one () x
    rw [hextents, coverage_add, coverage_cons] at hle
    rw [coverage_cons]
    omega
  refine ⟨ha.base_eq, ha.cap_eq, ha.capacity_pos, hfree, fun r x => ?_, ?_, ?_, ?_, ?_⟩
  · show coverage (extents (insertFree _ _ _) + extents (rest.map (·.2))) () x =
      if x < capacity then 1 else 0
    rw [coverage_add, hfreeCov, coverage_cons, ← hcov x]
    omega
  · exact fun b hb => ha.blocks_pos b (hblocks.symm.subset (List.mem_cons_of_mem _ hb))
  · exact fun entry hentry => ha.address entry (hperm.symm.subset (List.mem_cons_of_mem _ hentry))
  · have hsum := (hblocks.map (·.size)).sum_eq
    show a.used - size = ((rest.map (·.2)).map (·.size)).sum
    rw [ha.used_eq, hsum, List.map_cons, List.sum_cons, Nat.add_sub_cancel_left]
  · have hlen := hperm.length_eq
    have hroom := ha.room
    rw [List.length_cons] at hlen
    exact le_max_of_le_left (by show rest.length + 1 ≤ a.freeCapacity; omega)

end Sound

/-- Giving a live block back succeeds, and the free list need not grow. -/
lemma release_spec (ha : Sound mapping a) {block : ℕ} {live : Span}
    (hlive : (block, live) ∈ a.live) :
    (release block).wp
      (fun _ a' => Sound mapping a' ∧ a.live.Perm ((block, live) :: a'.live) ∧
        a'.freeCapacity = a.freeCapacity)
      (fun _ _ => False) a := by
  have hnonnull : block ≠ 0 := by
    have haddress := ha.address _ hlive
    have := ha.nonnull
    omega
  have hlookup := ha.lookup_eq hlive
  have hperm := perm_eraseP_of_lookup hlookup
  have hsound := ha.insertFreeSpan hperm
  unfold release
  simp only [wp_bind, wp_get, wp_throwIf, hnonnull, false_imp_iff,
    true_and, not_false_eq_true, true_imp_iff, hlookup, wp_modify]
  refine ⟨hsound, hperm, max_eq_left ?_⟩
  have hlength := hsound.free_length_le
  have hroom := ha.room
  have hlen := hperm.length_eq
  rw [List.length_cons] at hlen
  refine hlength.trans ?_
  show (a.live.eraseP _).length + 1 ≤ a.freeCapacity
  omega

lemma release_keeps (block : ℕ) : Keeps (Sound mapping) (release block) := by
  intro a ha
  cases hlookup : a.live.lookup block with
  | some live =>
    have hlive := (perm_eraseP_of_lookup hlookup).symm.subset List.mem_cons_self
    exact wp_mono (release_spec ha hlive) (fun _ _ h => h.1) (fun _ _ h => h.elim)
  | none =>
    unfold release
    simp only [wp_bind, wp_get, wp_throwIf, hlookup]
    exact ⟨fun _ => ha, fun _ => ha⟩

/-! ## Every run -/

lemma Sound.new (hnew : HostPinnedArena.new mapping = .ok a) : Sound mapping a := by
  obtain ⟨hcapacity, hpure⟩ := refuseIf_bind_iff.mp hnew
  obtain rfl := ok_pure_iff.mp hpure
  have hpos : 0 < capacity := Nat.pos_of_ne_zero hcapacity
  refine ⟨rfl, rfl, hpos, ⟨?_, List.pairwise_singleton _ _⟩, fun r x => ?_,
    fun _ h => (by cases h), fun _ h => (by cases h), rfl, le_rfl⟩
  · intro s hs
    rw [List.mem_singleton.mp hs]
    exact hpos
  · show coverage ((⟨(), 0, capacity⟩ : Extent Unit) ::ₘ 0) () x = _
    rw [coverage_cons]
    simp [Extent.Covers, Extent.stop]

lemma Sound.run (ha : Sound mapping a) (calls : List Call) : Sound mapping (a.run calls) := by
  induction calls generalizing a with
  | nil => exact ha
  | cons c _ ih =>
    refine ih ?_
    cases c with
    | tryAlloc bytes align heap => exact wp_after (tryAlloc_keeps bytes align heap a ha)
    | free block => exact wp_after (release_keeps block a ha)

/-- **The arena's accounts.**  After any calls, the free list is ordered and coalesced, the free
spans and the live blocks cut the region into pieces, the used bytes are the live total, and there
is at most one free span more than there are live blocks.  `try_alloc` then returns an aligned block
inside the region that overlaps no live one, or changes nothing because no free span holds such a
block or because the host refused the metadata; giving a live block back succeeds without growing
the free list; and with no block left the arena is one free span again. -/
theorem hostPinnedArena_accounts {a₀ : HostPinnedArena}
    (hnew : HostPinnedArena.new mapping = .ok a₀) (calls : List Call) :
    let a := a₀.run calls
    Sound mapping a ∧ a.free.length ≤ a.live.length + 1 ∧
      (∀ bytes align heap, bytes ≠ 0 → IsPowerOfTwo align →
        (tryAlloc bytes align heap).wp
          (fun
            | some ptr, a' => Sound mapping a' ∧ Granted a a' bytes align ptr
            | none, a' => a' = a ∧ ∀ span ∈ a.free, ¬span.Holds a.base bytes align)
          (fun e a' => Unchanged a a' ∧ ((∀ span ∈ a.free, ¬span.Holds a.base bytes align) ∨
            e = .badAlloc ∧ heap ≠ .serves)) a) ∧
      (∀ block live, (block, live) ∈ a.live →
        (release block).wp
          (fun _ a' => Sound mapping a' ∧ a.live.Perm ((block, live) :: a'.live) ∧
            a'.freeCapacity = a.freeCapacity)
          (fun _ _ => False) a) ∧
      (a.live = [] → a.free = a₀.free ∧ a.used = 0) := by
  intro a
  have ha₀ := Sound.new hnew
  have ha : Sound mapping a := ha₀.run calls
  have hfree₀ : a₀.free = [⟨0, capacity⟩] := by
    obtain ⟨-, hpure⟩ := refuseIf_bind_iff.mp hnew
    rw [← ok_pure_iff.mp hpure]
  refine ⟨ha, ha.free_length_le, ?_, fun _ _ => release_spec ha, fun hlive => ?_⟩
  · exact fun _ _ heap hbytes halign => tryAlloc_spec ha hbytes halign heap
  · rw [hfree₀]
    exact ha.free_of_live_nil hlive

/-- A region whose base is not aligned. -/
def smallMapping : Mapping 100 := ⟨4100, by decide, by decide⟩

theorem hostPinnedArena_accounts_small :
    ∃ a₀, HostPinnedArena.new smallMapping = .ok a₀ ∧
      (let a := a₀.run [.tryAlloc 10 16 .serves, .tryAlloc 20 8 .serves, .free 4112];
        a.free = [⟨0, 28⟩, ⟨48, 52⟩] ∧ a.live = [(4128, ⟨28, 20⟩)] ∧ Sound smallMapping a) :=
  ⟨_, rfl, by decide +kernel, by decide +kernel, (hostPinnedArena_accounts rfl _).1⟩

end NInfer.Core.HostPinnedArena
