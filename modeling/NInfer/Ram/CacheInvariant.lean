import NInfer.Core.HostArenaAccounts
import NInfer.Ram.Cache

/-!
# What the calls of the RAM tier keep

`Sound` is the invariant of the cache: `fifo_` lists the live records in the order of their ids, and
the blocks that the arena has handed out are those of the records and of the capture under way.
`Follows` compares the cache before and after a call: what is gone stays gone, and a live entry
stays live unless the call is allowed to lose it.  Every call is made of three edits, whose lemmas
the rest is assembled from: marks on a record that is where it was (`Sound.update`), the retirement
of an entry (`Sound.unlist`), and the release of a block (`freeBlock_spec`).
-/

namespace NInfer.Ram

open NInfer.Core (Exception HostPinnedArena Mapping Span)
open Throwing

/-! ## What holds between calls -/

def Record.allocation (r : Record) : ℕ × ℕ := (r.block, r.bytes)

/-- The block that a capture holds without a record. -/
def Capture.blocks : Capture → List (ℕ × ℕ)
  | .filling block bytes | .unwinding block bytes => [(block, bytes)]
  | _ => []

namespace Cache

/-- The entry is in the index. -/
def Live (c : Cache) (id : ℕ) : Prop := ∃ r ∈ c.records, r.id = id ∧ r.retired = false

/-- The entry has been retired; its block may have gone back. -/
def Gone (c : Cache) (id : ℕ) : Prop :=
  (∃ r ∈ c.records, r.id = id ∧ r.retired = true) ∨ ∃ r ∈ c.returned, r.id = id

variable {capacity : ℕ}

/-- The invariant of the cache while a capture stands at `capture`. -/
structure Sound (mapping : Mapping capacity) (capture : Capture) (c : Cache) : Prop where
  arena : c.arena.Sound mapping
  blocks : (c.arena.live.map fun entry => (entry.1, entry.2.size)).Perm
    (c.records.map Record.allocation ++ capture.blocks)
  ids : ((c.records ++ c.returned).map (·.id)).Nodup
  fresh : ∀ r ∈ c.records ++ c.returned, c.nextId = 0 ∨ r.id < c.nextId
  nextId_lt : c.nextId < 2 ^ 64
  ordered : c.fifo.Pairwise (· < ·)
  listed : ∀ id ∈ c.fifo, c.Live id
  unretired : ∀ id, c.Live id → id ∈ c.fifo ∨ capture = .withdrawing id false
  claimed : ∀ r ∈ c.records, r.pinned = true →
    r.retired = false ∧ ∀ listed, capture ≠ .withdrawing r.id listed
  returned : ∀ r ∈ c.returned, r.RetiredFree

/-- What a call does to the entries; `lost` are those it may retire. -/
structure Follows (lost : ℕ → Prop) (c c' : Cache) : Prop where
  live : ∀ id, c.Live id → c'.Live id ∨ lost id ∧ c'.Gone id
  gone : ∀ id, c.Gone id → c'.Gone id

variable {lost lost' : ℕ → Prop} {c c' c'' : Cache}

lemma Follows.refl (c : Cache) : c.Follows lost c := ⟨fun _ h => .inl h, fun _ h => h⟩

lemma Follows.trans (h : c.Follows lost c') (h' : c'.Follows lost c'') : c.Follows lost c'' := by
  refine ⟨fun id hid => ?_, fun id hid => h'.gone id (h.gone id hid)⟩
  rcases h.live id hid with hlive | ⟨hlost, hgone⟩
  · exact h'.live id hlive
  · exact .inr ⟨hlost, h'.gone id hgone⟩

lemma Follows.mono (h : c.Follows lost c') (hlost : ∀ id, lost id → lost' id) :
    c.Follows lost' c' :=
  ⟨fun id hid => (h.live id hid).imp_right (And.imp_left (hlost id)), h.gone⟩

variable {id : ℕ}

lemma mem_of_find {r : Record} (h : c.find id = some r) : r ∈ c.records ∧ r.id = id :=
  ⟨List.mem_of_find?_eq_some h, by simpa using List.find?_some h⟩

variable {mapping : Mapping capacity} {capture : Capture}

/-- Ids identify records. -/
lemma Sound.eq_of_id (h : c.Sound mapping capture) {r r' : Record} (hr : r ∈ c.records)
    (hr' : r' ∈ c.records) (hid : r.id = r'.id) : r = r' := by
  have hnodup : (c.records.map (·.id)).Nodup := by
    have hids := h.ids
    rw [List.map_append] at hids
    exact hids.of_append_left
  exact List.inj_on_of_nodup_map hnodup hr hr' hid

/-- A part of the records that `f` leaves alone. -/
lemma map_update {α : Type} {f : Record → Record} {g : Record → α}
    (hg : ∀ r ∈ c.records, r.id = id → g (f r) = g r) :
    (c.update id f).records.map g = c.records.map g := by
  unfold update
  rw [List.map_map]
  refine List.map_congr_left fun r hr => ?_
  simp only [Function.comp]
  split
  case isTrue hid => exact hg r hr hid
  case isFalse => rfl

lemma mem_update {f : Record → Record} {r : Record} :
    r ∈ (c.update id f).records ↔ ∃ r' ∈ c.records, (if r'.id = id then f r' else r') = r :=
  List.mem_map

end Cache

/-- The two records are of one entry with one block, both in the index or both out of it. -/
structure Record.Same (r r' : Record) : Prop where
  id : r'.id = r.id
  allocation : r'.allocation = r.allocation
  retired : r'.retired = r.retired

namespace Cache

variable {capacity : ℕ} {mapping : Mapping capacity} {capture : Capture} {c c' : Cache}
  {lost : ℕ → Prop} {id : ℕ} {f : Record → Record}

section Update

variable (hf : ∀ r ∈ c.records, r.id = id → r.Same (f r))

include hf

lemma same_of_mem_update {r : Record} (hr : r ∈ c.records) :
    r.Same (if r.id = id then f r else r) := by
  split
  case isTrue hid => exact hf r hr hid
  case isFalse => exact ⟨rfl, rfl, rfl⟩

lemma live_update {id' : ℕ} : (c.update id f).Live id' ↔ c.Live id' := by
  constructor
  · rintro ⟨r, hr, hid, hretired⟩
    obtain ⟨r', hr', rfl⟩ := mem_update.mp hr
    have hsame := same_of_mem_update hf hr'
    exact ⟨r', hr', hsame.id ▸ hid, hsame.retired ▸ hretired⟩
  · rintro ⟨r, hr, hid, hretired⟩
    have hsame := same_of_mem_update hf hr
    exact ⟨_, mem_update.mpr ⟨r, hr, rfl⟩, hsame.id.trans hid, hsame.retired.trans hretired⟩

lemma gone_update {id' : ℕ} (h : c.Gone id') : (c.update id f).Gone id' := by
  rcases h with ⟨r, hr, hid, hretired⟩ | hreturned
  · have hsame := same_of_mem_update hf hr
    exact .inl ⟨_, mem_update.mpr ⟨r, hr, rfl⟩, hsame.id.trans hid, hsame.retired.trans hretired⟩
  · exact .inr hreturned

lemma follows_update : c.Follows lost (c.update id f) :=
  ⟨fun _ h => .inl ((live_update hf).mpr h), fun _ h => gone_update hf h⟩

/-- Marks on the record of one entry. -/
lemma Sound.update (h : c.Sound mapping capture)
    (hpinned : ∀ r ∈ c.records, r.id = id → (f r).pinned = true →
      r.pinned = true ∨ r.retired = false ∧ capture = .idle) :
    (c.update id f).Sound mapping capture where
  arena := h.arena
  blocks := by
    rw [map_update fun r hr hid => (hf r hr hid).allocation]
    exact h.blocks
  ids := by
    rw [List.map_append, map_update fun r hr hid => (hf r hr hid).id, ← List.map_append]
    exact h.ids
  fresh r hr := by
    rcases List.mem_append.mp hr with hr | hr
    · obtain ⟨r', hr', rfl⟩ := mem_update.mp hr
      rw [(same_of_mem_update hf hr').id]
      exact h.fresh r' (List.mem_append_left _ hr')
    · exact h.fresh r (List.mem_append_right _ hr)
  nextId_lt := h.nextId_lt
  ordered := h.ordered
  listed id' hid := (live_update hf).mpr (h.listed id' hid)
  unretired id' hid := h.unretired id' ((live_update hf).mp hid)
  claimed r hr hpin := by
    obtain ⟨r', hr', rfl⟩ := mem_update.mp hr
    have hsame := same_of_mem_update hf hr'
    rw [hsame.id, hsame.retired]
    have hor : r'.pinned = true ∨ r'.retired = false ∧ capture = .idle := by
      split at hpin
      case isTrue hid => exact hpinned r' hr' hid hpin
      case isFalse => exact .inl hpin
    rcases hor with hpin' | ⟨hretired, rfl⟩
    · exact h.claimed r' hr' hpin'
    · exact ⟨hretired, fun _ => by simp⟩
  returned := h.returned

end Update

/-! ## Retiring an entry -/

lemma mem_unlist {r : Record} : r ∈ (c.unlist id).records ↔ ∃ r' ∈ c.records,
    (if r'.id = id then { r' with retired := true, pinned := false } else r') = r :=
  List.mem_map

lemma live_unlist {id' : ℕ} : (c.unlist id).Live id' ↔ c.Live id' ∧ id' ≠ id := by
  constructor
  · rintro ⟨r, hr, rfl, hretired⟩
    obtain ⟨r', hr', rfl⟩ := mem_unlist.mp hr
    split at hretired
    case isTrue => exact absurd hretired (by simp)
    case isFalse hid => exact ⟨⟨r', hr', by rw [if_neg hid], hretired⟩, by rwa [if_neg hid]⟩
  · rintro ⟨⟨r, hr, rfl, hretired⟩, hne⟩
    exact ⟨r, mem_unlist.mpr ⟨r, hr, if_neg hne⟩, rfl, hretired⟩

lemma Sound.unlist (h : c.Sound mapping capture) (id : ℕ) :
    (c.unlist id).Sound mapping capture where
  arena := h.arena
  blocks := by
    have hmap : (c.unlist id).records.map Record.allocation = c.records.map Record.allocation :=
      map_update fun _ _ _ => rfl
    rw [hmap]
    exact h.blocks
  ids := by
    have hmap : (c.unlist id).records.map (·.id) = c.records.map (·.id) :=
      map_update fun _ _ _ => rfl
    rw [List.map_append, hmap, ← List.map_append]
    exact h.ids
  fresh r hr := by
    rcases List.mem_append.mp hr with hr | hr
    · obtain ⟨r', hr', rfl⟩ := mem_unlist.mp hr
      have hfresh := h.fresh r' (List.mem_append_left _ hr')
      split <;> exact hfresh
    · exact h.fresh r (List.mem_append_right _ hr)
  nextId_lt := h.nextId_lt
  ordered := h.ordered.filter _
  listed id' hid := by
    obtain ⟨hmem, hne⟩ := List.mem_filter.mp hid
    exact live_unlist.mpr ⟨h.listed id' hmem, by simpa using hne⟩
  unretired id' hid := by
    obtain ⟨hlive, hne⟩ := live_unlist.mp hid
    refine (h.unretired id' hlive).imp_left fun hmem => ?_
    exact List.mem_filter.mpr ⟨hmem, by simpa using hne⟩
  claimed r hr hpin := by
    obtain ⟨r', hr', rfl⟩ := mem_unlist.mp hr
    split at hpin
    case isTrue => exact absurd hpin (by simp)
    case isFalse hid =>
      rw [if_neg hid]
      exact h.claimed r' hr' hpin
  returned := h.returned

/-! ## Returning a block -/

/-- Some retired records have given their blocks back, and nothing else has changed. -/
structure Reaped (c c' : Cache) : Prop where
  kept : ∀ r ∈ c.records, r ∈ c'.records ∨ r ∈ c'.returned ∧ r.RetiredFree
  returned : ∀ r ∈ c.returned, r ∈ c'.returned
  fifo : c'.fifo = c.fifo

lemma Reaped.refl (c : Cache) : c.Reaped c := ⟨fun _ h => .inl h, fun _ h => h, rfl⟩

lemma Reaped.trans {c'' : Cache} (h : c.Reaped c') (h' : c'.Reaped c'') : c.Reaped c'' := by
  refine ⟨fun r hr => ?_, fun r hr => h'.returned r (h.returned r hr), h'.fifo.trans h.fifo⟩
  rcases h.kept r hr with hkept | ⟨hreturned, hfree⟩
  · exact h'.kept r hkept
  · exact .inr ⟨h'.returned r hreturned, hfree⟩

/-- A record that could not go back yet is where it was. -/
lemma Reaped.mem (h : c.Reaped c') {r : Record} (hr : r ∈ c.records)
    (hretired : r.retired = false) : r ∈ c'.records := by
  rcases h.kept r hr with hkept | ⟨-, hfree⟩
  · exact hkept
  · have hcontra := hfree.1
    rw [hretired] at hcontra
    exact absurd hcontra (by simp)

lemma Reaped.gone (h : c.Reaped c') (hgone : c.Gone id) : c'.Gone id := by
  rcases hgone with ⟨r, hr, rfl, hretired⟩ | ⟨r, hr, rfl⟩
  · rcases h.kept r hr with hkept | ⟨hreturned, -⟩
    · exact .inl ⟨r, hkept, rfl, hretired⟩
    · exact .inr ⟨r, hreturned, rfl⟩
  · exact .inr ⟨r, h.returned r hr, rfl⟩

lemma Reaped.follows (h : c.Reaped c') : c.Follows lost c' := by
  refine ⟨fun id hid => ?_, fun id => h.gone⟩
  obtain ⟨r, hr, rfl, hretired⟩ := hid
  exact .inl ⟨r, h.mem hr hretired, rfl, hretired⟩

section

variable (h : c.Sound mapping capture)

include h

/-- The records without one of them. -/
lemma Sound.perm_filter {r : Record} (hr : r ∈ c.records) :
    c.records.Perm (r :: c.records.filter (·.id ≠ r.id)) := by
  have hnodup : (c.records.map (·.id)).Nodup := by
    have hids := h.ids
    rw [List.map_append] at hids
    exact hids.of_append_left
  have herase : c.records.erase r = c.records.filter (·.id ≠ r.id) := by
    rw [hnodup.of_map.erase_eq_filter]
    refine List.filter_congr fun r' hr' => ?_
    have hiff : r' = r ↔ r'.id = r.id := ⟨fun heq => heq ▸ rfl, h.eq_of_id hr' hr⟩
    rw [Bool.eq_iff_iff, bne_iff_ne, decide_eq_true_iff, ne_eq, hiff]
  rw [← herase]
  exact List.perm_cons_erase hr

/-- The arena knows the block of every record. -/
lemma Sound.exists_live {r : Record} (hr : r ∈ c.records) :
    ∃ span, (r.block, span) ∈ c.arena.live ∧ span.size = r.bytes := by
  have hmem : r.allocation ∈ c.arena.live.map fun entry => (entry.1, entry.2.size) :=
    h.blocks.symm.subset (List.mem_append_left _ (List.mem_map_of_mem hr))
  obtain ⟨⟨block, span⟩, hlive, heq⟩ := List.mem_map.mp hmem
  obtain ⟨rfl, hsize⟩ := Prod.mk.inj heq
  exact ⟨span, hlive, hsize⟩

end

end Cache

open Cache

variable {capacity : ℕ} {mapping : Mapping capacity} {capture : Capture} {c c' : Cache}
  {lost : ℕ → Prop} {id : ℕ}

/-- Giving a live block back takes it out of the arena's blocks. -/
lemma onArena_release_spec (ha : c.arena.Sound mapping) {block bytes : ℕ} {rest : List (ℕ × ℕ)}
    (hblocks : (c.arena.live.map fun entry => (entry.1, entry.2.size)).Perm
      ((block, bytes) :: rest)) :
    wp (onArena (HostPinnedArena.release block))
      (fun _ c' => ∃ arena : HostPinnedArena, c' = { c with arena } ∧ arena.Sound mapping ∧
        (arena.live.map fun entry => (entry.1, entry.2.size)).Perm rest)
      (fun _ _ => False) c := by
  obtain ⟨⟨block', span⟩, hlive, heq⟩ := List.mem_map.mp (hblocks.symm.subset List.mem_cons_self)
  obtain ⟨rfl, hsize⟩ := Prod.mk.inj heq
  rw [onArena, wp_zoom]
  refine wp_imp (HostPinnedArena.release_spec ha hlive) fun _ arena harena => ?_
  obtain ⟨hsound, hperm, -⟩ := harena
  refine ⟨arena, rfl, hsound, ?_⟩
  have hmap := (hperm.map fun entry => (entry.1, entry.2.size)).symm.trans hblocks
  rw [List.map_cons, hsize] at hmap
  exact hmap.cons_inv

section

variable (h : c.Sound mapping capture)

include h

/-- The block of a retired record that nobody reads goes back. -/
lemma freeBlock_spec {r : Record} (hr : r ∈ c.records) (hfree : r.RetiredFree) :
    wp (freeBlock r) (fun _ c' => c'.Sound mapping capture ∧ c.Reaped c' ∧
        c'.records = c.records.filter (·.id ≠ r.id)) (fun _ _ => False) c := by
  have hperm := h.perm_filter hr
  obtain ⟨span, hlive, -⟩ := h.exists_live hr
  have hnonnull : r.block ≠ 0 := by
    have haddress := h.arena.address _ hlive
    have hbase := h.arena.nonnull
    omega
  have hblocks : (c.arena.live.map fun entry => (entry.1, entry.2.size)).Perm
      ((r.block, r.bytes) ::
        ((c.records.filter (·.id ≠ r.id)).map Record.allocation ++ capture.blocks)) :=
    h.blocks.trans ((hperm.map Record.allocation).append_right _)
  rw [freeBlock, returnBlock, if_pos hnonnull, wp_bind]
  refine wp_imp (onArena_release_spec h.arena hblocks) fun _ c₁ hc₁ => ?_
  obtain ⟨arena, rfl, harena, hrest⟩ := hc₁
  have hmem : ∀ r' ∈ c.records, r' ∈ c.records.filter (·.id ≠ r.id) ∨ r' = r := by
    intro r' hr'
    rcases List.mem_cons.mp (hperm.subset hr') with rfl | hmem
    · exact .inr rfl
    · exact .inl hmem
  have hback : ∀ {r'}, r' ∈ c.records.filter (·.id ≠ r.id) → r' ∈ c.records :=
    fun hr' => List.mem_of_mem_filter hr'
  have hlive : ∀ id, c.Live id ↔ ∃ r' ∈ c.records.filter (·.id ≠ r.id), r'.id = id ∧
      r'.retired = false := by
    intro id
    constructor
    · rintro ⟨r', hr', hid, hretired⟩
      rcases hmem r' hr' with hr' | rfl
      · exact ⟨r', hr', hid, hretired⟩
      · exact absurd hretired (by simp [hfree.1])
    · rintro ⟨r', hr', hid, hretired⟩
      exact ⟨r', hback hr', hid, hretired⟩
  have hall : (c.records ++ c.returned).Perm
      (c.records.filter (·.id ≠ r.id) ++ r :: c.returned) :=
    (hperm.append_right _).trans List.perm_middle.symm
  refine ⟨⟨harena, hrest, ?_, ?_, h.nextId_lt, h.ordered, ?_, ?_, ?_, ?_⟩, ⟨?_, ?_, rfl⟩, rfl⟩
  · exact (hall.map _).nodup_iff.mp h.ids
  · exact fun r' hr' => h.fresh r' (hall.symm.subset hr')
  · exact fun id hid => (hlive id).mp (h.listed id hid)
  · exact fun id hid => h.unretired id ((hlive id).mpr hid)
  · exact fun r' hr' => h.claimed r' (hback hr')
  · intro r' hr'
    rcases List.mem_cons.mp hr' with rfl | hr'
    · exact hfree
    · exact h.returned r' hr'
  · intro r' hr'
    rcases hmem r' hr' with hr' | rfl
    · exact .inl hr'
    · exact .inr ⟨List.mem_cons_self, hfree⟩
  · exact fun r' hr' => List.mem_cons_of_mem _ hr'

lemma freeIfRetired_spec {r : Record} (hr : r ∈ c.records) :
    wp (freeIfRetired r) (fun _ c' => c'.Sound mapping capture ∧ c.Reaped c' ∧
        ∀ r' ∈ c.records, r'.id ≠ r.id → r' ∈ c'.records) (fun _ _ => False) c := by
  rw [freeIfRetired, wp_ite]
  refine ⟨fun hfree => ?_, fun _ => ⟨h, .refl c, fun r' hr' _ => hr'⟩⟩
  refine wp_imp (freeBlock_spec h hr hfree) fun _ c' hc' => ?_
  obtain ⟨hsound, hreaped, hrecords⟩ := hc'
  refine ⟨hsound, hreaped, fun r' hr' hne => ?_⟩
  rw [hrecords]
  exact List.mem_filter.mpr ⟨hr', by simpa using hne⟩

/-- The loop of `reap_retired_locked`, over records of different entries. -/
lemma forEach_freeIfRetired_spec {rs : List Record}
    (hrs : ∀ r ∈ rs, r ∈ c.records) (hnodup : (rs.map (·.id)).Nodup) :
    wp (forEach rs freeIfRetired) (fun _ c' => c'.Sound mapping capture ∧ c.Reaped c')
      (fun _ _ => False) c := by
  induction rs generalizing c with
  | nil => exact ⟨h, .refl c⟩
  | cons r rs ih =>
    rw [List.map_cons, List.nodup_cons] at hnodup
    rw [forEach, wp_bind]
    refine wp_imp (freeIfRetired_spec h (hrs r List.mem_cons_self)) fun _ c₁ hc₁ => ?_
    obtain ⟨hsound, hreaped, hothers⟩ := hc₁
    -- The records still to come are of other entries, so they are where they were.
    have hrest : ∀ r' ∈ rs, r' ∈ c₁.records := by
      intro r' hr'
      refine hothers r' (hrs r' (List.mem_cons_of_mem _ hr')) fun hid => hnodup.1 ?_
      exact hid ▸ List.mem_map_of_mem hr'
    refine wp_imp (ih hsound hrest hnodup.2) fun _ c₂ hc₂ => ?_
    exact ⟨hc₂.1, hreaped.trans hc₂.2⟩

lemma reapRetiredLocked_spec :
    wp reapRetiredLocked (fun _ c' => c'.Sound mapping capture ∧ c.Reaped c')
      (fun _ _ => False) c := by
  have hids := h.ids
  rw [List.map_append] at hids
  exact forEach_freeIfRetired_spec h (fun _ hr => hr) hids.of_append_left

end

/-! ## The calls -/

/-- What a call that starts with `c` leaves, whichever way it exits. -/
def After (mapping : Mapping capacity) (capture : Capture) (lost : ℕ → Prop) (c c' : Cache) :
    Prop :=
  c'.Sound mapping capture ∧ c.Follows lost c'

/-- A call on `c` retires only what is `lost`. -/
def Safe (mapping : Mapping capacity) (capture : Capture) (lost : ℕ → Prop) (c : Cache) {α : Type}
    (m : Call α) : Prop :=
  wp m (fun _ => After mapping capture lost c) (fun _ => After mapping capture lost c) c

variable {α : Type}

lemma Safe.pure (h : c.Sound mapping capture) (a : α) :
    Safe mapping capture lost c (pure a : Call α) :=
  ⟨h, .refl c⟩

lemma Safe.throw (h : c.Sound mapping capture) (e : Exception) :
    Safe mapping capture lost c (throw e : Call α) :=
  ⟨h, .refl c⟩

/-- After a call that loses nothing comes one that starts where it ended. -/
lemma After.safe {m : Call α} (h : After mapping capture lost c c')
    (hm : Safe mapping capture lost c' m) :
    wp m (fun _ => After mapping capture lost c) (fun _ => After mapping capture lost c) c' :=
  wp_mono hm (fun _ _ h' => ⟨h'.1, h.2.trans h'.2⟩) (fun _ _ h' => ⟨h'.1, h.2.trans h'.2⟩)

section

variable (h : c.Sound mapping capture)

include h

variable {α : Type}

/-- A call that reaps first. -/
lemma Safe.reap {m : Call α}
    (hm : ∀ c', c'.Sound mapping capture → c.Reaped c' → Safe mapping capture lost c' m) :
    Safe mapping capture lost c (reapRetiredLocked >>= fun _ => m) := by
  rw [Safe, wp_bind]
  refine wp_mono (reapRetiredLocked_spec h) (fun _ c' hc' => ?_) (fun _ _ h => h.elim)
  obtain ⟨hsound, hreaped⟩ := hc'
  have hafter : After mapping capture lost c c' := ⟨hsound, hreaped.follows⟩
  exact hafter.safe (hm c' hsound hreaped)

/-- A call that starts with `require`. -/
lemma Safe.require {m : Record → Call α}
    (hm : ∀ r ∈ c.records, r.id = id → r.retired = false → Safe mapping capture lost c (m r)) :
    Safe mapping capture lost c (Ram.require id >>= m) := by
  rw [Safe, wp_bind, Ram.require, wp_bind, wp_get, wp_ofExcept]
  refine ⟨fun r hr => ?_, fun _ _ => ⟨h, .refl c⟩⟩
  unfold Cache.require at hr
  split at hr
  case h_1 => exact absurd hr (by simp)
  case h_2 record hfind =>
    split at hr
    case isTrue => exact absurd hr (by simp)
    case isFalse hretired =>
      obtain rfl := Except.ok.inj hr
      obtain ⟨hmem, hid⟩ := mem_of_find hfind
      exact hm record hmem hid (by simpa using hretired)

lemma Safe.throwIf {p : Prop} [Decidable p] {e : Exception} {m : Call α}
    (hm : ¬p → Safe mapping capture lost c m) :
    Safe mapping capture lost c (throwIf p e >>= fun _ => m) := by
  rw [Safe, wp_bind, wp_throwIf]
  exact ⟨fun _ => ⟨h, .refl c⟩, hm⟩

/-- A call that ends with marks on a record. -/
lemma Safe.update {f : Record → Record} (hf : ∀ r ∈ c.records, r.id = id → r.Same (f r))
    (hpinned : ∀ r ∈ c.records, r.id = id → (f r).pinned = true →
      r.pinned = true ∨ r.retired = false ∧ capture = .idle) :
    Safe mapping capture lost c (modify fun c => c.update id f : Call Unit) := by
  exact ⟨h.update hf hpinned, follows_update hf⟩

end

section

variable (h : c.Sound mapping capture)

include h

end

section

variable (h : c.Sound mapping capture)

include h

/-- The lists of pending copies matter to nothing else. -/
lemma Safe.pending {g : Cache → Cache}
    (hg : ∃ save load, g c = { c with pendingSaveIds := save, pendingLoadIds := load }) :
    Safe mapping capture lost c (modify g : Call Unit) := by
  obtain ⟨save, load, heq⟩ := hg
  rw [Safe, wp_modify, heq]
  exact ⟨{ h with }, ⟨fun _ h => .inl h, fun _ h => h⟩⟩

end

section

variable (h : c.Sound mapping capture)

include h

end

end NInfer.Ram
