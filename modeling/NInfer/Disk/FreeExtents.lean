import NInfer.Foundation.Coverage

/-!
# The free-extent index of a pack

The disk cache stores objects in pack files, one family of numbered segments per object kind, and
keeps the unused extents of a kind in two indexes at once (`FreeExtents` in `kv_disk_cache.h`):
`sizes`, a multimap from extent size to extent key, and `offsets`, a map from extent key to an
iterator into `sizes`.  An iterator denotes a node, not a value: a node that is extracted, rewritten
and inserted again is still the node its iterators denote.  Nodes therefore carry an identity here,
and `OffsetNode.size` is the identity of the node an iterator points to.

This module holds the index and the pure part of `insert_free_extent`, of the carving done by
`reserve_pack_extent` and `defrag_idle_step`, and of the extraction and re-insertion done by
`trim_pack_tails`.
-/

namespace NInfer.Disk

/-- `ExtentKey`: a segment number and an offset, ordered as `std::pair` orders them. -/
structure ExtentKey where
  segment : ℕ
  offset : ℕ
  deriving DecidableEq

instance : LT ExtentKey where
  lt a b := a.segment < b.segment ∨ a.segment = b.segment ∧ a.offset < b.offset

lemma ExtentKey.lt_iff (a b : ExtentKey) :
    a < b ↔ a.segment < b.segment ∨ a.segment = b.segment ∧ a.offset < b.offset := Iff.rfl

instance (a b : ExtentKey) : Decidable (a < b) :=
  inferInstanceAs (Decidable (_ ∨ _ ∧ _))

/-- A node of the by-size multimap. -/
structure SizeNode where
  id : ℕ
  bytes : ℕ
  key : ExtentKey
  deriving DecidableEq

/-- A node of the by-offset map; `size` is the identity of the by-size node it points to. -/
structure OffsetNode where
  key : ExtentKey
  size : ℕ
  deriving DecidableEq

/-- The extent a by-size node describes. -/
def SizeNode.extent (n : SizeNode) : Extent ℕ := ⟨n.key.segment, n.key.offset, n.bytes⟩

/-- The two indexes, in iteration order, and the identity of the next node to be allocated. -/
structure FreeExtents where
  sizes : List SizeNode := []
  offsets : List OffsetNode := []
  nextNode : ℕ := 0

/-- Insertion into the multimap: behind the nodes of equal size. -/
def insertSize (n : SizeNode) : List SizeNode → List SizeNode
  | [] => [n]
  | m :: rest => if m.bytes ≤ n.bytes then m :: insertSize n rest else n :: m :: rest

/-- Insertion into the map, which refuses a key it already has. -/
def insertOffset (n : OffsetNode) : List OffsetNode → List OffsetNode
  | [] => [n]
  | m :: rest =>
    if m.key < n.key then m :: insertOffset n rest
    else if m.key = n.key then m :: rest
    else n :: m :: rest

namespace FreeExtents

/-- The node an iterator denotes. -/
def deref (f : FreeExtents) (o : OffsetNode) : Option SizeNode :=
  f.sizes.find? fun n => n.id = o.size

/-- `it->second->first` for a by-offset iterator `it`. -/
def bytesOf (f : FreeExtents) (o : OffsetNode) : ℕ := ((f.deref o).map (·.bytes)).getD 0

/-- `offsets.lower_bound(key)`. -/
def lowerBound (f : FreeExtents) (key : ExtentKey) : Option OffsetNode :=
  f.offsets.find? fun o => ¬o.key < key

/-- The last by-offset node whose key is below `key`: `std::prev(offsets.lower_bound(key))`. -/
def before (f : FreeExtents) (key : ExtentKey) : Option OffsetNode :=
  (f.offsets.filter fun o => o.key < key).getLast?

/-- The last by-offset node whose key is not above `key`: `std::prev(offsets.upper_bound(key))`. -/
def notAfter (f : FreeExtents) (key : ExtentKey) : Option OffsetNode :=
  (f.offsets.filter fun o => ¬key < o.key).getLast?

/-- Remove a by-offset node and the by-size node it points to. -/
def unlink (f : FreeExtents) (o : OffsetNode) : FreeExtents :=
  { f with
    sizes := f.sizes.filter fun n => n.id ≠ o.size
    offsets := f.offsets.filter fun m => m.key ≠ o.key }

/-- Insert a by-size node and the by-offset node that points to it. -/
def link (f : FreeExtents) (n : SizeNode) : FreeExtents :=
  { f with
    sizes := insertSize n f.sizes
    offsets := insertOffset ⟨n.key, n.id⟩ f.offsets }

/-- The by-offset predecessor that ends exactly at `key`, if there is one. -/
def joinBefore (f : FreeExtents) (key : ExtentKey) : Option OffsetNode :=
  (f.before key).filter fun c =>
    c.key.segment = key.segment ∧ c.key.offset + f.bytesOf c = key.offset

/-- `insert_free_extent`, up to its final check: the index, and whether the by-offset insertion
took place. -/
def insertFreeExtent (f : FreeExtents) (segment offset bytes : ℕ) : FreeExtents × Bool :=
  if bytes = 0 then (f, true)
  else
    let next := f.lowerBound ⟨segment, offset⟩
    let previous := f.joinBefore ⟨segment, offset⟩
    let offset := (previous.map (·.key.offset)).getD offset
    let bytes := bytes + (previous.map f.bytesOf).getD 0
    let next := next.filter fun n => n.key = ⟨segment, offset + bytes⟩
    let bytes := bytes + (next.map f.bytesOf).getD 0
    let prepared : SizeNode := ⟨f.nextNode, bytes, ⟨segment, offset⟩⟩
    let f := { f with nextNode := f.nextNode + 1 }
    let f := (previous.map f.unlink).getD f
    let f := (next.map f.unlink).getD f
    (f.link prepared, f.offsets.all fun o => o.key ≠ prepared.key)

/-- Best fit: `sizes.lower_bound(bytes)`. -/
def bestFit (f : FreeExtents) (bytes : ℕ) : Option SizeNode :=
  f.sizes.find? fun n => bytes ≤ n.bytes

/-- Take the first `bytes` bytes of a free extent of `size` bytes; what remains keeps its nodes. -/
def carve (f : FreeExtents) (o : OffsetNode) (size bytes : ℕ) : FreeExtents :=
  let rest := f.unlink o
  if size - bytes ≠ 0 then
    rest.link ⟨o.size, size - bytes, ⟨o.key.segment, o.key.offset + bytes⟩⟩
  else rest

/-- The first free extent below `source` that can hold `bytes` bytes: the destination search of
`defrag_idle_step`. -/
def firstFitBelow (f : FreeExtents) (source : ExtentKey) (bytes : ℕ) : Option OffsetNode :=
  (f.offsets.takeWhile fun o => o.key < source).find? fun o => ¬f.bytesOf o < bytes

/-- The nodes of the free tail of a segment of `bytes` bytes, if it has one. -/
def freeTail (f : FreeExtents) (segment bytes : ℕ) : Option SizeNode :=
  ((f.notAfter ⟨segment, bytes⟩).filter fun o =>
    o.key.segment = segment ∧ o.key.offset + f.bytesOf o = bytes).bind f.deref

/-- Put the nodes of a tail back that could not be truncated, joining them to the extent before. -/
def relink (f : FreeExtents) (n : SizeNode) : FreeExtents :=
  match f.joinBefore n.key with
  | some previous => (f.unlink previous).link ⟨n.id, n.bytes + f.bytesOf previous, previous.key⟩
  | none => f.link n

/-- The free extents. -/
def extents (f : FreeExtents) : Multiset (Extent ℕ) := (f.sizes.map SizeNode.extent : List _)

end FreeExtents

/-! ## The two indexes are inverse to each other -/

lemma ExtentKey.lt_irrefl (a : ExtentKey) : ¬a < a := by
  rw [ExtentKey.lt_iff]
  omega

lemma ExtentKey.lt_trans {a b c : ExtentKey} (hab : a < b) (hbc : b < c) : a < c := by
  rw [ExtentKey.lt_iff] at *
  omega

lemma ExtentKey.lt_of_not_lt_of_ne {a b : ExtentKey} (hab : ¬a < b) (hne : a ≠ b) : b < a := by
  rw [ExtentKey.lt_iff] at *
  have : ¬(a.segment = b.segment ∧ a.offset = b.offset) := by
    rintro ⟨hs, ho⟩
    exact hne (by cases a; cases b; simp_all)
  omega

lemma insertSize_perm (n : SizeNode) (l : List SizeNode) : (insertSize n l).Perm (n :: l) := by
  induction l with
  | nil => exact .refl _
  | cons m l ih =>
    unfold insertSize
    split
    · exact (ih.cons m).trans (.swap n m l)
    · exact .refl _

lemma insertSize_sorted (n : SizeNode) {l : List SizeNode}
    (hl : l.Pairwise fun a b => a.bytes ≤ b.bytes) :
    (insertSize n l).Pairwise fun a b => a.bytes ≤ b.bytes := by
  induction l with
  | nil => exact List.pairwise_singleton _ _
  | cons m l ih =>
    obtain ⟨hm, hl⟩ := List.pairwise_cons.mp hl
    unfold insertSize
    split
    · refine List.pairwise_cons.mpr ⟨fun x hx => ?_, ih hl⟩
      rcases List.mem_cons.mp ((insertSize_perm n l).mem_iff.mp hx) with rfl | hx
      · assumption
      · exact hm x hx
    · refine List.pairwise_cons.mpr ⟨fun x hx => ?_, List.pairwise_cons.mpr ⟨hm, hl⟩⟩
      rcases List.mem_cons.mp hx with rfl | hx
      · omega
      · have := hm x hx
        omega

lemma insertOffset_perm (n : OffsetNode) {l : List OffsetNode} (hn : ∀ o ∈ l, o.key ≠ n.key) :
    (insertOffset n l).Perm (n :: l) := by
  induction l with
  | nil => exact .refl _
  | cons m l ih =>
    unfold insertOffset
    have hm := hn m List.mem_cons_self
    split
    · exact ((ih fun o ho => hn o (List.mem_cons_of_mem _ ho)).cons m).trans (.swap n m l)
    · exact .refl _

lemma insertOffset_sorted (n : OffsetNode) {l : List OffsetNode}
    (hl : l.Pairwise fun a b => a.key < b.key) (hn : ∀ o ∈ l, o.key ≠ n.key) :
    (insertOffset n l).Pairwise fun a b => a.key < b.key := by
  induction l with
  | nil => exact List.pairwise_singleton _ _
  | cons m l ih =>
    obtain ⟨hm, hl⟩ := List.pairwise_cons.mp hl
    have hrest : ∀ o ∈ l, o.key ≠ n.key := fun o ho => hn o (List.mem_cons_of_mem _ ho)
    have hne := hn m List.mem_cons_self
    unfold insertOffset
    split
    · refine List.pairwise_cons.mpr ⟨fun x hx => ?_, ih hl hrest⟩
      rcases List.mem_cons.mp ((insertOffset_perm n hrest).mem_iff.mp hx) with rfl | hx
      · assumption
      · exact hm x hx
    · rename_i hnot
      have hlt := ExtentKey.lt_of_not_lt_of_ne hnot hne
      refine List.pairwise_cons.mpr ⟨fun x hx => ?_, List.pairwise_cons.mpr ⟨hm, hl⟩⟩
      rcases List.mem_cons.mp hx with rfl | hx
      · exact hlt
      · exact ExtentKey.lt_trans hlt (hm x hx)

/-- Dropping the members whose (distinct) label is that of `x` drops exactly `x`. -/
lemma coe_filter_ne_of_nodup {α β : Type} [DecidableEq β] (g : α → β) {l : List α}
    (hl : (l.map g).Nodup) {x : α} (hx : x ∈ l) :
    (l : Multiset α) = x ::ₘ (l.filter fun y => g y ≠ g x : List α) := by
  induction l with
  | nil => cases hx
  | cons y l ih =>
    rw [List.map_cons, List.nodup_cons] at hl
    rcases List.mem_cons.mp hx with rfl | hx
    · have hall : ∀ y ∈ l, decide (g y ≠ g x) = true := by
        intro y hy
        have : g y ≠ g x := fun h => hl.1 (h ▸ List.mem_map_of_mem hy)
        simpa using this
      rw [List.filter_cons_of_neg (by simp), List.filter_eq_self.mpr hall]
      rfl
    · have hne : g y ≠ g x := fun h => hl.1 (h ▸ List.mem_map_of_mem hx)
      rw [List.filter_cons_of_pos (by simpa using hne)]
      simp only [← Multiset.cons_coe]
      rw [Multiset.cons_swap, ← ih hl.2 hx]

namespace FreeExtents

/-- The by-size index is the inverse of the by-offset index, and both are in order. -/
structure Twin (f : FreeExtents) : Prop where
  ids_nodup : (f.sizes.map (·.id)).Nodup
  inverse : ((f.offsets.map fun o => (o.size, o.key) : List _) : Multiset (ℕ × ExtentKey)) =
    (f.sizes.map fun n => (n.id, n.key) : List _)
  offsets_sorted : f.offsets.Pairwise fun a b => a.key < b.key
  sizes_sorted : f.sizes.Pairwise fun a b => a.bytes ≤ b.bytes
  fresh : ∀ n ∈ f.sizes, n.id < f.nextNode

namespace Twin

variable {f : FreeExtents} (hf : Twin f)

include hf

lemma keys_nodup : (f.offsets.map (·.key)).Nodup := by
  rw [List.Nodup, List.pairwise_map]
  refine hf.offsets_sorted.imp fun {a b} hab heq => ?_
  rw [heq] at hab
  exact ExtentKey.lt_irrefl b.key hab

lemma offset_mem {n : SizeNode} (hn : n ∈ f.sizes) : ⟨n.key, n.id⟩ ∈ f.offsets := by
  have hmem : (n.id, n.key) ∈ ((f.offsets.map fun o => (o.size, o.key) : List _) :
      Multiset (ℕ × ExtentKey)) := by
    rw [hf.inverse]
    exact List.mem_map_of_mem (f := fun n : SizeNode => (n.id, n.key)) hn
  obtain ⟨o, ho, heq⟩ := List.mem_map.mp hmem
  simp only [Prod.mk.injEq] at heq
  rwa [← heq.1, ← heq.2]

lemma eq_of_id_eq {m n : SizeNode} (hm : m ∈ f.sizes) (hn : n ∈ f.sizes) (hid : m.id = n.id) :
    m = n :=
  List.inj_on_of_nodup_map hf.ids_nodup hm hn hid

/-- Following an iterator gives the node of the same key. -/
lemma exists_node {o : OffsetNode} (ho : o ∈ f.offsets) :
    ∃ n ∈ f.sizes, f.deref o = some n ∧ n.id = o.size ∧ n.key = o.key ∧ f.bytesOf o = n.bytes := by
  have hmem : (o.size, o.key) ∈ ((f.sizes.map fun n => (n.id, n.key) : List _) :
      Multiset (ℕ × ExtentKey)) := by
    rw [← hf.inverse]
    exact List.mem_map_of_mem (f := fun o : OffsetNode => (o.size, o.key)) ho
  obtain ⟨n, hn, heq⟩ := List.mem_map.mp hmem
  simp only [Prod.mk.injEq] at heq
  have hderef : f.deref o = some n := by
    unfold deref
    cases hfind : f.sizes.find? (fun n => n.id = o.size) with
    | none => simpa [heq.1] using List.find?_eq_none.mp hfind n hn
    | some m =>
      have hm : m.id = o.size := by simpa using List.find?_some hfind
      rw [hf.eq_of_id_eq (List.mem_of_find?_eq_some hfind) hn (hm.trans heq.1.symm)]
  exact ⟨n, hn, hderef, heq.1, heq.2, by rw [bytesOf, hderef]; rfl⟩

/-- Removing a by-offset node with its by-size node. -/
lemma unlink {o : OffsetNode} (ho : o ∈ f.offsets) :
    Twin (f.unlink o) ∧
      f.extents = ⟨o.key.segment, o.key.offset, f.bytesOf o⟩ ::ₘ (f.unlink o).extents := by
  obtain ⟨n, hn, -, hid, hkey, hbytes⟩ := hf.exists_node ho
  have hsizes : (f.sizes : Multiset SizeNode) = n ::ₘ ((f.unlink o).sizes : Multiset SizeNode) := by
    have := coe_filter_ne_of_nodup SizeNode.id hf.ids_nodup hn
    rwa [hid] at this
  have hoffsets : (f.offsets : Multiset OffsetNode) =
      o ::ₘ ((f.unlink o).offsets : Multiset OffsetNode) :=
    coe_filter_ne_of_nodup OffsetNode.key hf.keys_nodup ho
  refine ⟨⟨?_, ?_, ?_, ?_, ?_⟩, ?_⟩
  · exact hf.ids_nodup.sublist (List.filter_sublist.map _)
  · have hinv := hf.inverse
    simp only [← Multiset.map_coe, hsizes, hoffsets, Multiset.map_cons, hid, hkey] at hinv
    simpa only [← Multiset.map_coe] using (Multiset.cons_inj_right _).mp hinv
  · exact hf.offsets_sorted.sublist List.filter_sublist
  · exact hf.sizes_sorted.sublist List.filter_sublist
  · exact fun m hm => hf.fresh m (List.mem_of_mem_filter hm)
  · simp only [extents, ← Multiset.map_coe, hsizes, Multiset.map_cons, SizeNode.extent, hkey,
      hbytes]

/-- Inserting a node whose identity and key are not in the index. -/
lemma link {n : SizeNode} (hid : ∀ m ∈ f.sizes, m.id ≠ n.id) (hlt : n.id < f.nextNode)
    (hkey : ∀ o ∈ f.offsets, o.key ≠ n.key) :
    Twin (f.link n) ∧ (f.link n).extents = n.extent ::ₘ f.extents := by
  have hsizes := insertSize_perm n f.sizes
  have hoffsets := insertOffset_perm ⟨n.key, n.id⟩ hkey
  refine ⟨⟨?_, ?_, ?_, ?_, ?_⟩, ?_⟩
  · refine (hsizes.map (·.id)).nodup_iff.mpr (List.nodup_cons.mpr ⟨?_, hf.ids_nodup⟩)
    intro hmem
    obtain ⟨m, hm, heq⟩ := List.mem_map.mp hmem
    exact hid m hm heq
  · have hinv := hf.inverse
    rw [Multiset.coe_eq_coe] at hinv ⊢
    have hpairs := hsizes.map fun n : SizeNode => (n.id, n.key)
    exact ((hoffsets.map _).trans (hinv.cons _)).trans hpairs.symm
  · exact insertOffset_sorted _ hf.offsets_sorted hkey
  · exact insertSize_sorted n hf.sizes_sorted
  · intro m hm
    rcases List.mem_cons.mp (hsizes.mem_iff.mp hm) with rfl | hm
    · exact hlt
    · exact hf.fresh m hm
  · simp only [extents, Multiset.cons_coe, Multiset.coe_eq_coe]
    exact hsizes.map _

lemma bump : Twin { f with nextNode := f.nextNode + 1 } where
  ids_nodup := hf.ids_nodup
  inverse := hf.inverse
  offsets_sorted := hf.offsets_sorted
  sizes_sorted := hf.sizes_sorted
  fresh n hn := Nat.lt_succ_of_lt (hf.fresh n hn)

end Twin

/-! ## Which nodes an operation can leave behind -/

lemma mem_link_sizes {f : FreeExtents} {n m : SizeNode} :
    m ∈ (f.link n).sizes ↔ m = n ∨ m ∈ f.sizes := by
  rw [← List.mem_cons]
  exact (insertSize_perm n f.sizes).mem_iff

lemma mem_unlink_sizes {f : FreeExtents} {o : OffsetNode} {m : SizeNode}
    (hm : m ∈ (f.unlink o).sizes) : m ∈ f.sizes := List.mem_of_mem_filter hm

lemma mem_carve_sizes {f : FreeExtents} {o : OffsetNode} {size bytes : ℕ} {m : SizeNode}
    (hm : m ∈ (f.carve o size bytes).sizes) : m ∈ f.sizes ∨ m.id = o.size := by
  unfold carve at hm
  split at hm
  · rcases mem_link_sizes.mp hm with rfl | hm
    · exact .inr rfl
    · exact .inl (mem_unlink_sizes hm)
  · exact .inl (mem_unlink_sizes hm)

@[simp] lemma nextNode_carve (f : FreeExtents) (o : OffsetNode) (size bytes : ℕ) :
    (f.carve o size bytes).nextNode = f.nextNode := by
  unfold carve
  split <;> rfl

lemma mem_relink_sizes {f : FreeExtents} {n m : SizeNode} (hm : m ∈ (f.relink n).sizes) :
    m ∈ f.sizes ∨ m.id = n.id := by
  unfold relink at hm
  split at hm
  · rcases mem_link_sizes.mp hm with rfl | hm
    · exact .inr rfl
    · exact .inl (mem_unlink_sizes hm)
  · rcases mem_link_sizes.mp hm with rfl | hm
    · exact .inr rfl
    · exact .inl hm

@[simp] lemma nextNode_relink (f : FreeExtents) (n : SizeNode) :
    (f.relink n).nextNode = f.nextNode := by
  unfold relink
  split <;> rfl

lemma mem_getD_unlink_sizes {g : FreeExtents} {o : Option OffsetNode} {m : SizeNode}
    (hm : m ∈ ((o.map g.unlink).getD g).sizes) : m ∈ g.sizes := by
  cases o with
  | none => exact hm
  | some o => exact mem_unlink_sizes hm

lemma nextNode_getD_unlink (g : FreeExtents) (o : Option OffsetNode) :
    ((o.map g.unlink).getD g).nextNode = g.nextNode := by
  cases o <;> rfl

lemma mem_insertFreeExtent_sizes {f : FreeExtents} {segment offset bytes : ℕ} {m : SizeNode}
    (hm : m ∈ (f.insertFreeExtent segment offset bytes).1.sizes) :
    m ∈ f.sizes ∨ m.id = f.nextNode := by
  unfold insertFreeExtent at hm
  split at hm
  · exact .inl hm
  · rcases mem_link_sizes.mp hm with rfl | hm
    · exact .inr rfl
    · have hm := mem_getD_unlink_sizes (mem_getD_unlink_sizes hm)
      exact .inl hm

lemma le_nextNode_insertFreeExtent (f : FreeExtents) (segment offset bytes : ℕ) :
    f.nextNode ≤ (f.insertFreeExtent segment offset bytes).1.nextNode := by
  unfold insertFreeExtent
  split
  · exact Nat.le_refl _
  · unfold link
    simp only [nextNode_getD_unlink]
    omega

end FreeExtents

end NInfer.Disk
