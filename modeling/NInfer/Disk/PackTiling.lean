import NInfer.Disk.Coalescing
import NInfer.Disk.PackAllocator
import NInfer.Foundation.SlotSum

/-!
# The packs are tiled by what is owned, what is free and what is being trimmed

`PackKind.Tiled` is the invariant of one kind's packs.  Each critical section is a rearrangement of
the tiling: a reservation moves an extent from the free index to its owner, a release moves it back,
and a trim takes the tail out of the free index first and out of the segment later.
-/

namespace NInfer.Disk

open Throwing FreeExtents

/-- Bytes of `segment` in a list of extents. -/
def bytesIn (segment : ℕ) (l : List (Extent ℕ)) : ℕ :=
  slotSum (fun e => if e.region = segment then e.length else 0) l

namespace PackKind

/-- The tails being trimmed. -/
def tails (pk : PackKind) : Multiset (Extent ℕ) := (pk.trims.map SizeNode.extent : List _)

/-- Everything a segment is made of. -/
def pieces (pk : PackKind) : Multiset (Extent ℕ) := pk.owned + pk.tails + pk.free.extents

/-- The invariant of one kind's packs. -/
structure Tiled (pk : PackKind) : Prop where
  coalesced : Coalesced pk.free
  tiles : Tiles pk.pieces pk.segmentBytes
  owned_pos : ∀ e ∈ pk.owned, 0 < e.length
  occupied : ∀ i state, pk.segments i = some state → state.occupiedBytes = bytesIn i pk.owned
  trimming : ∀ i state, pk.segments i = some state →
    (state.trimming = true ↔ ∃ n ∈ pk.trims, n.key.segment = i)
  trims_pos : ∀ n ∈ pk.trims, 0 < n.bytes
  trims_end : ∀ n ∈ pk.trims, n.key.offset + n.bytes = pk.segmentBytes n.key.segment
  trims_distinct : (pk.trims.map (·.key.segment)).Nodup
  ids_apart : ∀ n ∈ pk.trims, ∀ m ∈ pk.free.sizes, m.id ≠ n.id
  ids_nodup : (pk.trims.map (·.id)).Nodup
  ids_lt : ∀ n ∈ pk.trims, n.id < pk.free.nextNode
  active_tail : pk.activeTail = pk.segmentBytes pk.activeSegment
  active_le : pk.activeSegment ≤ pk.lastSegment
  numbered : ∀ i, pk.segments i ≠ none → i ≤ pk.lastSegment

@[simp] lemma segmentBytes_modifySegment (pk : PackKind) (i : ℕ) (f : PackSegment → PackSegment)
    (j : ℕ) : (pk.modifySegment i f).segmentBytes j =
      if j = i then ((pk.segments i).map fun state => (f state).bytes).getD 0
      else pk.segmentBytes j := by
  unfold modifySegment segmentBytes
  by_cases hj : j = i
  · subst hj
    simp [Function.comp_def]
  · simp [hj]

variable {f : PackSegment → PackSegment} {state : PackSegment}

/-- Rewriting an entry without its length. -/
lemma segmentBytes_modifySegment_of_bytes (pk : PackKind) (i : ℕ)
    (hf : ∀ state, (f state).bytes = state.bytes) :
    (pk.modifySegment i f).segmentBytes = pk.segmentBytes := by
  funext j
  rw [segmentBytes_modifySegment]
  split
  · rename_i hji
    subst hji
    simp only [segmentBytes, hf]
  · rfl

lemma segmentBytes_touch (pk : PackKind) (i : ℕ) : (pk.touch i).segmentBytes = pk.segmentBytes := by
  funext j
  unfold touch segmentBytes
  by_cases hj : j = i
  · subst hj
    cases pk.segments j <;> simp
  · simp [hj]

/-- The packs after an extent was appended to segment `i`, which ended at `tail`. -/
def grown (pk : PackKind) (i tail bytes : ℕ) : PackKind :=
  { pk.modifySegment i fun state =>
      { state with bytes := tail + bytes, occupiedBytes := state.occupiedBytes + bytes } with
    activeSegment := i
    activeTail := tail + bytes
    owned := ⟨i, tail, bytes⟩ :: pk.owned }

lemma owned_grown (pk : PackKind) (i tail bytes : ℕ) :
    (pk.grown i tail bytes).owned = ⟨i, tail, bytes⟩ :: pk.owned := rfl

lemma segmentBytes_grown {pk : PackKind} {i : ℕ} (hi : pk.segments i = some state)
    (tail bytes j : ℕ) :
    (pk.grown i tail bytes).segmentBytes j =
      if j = i then tail + bytes else pk.segmentBytes j := by
  show (pk.modifySegment i _).segmentBytes j = _
  rw [segmentBytes_modifySegment, hi]
  rfl

/-- The packs after the tail `n` was cut off. -/
def truncated (pk : PackKind) (n : SizeNode) : PackKind :=
  { pk.modifySegment n.key.segment fun state =>
      { state with bytes := n.key.offset, trimming := false } with
    trims := pk.trims.erase n
    activeTail := if n.key.segment = pk.activeSegment then n.key.offset else pk.activeTail }

lemma segmentBytes_truncated {pk : PackKind} {n : SizeNode}
    (hn : pk.segments n.key.segment = some state) (j : ℕ) :
    (pk.truncated n).segmentBytes j =
      if j = n.key.segment then n.key.offset else pk.segmentBytes j := by
  show (pk.modifySegment n.key.segment _).segmentBytes j = _
  rw [segmentBytes_modifySegment, hn]
  rfl

/-- The entries of a kind after one was rewritten. -/
lemma segments_modifySegment {pk : PackKind} {i j : ℕ}
    (hj : (pk.modifySegment i f).segments j = some state) :
    (j ≠ i ∧ pk.segments j = some state) ∨
      (j = i ∧ ∃ old, pk.segments i = some old ∧ state = f old) := by
  unfold PackKind.modifySegment at hj
  by_cases hji : j = i
  · cases h : pk.segments j <;> simp_all
  · simp_all

lemma segments_of_modifySegment {pk : PackKind} {i j : ℕ}
    (hj : (pk.modifySegment i f).segments j ≠ none) : pk.segments j ≠ none := by
  obtain ⟨state, hstate⟩ := Option.ne_none_iff_exists'.mp hj
  rcases segments_modifySegment hstate with ⟨-, h⟩ | ⟨rfl, old, h, -⟩ <;> simp [h]

namespace Tiled

variable {pk : PackKind} (hpk : Tiled pk) {n : SizeNode}

include hpk

variable {f : PackSegment → PackSegment} {e : Extent ℕ} {state : PackSegment}

/-- A segment that holds a nonempty piece has an entry. -/
lemma segment_of_piece (he : e ∈ pk.pieces) (hpos : 0 < e.length) :
    ∃ state, pk.segments e.region = some state := by
  have hle := hpk.tiles.stop_le he hpos
  cases hseg : pk.segments e.region with
  | none =>
    unfold segmentBytes at hle
    rw [hseg] at hle
    simp only [Option.map_none, Option.getD_none] at hle
    unfold Extent.stop at hle
    omega
  | some state => exact ⟨state, rfl⟩

lemma segment_of_owned (he : e ∈ pk.owned) :
    ∃ state, pk.segments e.region = some state :=
  hpk.segment_of_piece (by simp [pieces, he]) (hpk.owned_pos e he)

lemma segment_of_trim (hn : n ∈ pk.trims) : ∃ state, pk.segments n.key.segment = some state := by
  refine hpk.segment_of_piece (e := n.extent) ?_ (hpk.trims_pos n hn)
  simp only [pieces, Multiset.mem_add]
  exact .inl (.inr (List.mem_map_of_mem hn))

lemma segment_of_free {o : OffsetNode} (ho : o ∈ pk.free.offsets) :
    ∃ state, pk.segments o.key.segment = some state :=
  hpk.segment_of_piece (Multiset.mem_add.mpr (.inr (hpk.coalesced.extent_mem ho)))
    (hpk.coalesced.bytesOf_pos ho)

/-- Creating the entry of a segment changes nothing else. -/
lemma touch {i : ℕ} (hi : i ≤ pk.lastSegment) : Tiled (pk.touch i) := by
  have hentry : ∀ j state, (pk.touch i).segments j = some state →
      pk.segments j = some state ∨ (j = i ∧ pk.segments i = none ∧ state = {}) := by
    intro j state hj
    unfold PackKind.touch at hj
    by_cases hji : j = i
    · cases h : pk.segments j with
      | none => simp_all
      | some st => simp_all
    · simp_all
  refine
    { hpk with
      tiles := by rw [segmentBytes_touch]; exact hpk.tiles
      occupied := fun j state hj => ?_
      trimming := fun j state hj => ?_
      trims_end := by rw [segmentBytes_touch]; exact hpk.trims_end
      active_tail := by rw [segmentBytes_touch]; exact hpk.active_tail
      numbered := fun j hj => ?_ }
  · rcases hentry j state hj with hj | ⟨rfl, hnone, rfl⟩
    · exact hpk.occupied j state hj
    · -- A segment without an entry holds nothing.
      symm
      refine slotSum_eq_zero _ fun e he => if_neg fun hregion => ?_
      obtain ⟨state, hstate⟩ := hpk.segment_of_owned he
      rw [hregion, hnone] at hstate
      cases hstate
  · rcases hentry j state hj with hj | ⟨rfl, hnone, rfl⟩
    · exact hpk.trimming j state hj
    · refine ⟨fun h => by simp at h, ?_⟩
      rintro ⟨n, hn, hsegment⟩
      obtain ⟨state, hstate⟩ := hpk.segment_of_trim hn
      rw [hsegment, hnone] at hstate
      cases hstate
  · by_cases hji : j = i
    · rw [hji]
      exact hi
    · refine hpk.numbered j ?_
      unfold PackKind.touch at hj
      simpa [hji] using hj

/-- Extents change hands between the free index and their owners, and the occupied count of their
segment follows. -/
lemma rebalance {free : FreeExtents} {owned : List (Extent ℕ)} {i : ℕ}
    (hco : Coalesced free)
    (hcov : ∀ r x, coverage ((owned : Multiset (Extent ℕ)) + free.extents) r x =
      coverage ((pk.owned : Multiset (Extent ℕ)) + pk.free.extents) r x)
    (hpos : ∀ e ∈ owned, 0 < e.length)
    (hids : ∀ n ∈ pk.trims, ∀ m ∈ free.sizes, m.id ≠ n.id)
    (hnext : pk.free.nextNode ≤ free.nextNode)
    (hbytes : ∀ state, (f state).bytes = state.bytes ∧ (f state).trimming = state.trimming)
    (hoccupied : ∀ state, pk.segments i = some state → (f state).occupiedBytes = bytesIn i owned)
    (hother : ∀ j, j ≠ i → bytesIn j owned = bytesIn j pk.owned) :
    Tiled { pk.modifySegment i f with free := free, owned := owned } := by
  have hsize := segmentBytes_modifySegment_of_bytes pk i fun state => (hbytes state).1
  refine
    { hpk with
      coalesced := hco
      tiles := fun r x => ?_
      owned_pos := hpos
      occupied := fun j state hj => ?_
      trimming := fun j state hj => ?_
      trims_end := fun n hn => (hpk.trims_end n hn).trans (congrFun hsize.symm _)
      ids_apart := hids
      ids_lt := fun n hn => Nat.lt_of_lt_of_le (hpk.ids_lt n hn) hnext
      active_tail := hpk.active_tail.trans (congrFun hsize.symm _)
      numbered := fun j hj => hpk.numbered j (segments_of_modifySegment hj) }
  · have htiles := hpk.tiles r x
    have hcov := hcov r x
    simp only [coverage_add] at hcov
    simp only [pieces, coverage_add] at htiles ⊢
    show coverage (owned : Multiset (Extent ℕ)) r x + coverage pk.tails r x +
      coverage free.extents r x = if x < (pk.modifySegment i f).segmentBytes r then 1 else 0
    rw [hsize]
    omega
  · rcases segments_modifySegment hj with ⟨hji, hj⟩ | ⟨rfl, old, hold, rfl⟩
    · rw [hother j hji]
      exact hpk.occupied j state hj
    · exact hoccupied old hold
  · rcases segments_modifySegment hj with ⟨-, hj⟩ | ⟨rfl, old, hold, rfl⟩
    · exact hpk.trimming j state hj
    · rw [(hbytes old).2]
      exact hpk.trimming j old hold

/-- Handing out the front of a free extent. -/
lemma own {o : OffsetNode} (ho : o ∈ pk.free.offsets) {bytes : ℕ} (hpos : 0 < bytes)
    (hfit : bytes ≤ pk.free.bytesOf o) :
    Tiled { pk.modifySegment o.key.segment fun state =>
              { state with occupiedBytes := state.occupiedBytes + bytes } with
            free := pk.free.carve o (pk.free.bytesOf o) bytes
            owned := ⟨o.key.segment, o.key.offset, bytes⟩ :: pk.owned } := by
  obtain ⟨hco, hcov⟩ := hpk.coalesced.carve ho hpos hfit
  obtain ⟨n, hn, -, hid, -, -⟩ := hpk.coalesced.twin.exists_node ho
  refine hpk.rebalance hco (fun r x => ?_) ?_ ?_ (by simp) (fun _ => ⟨rfl, rfl⟩) ?_ ?_
  · have := hcov r x
    simp only [coverage_add, ← Multiset.cons_coe, coverage_cons] at this ⊢
    omega
  · intro e he
    rcases List.mem_cons.mp he with rfl | he
    · exact hpos
    · exact hpk.owned_pos e he
  · intro t ht m hm
    rcases mem_carve_sizes hm with hm | hm
    · exact hpk.ids_apart t ht m hm
    · rw [hm, ← hid]
      exact hpk.ids_apart t ht n hn
  · intro state hstate
    rw [bytesIn, slotSum_cons, if_pos rfl, hpk.occupied _ state hstate, bytesIn, add_comm]
  · intro j hj
    rw [bytesIn, slotSum_cons, if_neg hj.symm, zero_add, bytesIn]

/-- An owned extent is not free. -/
lemma uncovered_of_owned (he : e ∈ pk.owned) {x : ℕ} (hle : e.start ≤ x) (hlt : x < e.stop) :
    coverage pk.free.extents e.region x = 0 := by
  have hone := hpk.tiles.coverage_le_one e.region x
  have he' : 1 ≤ coverage (pk.owned : Multiset (Extent ℕ)) e.region x :=
    one_le_coverage he ⟨rfl, hle, hlt⟩
  simp only [pieces, coverage_add] at hone
  omega

/-- Giving an owned extent back. -/
lemma disown (he : e ∈ pk.owned) :
    Tiled { pk.modifySegment e.region fun state =>
              { state with occupiedBytes := state.occupiedBytes - e.length } with
            free := (pk.free.insertFreeExtent e.region e.start e.length).1
            owned := pk.owned.erase e } ∧
      (pk.free.insertFreeExtent e.region e.start e.length).2 = true ∧
      e.length ≤ bytesIn e.region pk.owned := by
  obtain ⟨hins, hco, hcov⟩ := hpk.coalesced.insertFreeExtent e.region e.start e.length
    fun x hle hlt => hpk.uncovered_of_owned he hle hlt
  have hcov : ∀ r x, coverage (pk.free.insertFreeExtent e.region e.start e.length).1.extents r x =
      coverage (e ::ₘ pk.free.extents) r x := hcov
  have hperm := List.perm_cons_erase he
  have hsum : ∀ j, bytesIn j pk.owned =
      (if e.region = j then e.length else 0) + bytesIn j (pk.owned.erase e) := by
    intro j
    rw [bytesIn, slotSum, (hperm.map _).sum_eq]
    rfl
  refine ⟨hpk.rebalance hco (fun r x => ?_) ?_ ?_ (le_nextNode_insertFreeExtent ..)
    (fun _ => ⟨rfl, rfl⟩) ?_ ?_, hins, ?_⟩
  · rw [coverage_add, coverage_add, hcov, coverage_cons, Multiset.coe_eq_coe.mpr hperm,
      ← Multiset.cons_coe, coverage_cons]
    omega
  · exact fun e' he' => hpk.owned_pos e' (List.mem_of_mem_erase he')
  · intro t ht m hm
    rcases mem_insertFreeExtent_sizes hm with hm | hm
    · exact hpk.ids_apart t ht m hm
    · rw [hm]
      exact (Nat.ne_of_lt (hpk.ids_lt t ht)).symm
  · intro state hstate
    rw [hpk.occupied _ state hstate, hsum, if_pos rfl, Nat.add_sub_cancel_left]
  · intro j hj
    rw [hsum, if_neg hj.symm, zero_add]
  · rw [hsum, if_pos rfl]
    omega

/-- Numbering a new segment. -/
lemma number {last : ℕ} (hlast : pk.lastSegment ≤ last) : Tiled { pk with lastSegment := last } :=
  { hpk with
    active_le := Nat.le_trans hpk.active_le hlast
    numbered := fun i hi => Nat.le_trans (hpk.numbered i hi) hlast }

/-- Appending to a segment that is not being trimmed. -/
lemma grow {i : ℕ} (hi : pk.segments i = some state) (hidle : state.trimming = false) {bytes : ℕ}
    (hpos : 0 < bytes) :
    Tiled (pk.grown i state.bytes bytes) := by
  have hbytes : pk.segmentBytes i = state.bytes := by simp [segmentBytes, hi]
  have hsize := segmentBytes_grown hi state.bytes bytes
  -- Nothing in this segment is being trimmed.
  have hnotrim : ∀ n ∈ pk.trims, n.key.segment ≠ i := by
    intro n hn hsegment
    have := (hpk.trimming i state hi).mpr ⟨n, hn, hsegment⟩
    simp [hidle] at this
  refine
    { hpk with
      tiles := ?_
      owned_pos := fun e he => ?_
      occupied := fun j st hj => ?_
      trimming := fun j st hj => ?_
      trims_end := fun n hn => ?_
      active_tail := ((hsize i).trans (if_pos rfl)).symm
      active_le := hpk.numbered i (by simp [hi])
      numbered := fun j hj => hpk.numbered j (segments_of_modifySegment hj) }
  · refine (Tiles.cons_iff (e := ⟨i, state.bytes, bytes⟩) hbytes ?_ fun r hr => ?_).mpr hpk.tiles
    · exact (hsize i).trans (if_pos rfl)
    · exact (hsize r).trans (if_neg hr)
  · rcases List.mem_cons.mp he with rfl | he
    · exact hpos
    · exact hpk.owned_pos e he
  · rcases segments_modifySegment hj with ⟨hji, hj⟩ | ⟨rfl, old, hold, rfl⟩
    · rw [owned_grown, bytesIn, slotSum_cons, if_neg (Ne.symm hji), zero_add]
      exact hpk.occupied j st hj
    · show old.occupiedBytes + bytes = _
      rw [owned_grown, bytesIn, slotSum_cons, if_pos rfl, hpk.occupied j old hold, bytesIn,
        add_comm]
  · rcases segments_modifySegment hj with ⟨-, hj⟩ | ⟨rfl, old, hold, rfl⟩
    · exact hpk.trimming j st hj
    · exact hpk.trimming j old hold
  · rw [hpk.trims_end n hn]
    exact ((hsize _).trans (if_neg (hnotrim n hn))).symm

/-- Taking the free tail of a segment out of the index. -/
lemma extract (hn : n ∈ pk.free.sizes) (hstate : pk.segments n.key.segment = some state)
    (hidle : state.trimming = false) (hend : n.key.offset + n.bytes = state.bytes) :
    Tiled { pk.modifySegment n.key.segment fun state => { state with trimming := true } with
            free := pk.free.unlink ⟨n.key, n.id⟩
            trims := n :: pk.trims } := by
  have hoffset := hpk.coalesced.twin.offset_mem hn
  obtain ⟨hco, hextents⟩ := hpk.coalesced.unlink hoffset
  rw [hpk.coalesced.bytesOf_node hn] at hextents
  have hnotrim : ∀ t ∈ pk.trims, t.key.segment ≠ n.key.segment := by
    intro t ht hsegment
    have := (hpk.trimming _ state hstate).mpr ⟨t, ht, hsegment⟩
    simp [hidle] at this
  have hsize : (pk.modifySegment n.key.segment fun state =>
      { state with trimming := true }).segmentBytes = pk.segmentBytes :=
    segmentBytes_modifySegment_of_bytes _ _ fun _ => rfl
  refine
    { hpk with
      coalesced := hco
      tiles := fun r x => ?_
      occupied := fun j st hj => ?_
      trimming := fun j st hj => ?_
      trims_pos := fun t ht => ?_
      trims_end := fun t ht => ?_
      trims_distinct := ?_
      ids_apart := fun t ht m hm => ?_
      ids_nodup := ?_
      ids_lt := fun t ht => ?_
      active_tail := hpk.active_tail.trans (congrFun hsize.symm _)
      numbered := fun j hj => hpk.numbered j (segments_of_modifySegment hj) }
  · have htiles := hpk.tiles r x
    rw [pieces, hextents] at htiles
    show coverage ((pk.owned : Multiset (Extent ℕ)) + (((n :: pk.trims).map SizeNode.extent :
      List (Extent ℕ)) : Multiset (Extent ℕ)) + (pk.free.unlink ⟨n.key, n.id⟩).extents) r x =
      if x < (pk.modifySegment n.key.segment _).segmentBytes r then 1 else 0
    rw [hsize, ← htiles, List.map_cons, ← Multiset.cons_coe]
    simp only [coverage_add, coverage_cons, tails]
    unfold SizeNode.extent
    omega
  · rcases segments_modifySegment hj with ⟨-, hj⟩ | ⟨rfl, old, hold, rfl⟩
    · exact hpk.occupied j st hj
    · exact hpk.occupied _ old hold
  · rcases segments_modifySegment hj with ⟨hji, hj⟩ | ⟨rfl, old, -, rfl⟩
    · rw [hpk.trimming j st hj]
      simp [Ne.symm hji]
    · simp
  · rcases List.mem_cons.mp ht with rfl | ht
    · exact hpk.coalesced.pos t.extent (mem_extents.mpr ⟨t, hn, rfl⟩)
    · exact hpk.trims_pos t ht
  · refine Eq.trans ?_ (congrFun hsize.symm _)
    rcases List.mem_cons.mp ht with rfl | ht
    · rw [hend, segmentBytes, hstate]
      rfl
    · exact hpk.trims_end t ht
  · rw [List.map_cons, List.nodup_cons]
    refine ⟨fun hmem => ?_, hpk.trims_distinct⟩
    obtain ⟨t, ht, hsegment⟩ := List.mem_map.mp hmem
    exact hnotrim t ht hsegment
  · rcases List.mem_cons.mp ht with rfl | ht
    · have := List.of_mem_filter hm
      simpa using this
    · exact hpk.ids_apart t ht m (mem_unlink_sizes hm)
  · rw [List.map_cons, List.nodup_cons]
    refine ⟨fun hmem => ?_, hpk.ids_nodup⟩
    obtain ⟨t, ht, hid⟩ := List.mem_map.mp hmem
    exact hpk.ids_apart t ht n hn hid.symm
  · rcases List.mem_cons.mp ht with rfl | ht
    · exact hpk.coalesced.twin.fresh t hn
    · exact hpk.ids_lt t ht

omit hpk in
lemma tails_erase (hn : n ∈ pk.trims) :
    pk.tails = n.extent ::ₘ (((pk.trims.erase n).map SizeNode.extent : List (Extent ℕ)) :
      Multiset (Extent ℕ)) := by
  rw [tails, Multiset.coe_eq_coe.mpr ((List.perm_cons_erase hn).map _), List.map_cons,
    Multiset.cons_coe]

/-- The other tails being trimmed belong to other segments and have other nodes. -/
lemma other_trim {t : SizeNode} (hn : n ∈ pk.trims) (ht : t ∈ pk.trims.erase n) :
    t ∈ pk.trims ∧ t.key.segment ≠ n.key.segment ∧ t.id ≠ n.id := by
  have hperm := List.perm_cons_erase hn
  have hsegments := (hperm.map (·.key.segment)).nodup_iff.mp hpk.trims_distinct
  have hids := (hperm.map (·.id)).nodup_iff.mp hpk.ids_nodup
  rw [List.map_cons, List.nodup_cons] at hsegments hids
  refine ⟨List.mem_of_mem_erase ht, fun heq => hsegments.1 ?_, fun heq => hids.1 ?_⟩
  · exact List.mem_map.mpr ⟨t, ht, heq⟩
  · exact List.mem_map.mpr ⟨t, ht, heq⟩

/-- Ending a trim leaves the `trimming` flags as the remaining trims want them. -/
lemma trimming_erase (hn : n ∈ pk.trims) (hf : ∀ state, (f state).trimming = false) {j : ℕ}
    {st : PackSegment} (hj : (pk.modifySegment n.key.segment f).segments j = some st) :
    st.trimming = true ↔ ∃ t ∈ pk.trims.erase n, t.key.segment = j := by
  rcases segments_modifySegment hj with ⟨hji, hj⟩ | ⟨rfl, old, -, rfl⟩
  · rw [hpk.trimming j st hj]
    constructor
    · rintro ⟨t, ht, rfl⟩
      exact ⟨t, (List.mem_erase_of_ne fun heq : t = n => hji (by rw [heq])).mpr ht, rfl⟩
    · rintro ⟨t, ht, rfl⟩
      exact ⟨t, List.mem_of_mem_erase ht, rfl⟩
  · rw [hf old]
    refine ⟨fun h => absurd h (by decide), ?_⟩
    rintro ⟨t, ht, hsegment⟩
    exact absurd hsegment (hpk.other_trim hn ht).2.1

/-- Cutting the tail off. -/
lemma truncate (hn : n ∈ pk.trims) : Tiled (pk.truncated n) := by
  obtain ⟨state, hstate⟩ := hpk.segment_of_trim hn
  have hend := hpk.trims_end n hn
  have hsize := segmentBytes_truncated hstate
  refine
    { hpk with
      tiles := ?_
      occupied := fun j st hj => ?_
      trimming := fun j st hj => hpk.trimming_erase hn (fun _ => rfl) hj
      trims_pos := fun t ht => hpk.trims_pos t (List.mem_of_mem_erase ht)
      trims_end := fun t ht => ?_
      trims_distinct := hpk.trims_distinct.sublist (List.erase_sublist.map _)
      ids_apart := fun t ht => hpk.ids_apart t (List.mem_of_mem_erase ht)
      ids_nodup := hpk.ids_nodup.sublist (List.erase_sublist.map _)
      ids_lt := fun t ht => hpk.ids_lt t (List.mem_of_mem_erase ht)
      active_tail := ?_
      numbered := fun j hj => hpk.numbered j (segments_of_modifySegment hj) }
  · have htiles := hpk.tiles
    rw [pieces, tails_erase hn, Multiset.add_cons] at htiles
    refine (Tiles.cons_iff ?_ hend.symm fun r hr => ?_).mp htiles
    · exact (hsize _).trans (if_pos rfl)
    · exact ((hsize r).trans (if_neg hr)).symm
  · rcases segments_modifySegment hj with ⟨-, hj⟩ | ⟨rfl, old, hold, rfl⟩
    · exact hpk.occupied j st hj
    · exact hpk.occupied _ old hold
  · obtain ⟨ht, hsegment, -⟩ := hpk.other_trim hn ht
    rw [hpk.trims_end t ht]
    exact ((hsize _).trans (if_neg hsegment)).symm
  · refine Eq.trans ?_ (hsize pk.activeSegment).symm
    show (if n.key.segment = pk.activeSegment then n.key.offset else pk.activeTail) = _
    rw [hpk.active_tail]
    simp only [eq_comm]

/-- Putting the tail back. -/
lemma reinsert (hn : n ∈ pk.trims) :
    Tiled { pk.modifySegment n.key.segment fun state => { state with trimming := false } with
            free := pk.free.relink n
            trims := pk.trims.erase n } := by
  have hend := hpk.trims_end n hn
  have hpos := hpk.trims_pos n hn
  have hpieces := tails_erase hn
  have hsize : (pk.modifySegment n.key.segment fun state =>
      { state with trimming := false }).segmentBytes = pk.segmentBytes :=
    segmentBytes_modifySegment_of_bytes _ _ fun _ => rfl
  obtain ⟨hco, hcov⟩ : Coalesced (pk.free.relink n) ∧ ∀ r x,
      coverage (pk.free.relink n).extents r x = coverage (n.extent ::ₘ pk.free.extents) r x := by
    refine hpk.coalesced.relink hpos (hpk.ids_apart n hn) (hpk.ids_lt n hn) ?_ ?_
    · intro x hle hlt
      have hone := hpk.tiles.coverage_le_one n.key.segment x
      rw [pieces, hpieces] at hone
      simp only [coverage_add, coverage_cons] at hone
      rw [if_pos ⟨rfl, hle, hlt⟩] at hone
      omega
    · -- The tail ends where the segment ends, so nothing starts there.
      intro e he hregion hstart
      have hlength := hpk.coalesced.pos e he
      have hstop := hpk.tiles.stop_le (Multiset.mem_add.mpr (.inr he)) hlength
      rw [hregion] at hstop
      unfold Extent.stop at hstop
      omega
  refine
    { hpk with
      coalesced := hco
      tiles := fun r x => ?_
      occupied := fun j st hj => ?_
      trimming := fun j st hj => hpk.trimming_erase hn (fun _ => rfl) hj
      trims_pos := fun t ht => hpk.trims_pos t (List.mem_of_mem_erase ht)
      trims_end := fun t ht => (hpk.trims_end t (List.mem_of_mem_erase ht)).trans
        (congrFun hsize.symm _)
      trims_distinct := hpk.trims_distinct.sublist (List.erase_sublist.map _)
      ids_apart := fun t ht m hm => ?_
      ids_nodup := hpk.ids_nodup.sublist (List.erase_sublist.map _)
      ids_lt := fun t ht => ?_
      active_tail := hpk.active_tail.trans (congrFun hsize.symm _)
      numbered := fun j hj => hpk.numbered j (segments_of_modifySegment hj) }
  · have htiles := hpk.tiles r x
    rw [pieces, hpieces] at htiles
    show coverage ((pk.owned : Multiset (Extent ℕ)) + (((pk.trims.erase n).map SizeNode.extent :
      List (Extent ℕ)) : Multiset (Extent ℕ)) + (pk.free.relink n).extents) r x =
      if x < (pk.modifySegment n.key.segment _).segmentBytes r then 1 else 0
    rw [hsize, ← htiles]
    simp only [coverage_add, coverage_cons, hcov]
    omega
  · rcases segments_modifySegment hj with ⟨-, hj⟩ | ⟨rfl, old, hold, rfl⟩
    · exact hpk.occupied j st hj
    · exact hpk.occupied _ old hold
  · obtain ⟨ht, -, hid⟩ := hpk.other_trim hn ht
    rcases mem_relink_sizes hm with hm | hm
    · exact hpk.ids_apart t ht m hm
    · rw [hm]
      exact hid.symm
  · rw [nextNode_relink]
    exact hpk.ids_lt t (List.mem_of_mem_erase ht)

end Tiled

end PackKind

end NInfer.Disk
