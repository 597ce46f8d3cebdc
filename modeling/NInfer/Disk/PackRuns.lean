import NInfer.Disk.PackTiling

/-!
# Critical sections of the extent allocator keep the packs tiled

`PackAllocator.Sound` adds the storage charge to the tilings of the five kinds.  Each critical
section is run symbolically down to one rearrangement of `PackKind.Tiled`; the only other thing to
check is how the length of one segment file moves the charge.
-/

namespace NInfer.Disk

open Throwing FreeExtents PackAllocator

namespace PackKind

/-- The length of all segment files of a kind. -/
def totalBytes (pk : PackKind) : ℕ := ∑ i ∈ Finset.range (pk.lastSegment + 1), pk.segmentBytes i

lemma Tiled.segmentBytes_eq_zero {pk : PackKind} (hpk : Tiled pk) {i : ℕ}
    (hi : pk.lastSegment < i) : pk.segmentBytes i = 0 := by
  cases h : pk.segments i with
  | none => simp [segmentBytes, h]
  | some state =>
    have := hpk.numbered i (by simp [h])
    omega

/-- The sum may run over more segments than there are. -/
lemma Tiled.totalBytes_eq {pk : PackKind} (hpk : Tiled pk) {m : ℕ} (hm : pk.lastSegment < m) :
    pk.totalBytes = ∑ i ∈ Finset.range m, pk.segmentBytes i := by
  refine Finset.sum_subset (Finset.range_subset_range.mpr hm) fun i _ hi => ?_
  exact hpk.segmentBytes_eq_zero (by simpa using hi)

/-- Changing the length of one segment changes the total by as much. -/
lemma Tiled.totalBytes_update {pk pk' : PackKind} (hpk : Tiled pk) (hpk' : Tiled pk') (i : ℕ)
    (hother : ∀ j, j ≠ i → pk'.segmentBytes j = pk.segmentBytes j) :
    pk'.totalBytes + pk.segmentBytes i = pk.totalBytes + pk'.segmentBytes i := by
  obtain ⟨m, hm, hm', hi⟩ : ∃ m, pk.lastSegment < m ∧ pk'.lastSegment < m ∧ i < m :=
    ⟨pk.lastSegment + pk'.lastSegment + i + 1, by omega, by omega, by omega⟩
  have hrest : ∑ j ∈ (Finset.range m).erase i, pk'.segmentBytes j =
      ∑ j ∈ (Finset.range m).erase i, pk.segmentBytes j :=
    Finset.sum_congr rfl fun j hj => hother j (Finset.ne_of_mem_erase hj)
  have hsum := Finset.add_sum_erase (Finset.range m) pk.segmentBytes (Finset.mem_range.mpr hi)
  have hsum' := Finset.add_sum_erase (Finset.range m) pk'.segmentBytes (Finset.mem_range.mpr hi)
  rw [hpk.totalBytes_eq hm, hpk'.totalBytes_eq hm']
  omega

lemma Tiled.totalBytes_congr {pk pk' : PackKind} (hpk : Tiled pk) (hpk' : Tiled pk')
    (hsize : pk'.segmentBytes = pk.segmentBytes) : pk'.totalBytes = pk.totalBytes := by
  have := hpk.totalBytes_update hpk' 0 fun j _ => congrFun hsize j
  rw [hsize] at this
  omega

lemma Tiled.totalBytes_grown {pk : PackKind} (hpk : Tiled pk) {i : ℕ} {state : PackSegment}
    (hi : pk.segments i = some state) (hidle : state.trimming = false) {bytes : ℕ}
    (hpos : 0 < bytes) : (pk.grown i state.bytes bytes).totalBytes = pk.totalBytes + bytes := by
  have htotal := hpk.totalBytes_update (hpk.grow hi hidle hpos) i fun j hj =>
    (segmentBytes_grown hi ..).trans (if_neg hj)
  have hbytes : pk.segmentBytes i = state.bytes := by simp [segmentBytes, hi]
  rw [segmentBytes_grown hi, if_pos rfl] at htotal
  omega

lemma Tiled.totalBytes_truncated {pk : PackKind} (hpk : Tiled pk) {n : SizeNode}
    (hn : n ∈ pk.trims) : (pk.truncated n).totalBytes + n.bytes = pk.totalBytes := by
  obtain ⟨state, hstate⟩ := hpk.segment_of_trim hn
  have htotal := hpk.totalBytes_update (hpk.truncate hn) n.key.segment fun j hj =>
    (segmentBytes_truncated hstate j).trans (if_neg hj)
  have hend := hpk.trims_end n hn
  rw [segmentBytes_truncated hstate, if_pos rfl] at htotal
  omega

end PackKind

namespace PackAllocator

/-- Every kind is tiled, and the storage charge is the length of all segment files. -/
structure Sound (s : PackAllocator) : Prop where
  tiled : ∀ k, (s.kinds k).Tiled
  storage : s.packStorageBytes = ∑ k, (s.kinds k).totalBytes

/-- Replace the packs of one kind. -/
def setKind (s : PackAllocator) (k : DiskObjectKind) (pk : PackKind) : PackAllocator :=
  { s with kinds := Function.update s.kinds k pk }

@[simp] lemma setKind_kinds_self (s : PackAllocator) (k : DiskObjectKind) (pk : PackKind) :
    (s.setKind k pk).kinds k = pk := Function.update_self ..

@[simp] lemma setKind_setKind (s : PackAllocator) (k : DiskObjectKind) (pk pk' : PackKind) :
    (s.setKind k pk).setKind k pk' = s.setKind k pk' := by
  simp [setKind]

/-- The packs of one kind and the charge change together. -/
lemma Sound.setKind {s : PackAllocator} (hs : Sound s) {k : DiskObjectKind} {pk : PackKind}
    (hpk : pk.Tiled) (storage : ℕ)
    (hstorage : storage + (s.kinds k).totalBytes = s.packStorageBytes + pk.totalBytes) :
    Sound { s.setKind k pk with packStorageBytes := storage } := by
  refine ⟨fun k' => ?_, ?_⟩
  · show (Function.update s.kinds k pk k').Tiled
    by_cases hk : k' = k
    · subst hk
      rwa [Function.update_self]
    · rw [Function.update_of_ne hk]
      exact hs.tiled k'
  · show storage = ∑ k', (Function.update s.kinds k pk k').totalBytes
    have hsum := hs.storage
    rw [← Finset.add_sum_erase _ _ (Finset.mem_univ k)] at hsum ⊢
    rw [Function.update_self, Finset.sum_congr rfl fun k' hk' => by
      rw [Function.update_of_ne (Finset.ne_of_mem_erase hk')]]
    omega

lemma Sound.totalBytes_le {s : PackAllocator} (hs : Sound s) (k : DiskObjectKind) :
    (s.kinds k).totalBytes ≤ s.packStorageBytes := by
  rw [hs.storage]
  exact Finset.single_le_sum (f := fun k => (s.kinds k).totalBytes)
    (fun _ _ => Nat.zero_le _) (Finset.mem_univ k)

/-- A change that leaves the length of the segment files alone leaves the charge alone. -/
lemma Sound.setKind_of_sizes {s : PackAllocator} (hs : Sound s) {k : DiskObjectKind}
    {pk : PackKind} (hpk : pk.Tiled) (hsize : pk.segmentBytes = (s.kinds k).segmentBytes) :
    Sound (s.setKind k pk) := by
  refine hs.setKind hpk s.packStorageBytes ?_
  rw [(hs.tiled k).totalBytes_congr hpk hsize]

end PackAllocator

section wp

variable {α : Type} {s : PackAllocator} {E : AllocatorError → PackAllocator → Prop}
  {k : DiskObjectKind}

@[simp] lemma wp_loadKind {Q : PackKind → PackAllocator → Prop} :
    wp (loadKind k) Q E s ↔ Q (s.kinds k) s := Iff.rfl

@[simp] lemma wp_modifyKind {f : PackKind → PackKind} {Q : Unit → PackAllocator → Prop} :
    wp (modifyKind k f) Q E s ↔ Q () (s.setKind k (f (s.kinds k))) := Iff.rfl

lemma wp_segmentAt {i : ℕ} (state : PackSegment) (hstate : (s.kinds k).segments i = some state)
    {Q : PackSegment → PackAllocator → Prop} : wp (segmentAt k i) Q E s ↔ Q state s := by
  rw [segmentAt, wp_bind, wp_loadKind, hstate]
  exact Iff.rfl

end wp

/-! ## Reservations -/

variable {s : PackAllocator} {k : DiskObjectKind} {bytes : ℕ}

/-- A critical section that leaves the storage charge alone. -/
def Settled (storage : ℕ) (s : PackAllocator) : Prop := s.Sound ∧ s.packStorageBytes = storage

lemma bestFit_spec {f : FreeExtents} {n : SizeNode} (hn : f.bestFit bytes = some n) :
    n ∈ f.sizes ∧ bytes ≤ n.bytes := by
  refine ⟨List.mem_of_find?_eq_some hn, ?_⟩
  simpa using List.find?_some hn

lemma firstFitBelow_spec {f : FreeExtents} {source : ExtentKey} {o : OffsetNode}
    (ho : f.firstFitBelow source bytes = some o) : o ∈ f.offsets ∧ bytes ≤ f.bytesOf o := by
  refine ⟨(List.takeWhile_sublist _).subset (List.mem_of_find?_eq_some ho), ?_⟩
  simpa using List.find?_some ho

/-- Handing out the front of a free extent does not move the end of its segment. -/
lemma PackAllocator.Sound.own (hs : s.Sound) {o : OffsetNode} (ho : o ∈ (s.kinds k).free.offsets)
    (hpos : 0 < bytes) (hfit : bytes ≤ (s.kinds k).free.bytesOf o) :
    Settled s.packStorageBytes (s.setKind k
      { (s.kinds k).modifySegment o.key.segment fun state =>
          { state with occupiedBytes := state.occupiedBytes + bytes } with
        free := (s.kinds k).free.carve o ((s.kinds k).free.bytesOf o) bytes
        owned := ⟨o.key.segment, o.key.offset, bytes⟩ :: (s.kinds k).owned }) := by
  refine ⟨hs.setKind_of_sizes ((hs.tiled k).own ho hpos hfit) ?_, rfl⟩
  exact PackKind.segmentBytes_modifySegment_of_bytes _ _ fun _ => rfl

lemma wp_reserveFit (hs : s.Sound) {n : SizeNode} (hn : n ∈ (s.kinds k).free.sizes)
    (hpos : 0 < bytes) (hfit : bytes ≤ n.bytes) :
    wp (reserveFit k n bytes) (fun _ => Settled s.packStorageBytes)
      (fun _ => Settled s.packStorageBytes) s := by
  have hoffset := (hs.tiled k).coalesced.twin.offset_mem hn
  have hbytes := (hs.tiled k).coalesced.bytesOf_node hn
  obtain ⟨state, hstate⟩ := (hs.tiled k).segment_of_free hoffset
  have hown := hs.own hoffset hpos (hbytes.symm ▸ hfit)
  rw [hbytes] at hown
  simp only [reserveFit, wp_bind, wp_modifyKind]
  rw [wp_segmentAt state (by simpa using hstate)]
  simp only [wp_bind, wp_modifyKind, setKind_kinds_self,
    setKind_setKind]
  exact hown

lemma wp_defragReserve (hs : s.Sound) {source : Extent ℕ} (hsource : source ∈ (s.kinds k).owned) :
    wp (defragReserve k source) (fun _ => Settled s.packStorageBytes)
      (fun _ => Settled s.packStorageBytes) s := by
  obtain ⟨state, hstate⟩ := (hs.tiled k).segment_of_owned hsource
  have hpos := (hs.tiled k).owned_pos source hsource
  simp only [defragReserve, wp_bind]
  rw [wp_segmentAt state hstate, wp_ite]
  refine ⟨fun _ => ⟨hs, rfl⟩, fun _ => ?_⟩
  simp only [wp_bind, wp_loadKind]
  cases hhole : (s.kinds k).free.firstFitBelow ⟨source.region, source.start⟩ source.length with
  | none => exact ⟨hs, rfl⟩
  | some hole =>
    obtain ⟨hmem, hfit⟩ := firstFitBelow_spec hhole
    obtain ⟨target, htarget⟩ := (hs.tiled k).segment_of_free hmem
    simp only [wp_bind, wp_modifyKind]
    rw [wp_segmentAt target (by simpa using htarget)]
    simp only [wp_bind, wp_modifyKind, setKind_kinds_self,
      setKind_setKind]
    exact hs.own hmem hpos hfit

/-- Growth stays inside the configured capacity and inside a segment. -/
structure Grown (s : PackAllocator) (bytes : ℕ) (e : Extent ℕ) (s' : PackAllocator) : Prop where
  sound : s'.Sound
  storage : s'.packStorageBytes = s.packStorageBytes + bytes
  capacity : s'.packStorageBytes ≤ s.capacityBytes
  segment : e.stop ≤ kPackSegmentBytes

/-- Where `growthPoint` sends an extent: the end of a segment that is not being trimmed. -/
structure GrowthPoint (s : PackAllocator) (k : DiskObjectKind) (bytes : ℕ) (point : ℕ × ℕ)
    (s' : PackAllocator) : Prop where
  settled : Settled s.packStorageBytes s'
  capacity : s'.capacityBytes = s.capacityBytes
  numbered : point.1 ≤ (s'.kinds k).lastSegment
  idle : ∀ state, (s'.kinds k).segments point.1 = some state → state.trimming = false
  tail : point.2 = (s'.kinds k).segmentBytes point.1
  room : point.2 + bytes ≤ kPackSegmentBytes

lemma PackAllocator.Sound.touch (hs : s.Sound) {i : ℕ} (hi : i ≤ (s.kinds k).lastSegment) :
    Settled s.packStorageBytes (s.setKind k ((s.kinds k).touch i)) :=
  ⟨hs.setKind_of_sizes ((hs.tiled k).touch hi) (PackKind.segmentBytes_touch ..), rfl⟩

lemma PackKind.segments_touch (pk : PackKind) (i : ℕ) :
    (pk.touch i).segments i = some ((pk.segments i).getD {}) := Function.update_self ..

section

variable (hs : s.Sound)

include hs

lemma wp_growthPoint (hbytes : bytes ≤ kPackSegmentBytes) (created : Bool) :
    wp (growthPoint k bytes created) (GrowthPoint s k bytes) (fun _ => Settled s.packStorageBytes)
      s := by
  have htouch := hs.touch (hs.tiled k).active_le
  have hpk := htouch.1.tiled k
  simp only [setKind_kinds_self] at hpk
  simp only [growthPoint, wp_bind, wp_modifyKind, wp_loadKind]
  rw [wp_segmentAt (((s.kinds k).segments (s.kinds k).activeSegment).getD {})
    (by rw [setKind_kinds_self]; exact PackKind.segments_touch ..), wp_ite]
  refine ⟨fun _ => ?_, fun hroom => ?_⟩
  · simp only [wp_bind, wp_throwIf, wp_modifyKind, setKind_kinds_self,
      setKind_setKind]
    have hnumber : Settled s.packStorageBytes (s.setKind k
        { (s.kinds k).touch (s.kinds k).activeSegment with
          lastSegment := (s.kinds k).lastSegment + 1 }) := by
      refine ⟨hs.setKind_of_sizes (hpk.number (Nat.le_succ _)) ?_, rfl⟩
      exact PackKind.segmentBytes_touch ..
    refine ⟨fun _ => htouch, fun _ => ⟨fun _ => hnumber, fun _ => ?_⟩⟩
    -- A number above all segments has no entry.
    have hnone : ((s.kinds k).touch (s.kinds k).activeSegment).segments
        ((s.kinds k).lastSegment + 1) = none := by
      by_contra h
      have := hpk.numbered _ h
      simp only [PackKind.touch] at this
      omega
    refine ⟨hnumber, rfl, ?_, ?_, ?_, by simpa using hbytes⟩
    · simp
    · intro state hstate
      rw [setKind_kinds_self] at hstate
      cases hnone.symm.trans hstate
    · rw [setKind_kinds_self]
      show 0 = ((((s.kinds k).touch (s.kinds k).activeSegment).segments
        ((s.kinds k).lastSegment + 1)).map (·.bytes)).getD 0
      rw [hnone]
      rfl
  · rw [not_or] at hroom
    refine ⟨htouch, rfl, ?_, ?_, ?_, ?_⟩
    · simpa using hpk.active_le
    · intro state hstate
      rw [setKind_kinds_self] at hstate
      cases (PackKind.segments_touch ..).symm.trans hstate
      simpa using hroom.1
    · simpa using hpk.active_tail
    · have := hroom.2
      omega

lemma wp_reserveGrow (hpos : 0 < bytes) (hbytes : bytes ≤ kPackSegmentBytes)
    (created opened : Bool) :
    wp (reserveGrow k bytes created opened) (Grown s bytes)
      (fun _ => Settled s.packStorageBytes) s := by
  simp only [reserveGrow, wp_bind, wp_get, wp_throwIf]
  refine ⟨fun _ => ⟨hs, rfl⟩, fun hcapacity => ?_⟩
  refine wp_mono (wp_growthPoint hs hbytes created) ?_ fun _ _ h => h
  rintro ⟨segment, offset⟩ s' hpoint
  have htouch := hpoint.settled.1.touch hpoint.numbered
  rw [hpoint.settled.2] at htouch
  have hstate := PackKind.segments_touch (s'.kinds k) segment
  simp only [wp_bind, wp_modifyKind]
  rw [wp_segmentAt (((s'.kinds k).segments segment).getD {})
    (by rw [setKind_kinds_self]; exact hstate)]
  simp only [wp_bind, wp_throwIf, wp_modifyKind, setKind_kinds_self,
    setKind_setKind]
  refine ⟨fun _ => htouch, fun _ => ?_⟩
  have hpk := htouch.1.tiled k
  rw [setKind_kinds_self] at hpk
  have hoffset : offset = (((s'.kinds k).segments segment).getD {}).bytes := by
    have htail : offset = (s'.kinds k).segmentBytes segment := hpoint.tail
    rw [htail, PackKind.segmentBytes]
    cases (s'.kinds k).segments segment <;> rfl
  have hidle : (((s'.kinds k).segments segment).getD {}).trimming = false := by
    cases h : (s'.kinds k).segments segment with
    | none => rfl
    | some state => exact hpoint.idle state h
  subst hoffset
  have hgrow := hpk.grow hstate hidle hpos
  have hroom : (((s'.kinds k).segments segment).getD {}).bytes + bytes ≤ kPackSegmentBytes :=
    hpoint.room
  have hstorage : s'.packStorageBytes = s.packStorageBytes := hpoint.settled.2
  refine ⟨?_, ?_, ?_, hroom⟩
  · refine hpoint.settled.1.setKind hgrow (s'.packStorageBytes + bytes) ?_
    have htotal := hpk.totalBytes_grown hstate hidle hpos
    have htouch := (hpoint.settled.1.tiled k).totalBytes_congr hpk (PackKind.segmentBytes_touch ..)
    omega
  · exact congrArg (· + bytes) hstorage
  · show s'.packStorageBytes + bytes ≤ s.capacityBytes
    omega

/-- What `reserve_pack_extent` may do. -/
lemma wp_reservePackExtent (k : DiskObjectKind) (bytes : ℕ) (created opened : Bool) :
    wp (reservePackExtent k bytes created opened)
      (fun e s' => Settled s.packStorageBytes s' ∨ Grown s bytes e s')
      (fun _ => Settled s.packStorageBytes) s := by
  simp only [reservePackExtent, wp_bind, wp_throwIf, wp_loadKind]
  refine ⟨fun _ => ⟨hs, rfl⟩, fun hvalid => ?_⟩
  cases hfit : (s.kinds k).free.bestFit bytes with
  | none =>
    refine wp_mono (wp_reserveGrow hs (by omega) (by omega) created opened) ?_ fun _ _ h => h
    exact fun _ _ h => .inr h
  | some n =>
    obtain ⟨hn, hle⟩ := bestFit_spec hfit
    refine wp_mono (wp_reserveFit hs hn (by omega) hle) ?_ fun _ _ h => h
    exact fun _ _ h => .inl h

/-! ## Releases and trims -/

lemma wp_releasePackExtent {e : Extent ℕ} (he : e ∈ (s.kinds k).owned) :
    wp (releasePackExtent k e) (fun _ => Settled s.packStorageBytes) (fun _ _ => False) s := by
  obtain ⟨hdisown, hinserted, hle⟩ := (hs.tiled k).disown he
  obtain ⟨state, hstate⟩ := (hs.tiled k).segment_of_owned he
  have hpos := (hs.tiled k).owned_pos e he
  have hoccupied := (hs.tiled k).occupied e.region state hstate
  rw [releasePackExtent, if_neg (by omega), wp_bind, wp_segmentAt state hstate]
  simp only [wp_bind, wp_throwIf, insertFreeExtent, wp_loadKind, wp_modifyKind,
    setKind_kinds_self, setKind_setKind]
  refine ⟨fun hlt => by omega, fun _ => ⟨fun h => ?_, fun _ => ?_⟩⟩
  · rw [hinserted] at h
    cases h
  · refine ⟨hs.setKind_of_sizes hdisown ?_, rfl⟩
    exact PackKind.segmentBytes_modifySegment_of_bytes _ _ fun _ => rfl

lemma wp_trimBegin (k : DiskObjectKind) (segment : ℕ) (emptyOnly : Bool) :
    wp (trimBegin k segment emptyOnly) (fun _ => Settled s.packStorageBytes)
      (fun _ _ => False) s := by
  simp only [trimBegin, wp_bind, wp_loadKind]
  cases hstate : (s.kinds k).segments segment with
  | none => exact ⟨hs, rfl⟩
  | some state =>
    rw [wp_ite]
    refine ⟨fun _ => ⟨hs, rfl⟩, fun hopen => ?_⟩
    cases htail : (s.kinds k).free.freeTail segment state.bytes with
    | none => exact ⟨hs, rfl⟩
    | some n =>
      obtain ⟨hn, rfl, hend⟩ := (hs.tiled k).coalesced.freeTail_spec htail
      refine ⟨hs.setKind_of_sizes ((hs.tiled k).extract hn hstate ?_ hend) ?_, rfl⟩
      · simp only [not_or] at hopen
        simpa using hopen.2.1
      · exact PackKind.segmentBytes_modifySegment_of_bytes _ _ fun _ => rfl

lemma wp_trimFinish (k : DiskObjectKind) (segment : ℕ) (truncated : Bool) :
    wp (trimFinish k segment truncated) (fun _ => Sound)
      (fun _ => Sound) s := by
  simp only [trimFinish, wp_bind, wp_loadKind]
  cases hfind : (s.kinds k).trims.find? fun n => n.key.segment = segment with
  | none => exact hs
  | some n =>
    have hn := List.mem_of_find?_eq_some hfind
    obtain rfl : n.key.segment = segment := by simpa using List.find?_some hfind
    simp only [wp_bind, wp_modifyKind]
    rw [wp_ite]
    refine ⟨fun _ => ?_, fun _ => ?_⟩
    · have htotal := (hs.tiled k).totalBytes_truncated hn
      have hcharged := hs.totalBytes_le k
      have hsound := hs.setKind (k := k) ((hs.tiled k).truncate hn)
        (s.packStorageBytes - n.bytes) (by omega)
      simp only [wp_bind, wp_modify, wp_modifyKind, setKind,
        Function.update_self, Function.update_idem]
      exact hsound
    · simp only [wp_bind, wp_modifyKind, setKind_kinds_self,
        setKind_setKind]
      refine hs.setKind_of_sizes ((hs.tiled k).reinsert hn) ?_
      exact PackKind.segmentBytes_modifySegment_of_bytes _ _ fun _ => rfl

/-- Every critical section keeps the allocator sound, whichever way it exits. -/
lemma PackAllocator.Sound.call {op : AllocOp} (hop : op.Permitted s) : (op.call.after s).Sound := by
  refine wp_after ?_
  cases op with
  | reserve k bytes created opened =>
    rw [AllocOp.call, wp_discard]
    refine wp_mono (wp_reservePackExtent hs k bytes created opened) ?_ fun _ _ h => h.1
    exact fun _ _ h => h.elim (·.1) (·.sound)
  | release k extent =>
    exact wp_mono (wp_releasePackExtent hs hop) (fun _ _ h => h.1) fun _ _ h => h.elim
  | defragReserve k source =>
    rw [AllocOp.call, wp_discard]
    exact wp_mono (wp_defragReserve hs hop) (fun _ _ h => h.1) fun _ _ h => h.1
  | trimBegin k segment emptyOnly =>
    rw [AllocOp.call, wp_discard]
    exact wp_mono (wp_trimBegin hs k segment emptyOnly) (fun _ _ h => h.1) fun _ _ h => h.elim
  | trimFinish k segment truncated => exact wp_trimFinish hs k segment truncated

end

end NInfer.Disk
