import NInfer.Disk.FreeExtents
import NInfer.Foundation.Throwing

/-!
# The extent allocator of the disk cache

Every object kind has its own packs: numbered segment files, a free-extent index, and an active
segment at whose tail new extents are appended when nothing free fits.  The functions are
`reserve_pack_extent`, `release_pack_extent`, `rebuild_free_extents`, `trim_pack_tails` and the
target reservation inside `defrag_idle_step` of `kv_disk_cache.cpp`.

`trim_pack_tails` drops the cache's lock around its `ftruncate`.  It is modelled by the two critical
sections around that window, `trimBegin` and `trimFinish`; the nodes the trimming thread has
extracted are kept in `PackKind.trims` meanwhile, and any other call may run in between.

`PackKind.owned` is a ghost: the extents that were handed out (to objects, to writes in flight, to
relocated extents awaiting their last reader) and not given back.  File-system outcomes are
arguments.
-/

namespace NInfer.Disk

open Throwing

/-- `DiskObjectKind`. -/
inductive DiskObjectKind where
  | main
  | backend
  | state
  | ledger
  | identity
  deriving DecidableEq

instance : Fintype DiskObjectKind where
  elems := {.main, .backend, .state, .ledger, .identity}
  complete k := by cases k <;> simp

/-- `kPackSegmentBytes`. -/
def kPackSegmentBytes : ℕ := 2 ^ 30

/-- `kDiskPageIoAlignment`. -/
def kDiskPageIoAlignment : ℕ := 4096

/-- `PackSegment`. -/
structure PackSegment where
  bytes : ℕ := 0
  occupiedBytes : ℕ := 0
  trimming : Bool := false

/-- The packs of one kind. -/
structure PackKind where
  free : FreeExtents := {}
  /-- `pack_segments_[k]`. -/
  segments : ℕ → Option PackSegment := fun _ => none
  activeSegment : ℕ := 0
  activeTail : ℕ := 0
  lastSegment : ℕ := 0
  /-- The nodes held by the threads that are trimming a segment. -/
  trims : List SizeNode := []
  /-- Ghost: the extents handed out. -/
  owned : List (Extent ℕ) := []

/-- The length of a segment file, as `pack_segments_` records it. -/
def PackKind.segmentBytes (pk : PackKind) (segment : ℕ) : ℕ :=
  ((pk.segments segment).map (·.bytes)).getD 0

structure PackAllocator where
  kinds : DiskObjectKind → PackKind
  packStorageBytes : ℕ
  capacityBytes : ℕ

inductive AllocatorError where
  | logicError (what : String)
  | runtimeError (what : String)
  | outOfRange
  deriving DecidableEq

/-- Calls on the allocator. -/
abbrev Alloc (α : Type) := Throwing PackAllocator AllocatorError α

/-! ## Memory accesses -/

def loadKind (k : DiskObjectKind) : Alloc PackKind := do
  return (← get).kinds k

def modifyKind (k : DiskObjectKind) (f : PackKind → PackKind) : Alloc Unit :=
  modify fun s => { s with kinds := Function.update s.kinds k (f (s.kinds k)) }

/-- `pack_segments_[k][segment]`, which creates a missing entry. -/
def PackKind.touch (pk : PackKind) (segment : ℕ) : PackKind :=
  { pk with
    segments := Function.update pk.segments segment (some ((pk.segments segment).getD {})) }

/-- Rewrite the entry of a segment. -/
def PackKind.modifySegment (pk : PackKind) (segment : ℕ) (f : PackSegment → PackSegment) :
    PackKind :=
  { pk with segments := Function.update pk.segments segment ((pk.segments segment).map f) }

/-- `pack_segments_[k].at(segment)`. -/
def segmentAt (k : DiskObjectKind) (segment : ℕ) : Alloc PackSegment := do
  match (← loadKind k).segments segment with
  | some state => return state
  | none => throw .outOfRange

/-! ## Reservations -/

/-- The branch of `reserve_pack_extent` that uses a free extent. -/
def reserveFit (k : DiskObjectKind) (n : SizeNode) (bytes : ℕ) : Alloc (Extent ℕ) := do
  let extent : Extent ℕ := ⟨n.key.segment, n.key.offset, bytes⟩
  modifyKind k fun pk => { pk with free := pk.free.carve ⟨n.key, n.id⟩ n.bytes bytes }
  let _ ← segmentAt k n.key.segment
  modifyKind k fun pk =>
    { pk.modifySegment n.key.segment fun state =>
        { state with occupiedBytes := state.occupiedBytes + bytes } with
      owned := extent :: pk.owned }
  return extent

/-- Where a growing reservation goes: the tail of the active segment, or a new segment if the
active one is being trimmed or has no room. -/
def growthPoint (k : DiskObjectKind) (bytes : ℕ) (created : Bool) : Alloc (ℕ × ℕ) := do
  modifyKind k fun pk => pk.touch pk.activeSegment
  let pk ← loadKind k
  let state ← segmentAt k pk.activeSegment
  if state.trimming = true ∨ pk.activeTail > kPackSegmentBytes - bytes then
    throwIf (pk.lastSegment = 2 ^ 32 - 1)
      (.runtimeError "KV disk pack segment number overflow")
    modifyKind k fun pk => { pk with lastSegment := pk.lastSegment + 1 }
    throwIf (created = false) (.runtimeError "failed to create KV disk pack segment")
    return (pk.lastSegment + 1, 0)
  else
    return (pk.activeSegment, pk.activeTail)

/-- The branch of `reserve_pack_extent` that appends to a segment. -/
def reserveGrow (k : DiskObjectKind) (bytes : ℕ) (created opened : Bool) : Alloc (Extent ℕ) := do
  let s ← get
  throwIf (bytes > s.capacityBytes ∨ s.packStorageBytes > s.capacityBytes - bytes)
    (.runtimeError "KV disk pack storage capacity exceeded")
  let (segment, offset) ← growthPoint k bytes created
  modifyKind k fun pk => pk.touch segment
  let state ← segmentAt k segment
  throwIf (state.bytes = 0 ∧ opened = false)
    (.runtimeError "failed to open empty KV disk pack segment")
  modifyKind k fun pk =>
    { pk.modifySegment segment fun state =>
        { state with bytes := offset + bytes, occupiedBytes := state.occupiedBytes + bytes } with
      activeSegment := segment
      activeTail := offset + bytes
      owned := ⟨segment, offset, bytes⟩ :: pk.owned }
  modify fun s => { s with packStorageBytes := s.packStorageBytes + bytes }
  return ⟨segment, offset, bytes⟩

/-- `reserve_pack_extent`; `created` and `opened` are the outcomes of its two `open` calls. -/
def reservePackExtent (k : DiskObjectKind) (bytes : ℕ) (created opened : Bool) :
    Alloc (Extent ℕ) := do
  throwIf (bytes = 0 ∨ bytes > kPackSegmentBytes ∨ bytes % kDiskPageIoAlignment ≠ 0)
    (.logicError "KV disk extent size is invalid")
  match (← loadKind k).free.bestFit bytes with
  | some n => reserveFit k n bytes
  | none => reserveGrow k bytes created opened

/-- `insert_free_extent`. -/
def insertFreeExtent (k : DiskObjectKind) (segment offset bytes : ℕ) : Alloc Unit := do
  let pk ← loadKind k
  let (free, inserted) := pk.free.insertFreeExtent segment offset bytes
  modifyKind k fun pk => { pk with free := free }
  throwIf (inserted = false) (.logicError "KV disk free extents overlap")

/-- `release_pack_extent` of a location that was handed out. -/
def releasePackExtent (k : DiskObjectKind) (extent : Extent ℕ) : Alloc Unit := do
  if extent.length = 0 then
    return ()
  else
    let state ← segmentAt k extent.region
    throwIf (state.occupiedBytes < extent.length)
      (.logicError "KV disk extent ownership underflow")
    insertFreeExtent k extent.region extent.start extent.length
    modifyKind k fun pk =>
      { pk.modifySegment extent.region fun state =>
          { state with occupiedBytes := state.occupiedBytes - extent.length } with
        owned := pk.owned.erase extent }

/-- The destination search and target reservation of `defrag_idle_step` for an object stored at
`source`; `none` if the object is not worth moving or nothing below it fits. -/
def defragReserve (k : DiskObjectKind) (source : Extent ℕ) : Alloc (Option (Extent ℕ)) := do
  let state ← segmentAt k source.region
  if state.trimming = true ∨ state.occupiedBytes > state.bytes - state.bytes / 4 then
    return none
  else
    let pk ← loadKind k
    match pk.free.firstFitBelow ⟨source.region, source.start⟩ source.length with
    | none => return none
    | some hole =>
      let target : Extent ℕ := ⟨hole.key.segment, hole.key.offset, source.length⟩
      modifyKind k fun pk =>
        { pk with free := pk.free.carve hole (pk.free.bytesOf hole) source.length }
      let _ ← segmentAt k target.region
      modifyKind k fun pk =>
        { pk.modifySegment target.region fun state =>
            { state with occupiedBytes := state.occupiedBytes + source.length } with
          owned := target :: pk.owned }
      return some target

/-! ## Trimming -/

/-- The critical section of `trim_pack_tails` before its unlocked window, for one segment; `none`
if the loop continues with the next segment. -/
def trimBegin (k : DiskObjectKind) (segment : ℕ) (emptyOnly : Bool) : Alloc (Option SizeNode) := do
  let pk ← loadKind k
  match pk.segments segment with
  | none => return none
  | some state =>
    if state.bytes = 0 ∨ state.trimming = true ∨
        (emptyOnly = true ∧ state.occupiedBytes ≠ 0) then
      return none
    else
      match pk.free.freeTail segment state.bytes with
      | none => return none
      | some n =>
        modifyKind k fun pk =>
          { pk.modifySegment segment fun state => { state with trimming := true } with
            free := pk.free.unlink ⟨n.key, n.id⟩
            trims := n :: pk.trims }
        return some n

/-- The critical section of `trim_pack_tails` after its unlocked window. -/
def trimFinish (k : DiskObjectKind) (segment : ℕ) (truncated : Bool) : Alloc Unit := do
  let pk ← loadKind k
  match pk.trims.find? fun n => n.key.segment = segment with
  | none => return ()
  | some n =>
    modifyKind k fun pk => { pk with trims := pk.trims.erase n }
    if truncated = true then
      modify fun s => { s with packStorageBytes := s.packStorageBytes - n.bytes }
      modifyKind k fun pk =>
        { pk.modifySegment segment fun state =>
            { state with bytes := n.key.offset, trimming := false } with
          activeTail := if segment = pk.activeSegment then n.key.offset else pk.activeTail }
    else
      modifyKind k fun pk =>
        { pk.modifySegment segment fun state => { state with trimming := false } with
          free := pk.free.relink n }
      throw (.runtimeError "failed to truncate KV disk pack tail")

/-! ## Rebuilding -/

/-- What the directory of a kind holds: segment numbers and file sizes. -/
abbrev SegmentFiles := List (ℕ × ℕ)

/-- The objects of a kind that own an extent: those whose segment file exists and is long enough. -/
def heldExtents (files : SegmentFiles) (objects : List (Extent ℕ)) : List (Extent ℕ) :=
  objects.filter fun e => ∃ file ∈ files, file.1 = e.region ∧ e.start ≤ file.2 ∧
    e.length ≤ file.2 - e.start

/-- The gap loop of `rebuild_free_extents` over one segment: the index, the end of the last object,
and whether every insertion took place. -/
def fillGaps (free : FreeExtents) (segment offset : ℕ) :
    List (Extent ℕ) → FreeExtents × ℕ × Bool
  | [] => (free, offset, true)
  | e :: rest =>
    let (free, inserted) :=
      if e.start > offset then free.insertFreeExtent segment offset (e.start - offset)
      else (free, true)
    let (free, stop, ok) := fillGaps free segment e.stop rest
    (free, stop, inserted && ok)

/-- The objects of one segment in the order of the map `occupied`. -/
def occupiedIn (held : List (Extent ℕ)) (segment : ℕ) : List (Extent ℕ) :=
  (held.filter fun e => e.region = segment).insertionSort fun a b => a.start ≤ b.start

/-- One segment of `rebuild_free_extents`. -/
def rebuildSegment (held : List (Extent ℕ)) (pk : PackKind) (file : ℕ × ℕ) : PackKind × Bool :=
  let (free, stop, ok) := fillGaps pk.free file.1 0 (occupiedIn held file.1)
  let bytes := if file.2 > stop then stop else file.2
  let state : PackSegment :=
    { bytes := bytes
      occupiedBytes := ((held.filter fun e => e.region = file.1).map (·.length)).sum }
  ({ pk with
      free := free
      segments := Function.update pk.segments file.1 (some state)
      activeTail := if file.1 = pk.activeSegment then bytes else pk.activeTail }, ok)

/-- The segments of one kind, in increasing order. -/
def rebuildSegments (held : List (Extent ℕ)) : PackKind → SegmentFiles → PackKind × Bool
  | pk, [] => (pk, true)
  | pk, file :: files =>
    let (pk, ok) := rebuildSegment held pk file
    let (pk, rest) := rebuildSegments held pk files
    (pk, ok && rest)

/-- One kind of `rebuild_free_extents`. -/
def rebuildKind (files : SegmentFiles) (objects : List (Extent ℕ)) : PackKind × Bool :=
  let last := (files.map (·.1)).foldr max 0
  let held := heldExtents files objects
  rebuildSegments held
    { lastSegment := last, activeSegment := last, owned := held }
    (files.insertionSort fun a b => a.1 ≤ b.1)

/-- `rebuild_free_extents`, if no insertion throws and every truncation succeeds. -/
def rebuildFreeExtents (capacityBytes : ℕ) (files : DiskObjectKind → SegmentFiles)
    (objects : DiskObjectKind → List (Extent ℕ)) : Option PackAllocator :=
  if ∀ k, (rebuildKind (files k) (objects k)).2 = true then
    some
      { kinds := fun k => (rebuildKind (files k) (objects k)).1
        packStorageBytes := ∑ k, ((files k).map fun file =>
          (rebuildKind (files k) (objects k)).1.segmentBytes file.1).sum
        capacityBytes := capacityBytes }
  else none

/-! ## Runs -/

/-- One critical section. -/
inductive AllocOp where
  | reserve (k : DiskObjectKind) (bytes : ℕ) (created opened : Bool)
  | release (k : DiskObjectKind) (extent : Extent ℕ)
  | defragReserve (k : DiskObjectKind) (source : Extent ℕ)
  | trimBegin (k : DiskObjectKind) (segment : ℕ) (emptyOnly : Bool)
  | trimFinish (k : DiskObjectKind) (segment : ℕ) (truncated : Bool)

def AllocOp.call : AllocOp → Alloc Unit
  | .reserve k bytes created opened => discard (reservePackExtent k bytes created opened)
  | .release k extent => releasePackExtent k extent
  | .defragReserve k source => discard (Disk.defragReserve k source)
  | .trimBegin k segment emptyOnly => discard (Disk.trimBegin k segment emptyOnly)
  | .trimFinish k segment truncated => Disk.trimFinish k segment truncated

/-- An extent is released, or moved away from, by its owner. -/
def AllocOp.Permitted (s : PackAllocator) : AllocOp → Prop
  | .release k extent | .defragReserve k extent => extent ∈ (s.kinds k).owned
  | _ => True

/-- The object extents of a kind do not overlap, and segment files have distinct numbers. -/
structure CleanImage (files : SegmentFiles) (objects : List (Extent ℕ)) : Prop where
  files_distinct : (files.map (·.1)).Nodup
  nonempty : ∀ e ∈ objects, 0 < e.length
  disjoint : objects.Pairwise fun a b => a.region = b.region → a.stop ≤ b.start ∨ b.stop ≤ a.start

/-- The states reached from a rebuilt allocator by any interleaving of critical sections, each
returning or throwing. -/
inductive AllocReachable : PackAllocator → Prop where
  | rebuilt {capacityBytes : ℕ} {files : DiskObjectKind → SegmentFiles}
      {objects : DiskObjectKind → List (Extent ℕ)} {s : PackAllocator}
      (hclean : ∀ k, CleanImage (files k) (objects k))
      (hs : rebuildFreeExtents capacityBytes files objects = some s) : AllocReachable s
  | step {s : PackAllocator} (op : AllocOp) (hop : op.Permitted s) :
      AllocReachable s → AllocReachable (op.call.after s)

end NInfer.Disk
