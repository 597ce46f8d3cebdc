import NInfer.Core.HostPinnedArena
import NInfer.Foundation.ScopedAllocation

/-!
# Layout builders and the device arena

`WorkspaceLayoutBuilder` and `LayoutBuilder` (`core/layout.cpp`) are dry runs of `DeviceArena`
(`core/arena.cu`): a target's allocation helpers run once against a builder to learn how much memory
they need and once against the real arena.  Each is a bump allocator with scopes, but each computes
its offsets in its own way: the builders round a cursor that starts at zero, the arena rounds an
address and subtracts the base, and only the arena has a capacity to exceed.

All three are instances of `Allocator`, so a program of scopes and requests runs on any of them.
`layout_realised` says that the arena a builder sized executes the builder's program: no request is
refused, every result is where the builder put it, and no two live results overlap.

A builder's request for a workspace returns a span without an address; the offset it reserved for it
is kept as the result here.
-/

namespace NInfer.Core

/-! ## Tensor sizes -/

inductive DType where
  | bf16
  | fp32
  | i32
  | u8
  | i64
  | i8
  | fp16
  | fp8E4M3FN
  deriving DecidableEq

/-- `dtype_size`. -/
def dtypeSize : DType → ℕ
  | .bf16 => 2
  | .fp32 | .i32 => 4
  | .u8 => 1
  | .i64 => 8
  | .i8 => 1
  | .fp16 => 2
  | .fp8E4M3FN => 1

/-- `std::numeric_limits<std::int64_t>::max()`. -/
def int64Max : ℤ := 2 ^ 63 - 1

/-- `checked_mul_i64`. -/
def checkedMulI64 (a b : ℤ) : Except Exception ℤ := do
  refuseIf (a < 0 ∨ b < 0) (.invalidArgument "tensor dimensions must be positive")
  refuseIf (b ≠ 0 ∧ a > int64Max / b) (.overflowError "tensor size overflows int64")
  return a * b

/-- `normalize_shape`. -/
def normalizeShape (shape : List ℤ) : Except Exception (List ℤ) := do
  refuseIf (shape.length = 0 ∨ shape.length > 4) (.invalidArgument "tensor rank must be in [1,4]")
  refuseIf (∃ dim ∈ shape, dim ≤ 0) (.invalidArgument "tensor dimensions must be positive")
  return shape ++ List.replicate (4 - shape.length) 1

/-- One dimension of `shape_numel`. -/
def numelStep (total dim : ℤ) : Except Exception ℤ := do
  refuseIf (dim ≤ 0) (.invalidArgument "tensor dimensions must be positive")
  checkedMulI64 total dim

/-- `shape_numel`. -/
def shapeNumel (shape : List ℤ) : Except Exception ℤ := shape.foldlM numelStep 1

/-- `Tensor(nullptr, dtype, shape).bytes()`: the constructor computes the strides, which can
overflow, and `bytes` the size. -/
def tensorBytes (dtype : DType) (shape : List ℤ) : Except Exception ℕ := do
  let ne ← normalizeShape shape
  let _ ← (ne.take 3).foldlM checkedMulI64 (dtypeSize dtype)
  let elements ← shapeNumel ne
  refuseIf (elements < 0 ∨ elements > sizeMax)
    (.overflowError "tensor element count overflows size_t")
  refuseIf (dtypeSize dtype ≠ 0 ∧ elements.toNat > sizeMax / dtypeSize dtype)
    (.overflowError "tensor byte size overflows size_t")
  return elements.toNat * dtypeSize dtype

/-! ## Requests -/

inductive Size where
  | bytes (count : ℕ)
  | tensor (dtype : DType) (shape : List ℤ)

/-- One allocation of a program; only `LayoutBuilder` reads the label. -/
structure Request where
  size : Size
  alignment : ℕ
  label : String

def Size.count : Size → Except Exception ℕ
  | .bytes count => .ok count
  | .tensor dtype shape => tensorBytes dtype shape

/-- `LayoutRegion`. -/
structure LayoutRegion where
  offset : ℕ
  bytes : ℕ
  alignment : ℕ
  deriving DecidableEq

/-- `DeviceSpan`. -/
structure DeviceSpan where
  data : ℕ
  bytes : ℕ
  deriving DecidableEq

/-! ## The builders -/

/-- `checked_add` of `layout.cpp`. -/
def checkedAdd (a b : ℕ) (label : String) : Except Exception ℕ := do
  refuseIf (b > sizeMax - a) (.overflowError (label ++ " size overflow"))
  return a + b

/-- `align_up` of `layout.cpp`. -/
def checkedAlignUp (value alignment : ℕ) (label : String) : Except Exception ℕ := do
  refuseIf (¬IsPowerOfTwo alignment)
    (.invalidArgument (label ++ " alignment must be a power of two"))
  let _ ← checkedAdd value (alignment - 1) label
  return alignUp value alignment

/-- The state of either builder. -/
structure Builder where
  cursor : ℕ := 0
  peak : ℕ := 0

/-- Round the cursor up, advance it, and raise the peak. -/
def Builder.place (b : Builder) (bytes alignment : ℕ) (label : String) :
    Except Exception (LayoutRegion × Builder) := do
  let offset ← checkedAlignUp b.cursor alignment label
  let cursor ← checkedAdd offset bytes label
  return (⟨offset, bytes, alignment⟩, ⟨cursor, if cursor > b.peak then cursor else b.peak⟩)

namespace LayoutBuilder

/-- `LayoutBuilder::add`. -/
def add (b : Builder) (bytes alignment : ℕ) (label : String) :
    Except Exception (LayoutRegion × Builder) := do
  refuseIf (bytes = 0) (.invalidArgument (label ++ " must not be empty"))
  b.place bytes alignment label

/-- `LayoutBuilder::add_tensor`. -/
def addTensor (b : Builder) (dtype : DType) (shape : List ℤ) (alignment : ℕ) (label : String) :
    Except Exception (LayoutRegion × Builder) := do
  let bytes ← tensorBytes dtype shape
  add b bytes alignment label

/-- `LayoutBuilder::finish`. -/
def finish (b : Builder) (alignment : ℕ) (label : String) : Except Exception ℕ :=
  checkedAlignUp b.peak alignment label

/-- `LayoutBuilder`, whose scopes restore the cursor. -/
def allocator : Allocator Exception Request LayoutRegion Builder where
  alloc b request :=
    match request.size with
    | .bytes count => add b count request.alignment request.label
    | .tensor dtype shape => addTensor b dtype shape request.alignment request.label
  mark := Builder.cursor
  rewind b mark := { b with cursor := mark }

end LayoutBuilder

namespace WorkspaceLayoutBuilder

/-- `WorkspaceLayoutBuilder::alloc_bytes`. -/
def allocBytes (b : Builder) (bytes alignment : ℕ) : Except Exception (LayoutRegion × Builder) :=
  if bytes = 0 then return (⟨b.cursor, 0, alignment⟩, b)
  else b.place bytes alignment "workspace layout"

/-- `WorkspaceLayoutBuilder::alloc`. -/
def alloc (b : Builder) (dtype : DType) (shape : List ℤ) (alignment : ℕ) :
    Except Exception (LayoutRegion × Builder) := do
  let bytes ← tensorBytes dtype shape
  b.place bytes alignment "workspace layout"

/-- `WorkspaceLayoutBuilder::peak_bytes`. -/
def peakBytes (b : Builder) (alignment : ℕ) : Except Exception ℕ :=
  checkedAlignUp b.peak alignment "workspace layout"

/-- `WorkspaceLayoutBuilder`, whose scopes restore the cursor. -/
def allocator : Allocator Exception Request LayoutRegion Builder where
  alloc b request :=
    match request.size with
    | .bytes count => allocBytes b count request.alignment
    | .tensor dtype shape => alloc b dtype shape request.alignment
  mark := Builder.cursor
  rewind b mark := { b with cursor := mark }

end WorkspaceLayoutBuilder

/-! ## The arena -/

structure DeviceArena where
  base : ℕ
  cap : ℕ
  off : ℕ := 0
  peak : ℕ := 0

namespace DeviceArena

/-- The constructor, once the device memory is allocated. -/
def new {capacity : ℕ} (region : Mapping capacity) : Except Exception DeviceArena := do
  refuseIf (capacity = 0) (.invalidArgument "DeviceArena capacity must be nonzero")
  return { base := region.base, cap := capacity }

/-- `DeviceArena::alloc_bytes`. -/
def allocBytes (a : DeviceArena) (bytes align : ℕ) : Except Exception (DeviceSpan × DeviceArena) :=
  do
  refuseIf (a.base = 0) (.runtimeError "DeviceArena has no backing allocation")
  refuseIf (¬IsPowerOfTwo align)
    (.invalidArgument "arena alignment must be a nonzero power of two")
  refuseIf (bytes = 0) (.invalidArgument "arena allocation must be nonzero")
  let currentAddr ← checkedAddUintptr a.base a.off
  let alignedAddr ← alignUpAddr currentAddr align
  let alignedOffset := alignedAddr - a.base
  refuseIf (alignedOffset > sizeMax) (.overflowError "arena aligned offset overflows size_t")
  refuseIf (bytes > sizeMax - alignedOffset)
    (.overflowError "arena allocation end offset overflows size_t")
  let stop := alignedOffset + bytes
  refuseIf (stop > a.cap) .badAlloc
  return (⟨a.base + alignedOffset, bytes⟩,
    { a with off := stop, peak := if stop > a.peak then stop else a.peak })

/-- `DeviceArena::alloc`. -/
def alloc (a : DeviceArena) (dtype : DType) (shape : List ℤ) (align : ℕ) :
    Except Exception (DeviceSpan × DeviceArena) := do
  let bytes ← tensorBytes dtype shape
  a.allocBytes bytes align

/-- `DeviceArena`; the end of a scope rewinds only backwards. -/
def allocator : Allocator Exception Request DeviceSpan DeviceArena where
  alloc a request :=
    match request.size with
    | .bytes count => a.allocBytes count request.alignment
    | .tensor dtype shape => a.alloc dtype shape request.alignment
  mark := off
  rewind a mark := if mark ≤ a.off then { a with off := mark } else a

end DeviceArena

/-! ## What a request does -/

lemma checkedMulI64_pos {a b c : ℤ} (ha : 0 < a) (hb : 0 < b) (h : checkedMulI64 a b = .ok c) :
    0 < c := by
  obtain ⟨-, h⟩ := refuseIf_bind_iff.mp h
  obtain ⟨-, h⟩ := refuseIf_bind_iff.mp h
  exact ok_pure_iff.mp h ▸ Int.mul_pos ha hb

lemma shapeNumel_pos {shape : List ℤ} {elements : ℤ} (h : shapeNumel shape = .ok elements) :
    0 < elements := by
  have key : ∀ total, 0 < total → shape.foldlM numelStep total = .ok elements → 0 < elements := by
    clear h
    induction shape with
    | nil =>
      intro total htotal h
      exact ok_pure_iff.mp h ▸ htotal
    | cons dim shape ih =>
      intro total htotal h
      obtain ⟨next, hnext, hrest⟩ := ok_bind_iff.mp h
      obtain ⟨hdim, hmul⟩ := refuseIf_bind_iff.mp hnext
      exact ih next (checkedMulI64_pos htotal (not_le.mp hdim) hmul) hrest
  exact key 1 one_pos h

/-- A tensor has at least one byte. -/
lemma tensorBytes_ne_zero {dtype : DType} {shape : List ℤ} {bytes : ℕ}
    (h : tensorBytes dtype shape = .ok bytes) : bytes ≠ 0 := by
  obtain ⟨ne, -, h⟩ := ok_bind_iff.mp h
  obtain ⟨-, -, h⟩ := ok_bind_iff.mp h
  obtain ⟨elements, helements, h⟩ := ok_bind_iff.mp h
  obtain ⟨-, h⟩ := refuseIf_bind_iff.mp h
  obtain ⟨-, h⟩ := refuseIf_bind_iff.mp h
  have hpos := shapeNumel_pos helements
  have hsize : dtypeSize dtype ≠ 0 := by cases dtype <;> decide
  rw [← ok_pure_iff.mp h]
  exact Nat.mul_ne_zero (by omega) hsize

lemma checkedAdd_ok {a b c : ℕ} {label : String} (h : checkedAdd a b label = .ok c) :
    c = a + b := by
  obtain ⟨-, h⟩ := refuseIf_bind_iff.mp h
  exact (ok_pure_iff.mp h).symm

lemma checkedAlignUp_ok {value alignment c : ℕ} {label : String}
    (h : checkedAlignUp value alignment label = .ok c) :
    IsPowerOfTwo alignment ∧ c = alignUp value alignment := by
  obtain ⟨hpow, h⟩ := refuseIf_bind_iff.mp h
  obtain ⟨-, -, h⟩ := ok_bind_iff.mp h
  exact ⟨not_not.mp hpow, (ok_pure_iff.mp h).symm⟩

/-- The region a builder reserves, and where its cursor and peak are left. -/
structure Builder.Placed (b : Builder) (bytes alignment : ℕ) (region : LayoutRegion)
    (b' : Builder) : Prop where
  power : IsPowerOfTwo alignment
  region_eq : region = ⟨alignUp b.cursor alignment, bytes, alignment⟩
  cursor_eq : b'.cursor = alignUp b.cursor alignment + bytes
  peak_eq : b'.peak = max b.peak b'.cursor

lemma Builder.place_ok {b b' : Builder} {bytes alignment : ℕ} {label : String}
    {region : LayoutRegion} (h : b.place bytes alignment label = .ok (region, b')) :
    b.Placed bytes alignment region b' := by
  obtain ⟨offset, hoffset, h⟩ := ok_bind_iff.mp h
  obtain ⟨cursor, hcursor, h⟩ := ok_bind_iff.mp h
  obtain ⟨hpow, rfl⟩ := checkedAlignUp_ok hoffset
  obtain rfl := checkedAdd_ok hcursor
  obtain ⟨rfl, rfl⟩ := Prod.mk.inj (ok_pure_iff.mp h)
  refine ⟨hpow, rfl, rfl, ?_⟩
  generalize alignUp b.cursor alignment + bytes = cursor
  show (if cursor > b.peak then cursor else b.peak) = max b.peak cursor
  split_ifs with hpeak <;> omega

/-- What the two builders have in common: a request either reserves nothing or places its bytes. -/
structure Plans (A : Allocator Exception Request LayoutRegion Builder) : Prop where
  mark : ∀ b, A.mark b = b.cursor
  rewind : ∀ b mark, A.rewind b mark = { b with cursor := mark }
  alloc : ∀ {b request region b'}, A.alloc b request = .ok (region, b') →
    (request.size.count = .ok 0 ∧ region = ⟨b.cursor, 0, request.alignment⟩ ∧ b' = b) ∨
      ∃ bytes, request.size.count = .ok bytes ∧ bytes ≠ 0 ∧
        b.Placed bytes request.alignment region b'

lemma LayoutBuilder.plans : Plans LayoutBuilder.allocator where
  mark _ := rfl
  rewind _ _ := rfl
  alloc {b request region b'} h := by
    refine .inr ?_
    obtain ⟨size, alignment, label⟩ := request
    cases size with
    | bytes count =>
      obtain ⟨hne, h⟩ := refuseIf_bind_iff.mp h
      exact ⟨count, rfl, hne, Builder.place_ok h⟩
    | tensor dtype shape =>
      obtain ⟨bytes, hbytes, h⟩ := ok_bind_iff.mp h
      obtain ⟨hne, h⟩ := refuseIf_bind_iff.mp h
      exact ⟨bytes, hbytes, hne, Builder.place_ok h⟩

lemma WorkspaceLayoutBuilder.plans : Plans WorkspaceLayoutBuilder.allocator where
  mark _ := rfl
  rewind _ _ := rfl
  alloc {b request region b'} h := by
    obtain ⟨size, alignment, label⟩ := request
    cases size with
    | bytes count =>
      change allocBytes b count alignment = _ at h
      unfold allocBytes at h
      split_ifs at h with hzero
      · obtain ⟨rfl, rfl⟩ := Prod.mk.inj (ok_pure_iff.mp h)
        exact .inl ⟨by rw [hzero]; rfl, rfl, rfl⟩
      · exact .inr ⟨count, rfl, hzero, Builder.place_ok h⟩
    | tensor dtype shape =>
      obtain ⟨bytes, hbytes, h⟩ := ok_bind_iff.mp h
      exact .inr ⟨bytes, hbytes, tensorBytes_ne_zero hbytes, Builder.place_ok h⟩

lemma DeviceArena.alloc_of_count (a : DeviceArena) {request : Request} {bytes : ℕ}
    (hcount : request.size.count = .ok bytes) :
    DeviceArena.allocator.alloc a request = a.allocBytes bytes request.alignment := by
  obtain ⟨size, alignment, label⟩ := request
  cases size with
  | bytes count => rw [Except.ok.inj hcount.symm]; rfl
  | tensor dtype shape =>
    change (tensorBytes dtype shape >>= fun bytes => a.allocBytes bytes alignment) = _
    rw [show tensorBytes dtype shape = .ok bytes from hcount]
    rfl

/-- The arena serves a request whose bytes fit behind the rounded offset. -/
lemma DeviceArena.allocBytes_eq {capacity : ℕ} {region : Mapping capacity} {a : DeviceArena}
    (hbase : a.base = region.base) (hcap : a.cap = capacity) {bytes align : ℕ} (hbytes : bytes ≠ 0)
    (halign : IsPowerOfTwo align) (hdvd : align ∣ region.base)
    (hfits : alignUp a.off align + bytes ≤ capacity) :
    a.allocBytes bytes align = .ok (⟨region.base + alignUp a.off align, bytes⟩,
      { a with
        off := alignUp a.off align + bytes
        peak := max a.peak (alignUp a.off align + bytes) }) := by
  have hfit := region.fits
  have hnonnull := region.nonnull
  have hle := le_alignUp halign a.off
  have hround : alignUp (region.base + a.off) align = region.base + alignUp a.off align :=
    alignUp_add halign hdvd a.off
  -- Rounding up does not leave the address space: the rounded address is inside the region.
  have hmask : region.base + a.off + (align - 1) ≤ sizeMax := by
    by_contra hover
    have hword := dvd_word halign ((Nat.le_of_dvd (by omega) hdvd).trans (by omega))
    have := le_alignUp_of_lt halign (x := region.base + a.off) hword (by omega)
    omega
  rw [allocBytes, hbase]
  refine refuseIf_bind_iff.mpr ⟨hnonnull, refuseIf_bind_iff.mpr ⟨not_not.mpr halign,
    refuseIf_bind_iff.mpr ⟨hbytes, ok_bind_iff.mpr ⟨region.base + a.off, ?_, ok_bind_iff.mpr
      ⟨region.base + alignUp a.off align, ?_, ?_⟩⟩⟩⟩⟩
  · rw [checkedAddUintptr_eq (by omega), if_pos (by omega)]
  · refine ok_bind_iff.mpr ⟨region.base + a.off + (align - 1), ?_, ok_pure_iff.mpr hround⟩
    rw [checkedAddUintptr_eq (by omega), if_pos hmask]
  · rw [Nat.add_sub_cancel_left]
    refine refuseIf_bind_iff.mpr ⟨by omega, refuseIf_bind_iff.mpr ⟨by omega,
      refuseIf_bind_iff.mpr ⟨by omega, ok_pure_iff.mpr ?_⟩⟩⟩
    generalize alignUp a.off align + bytes = stop
    have hpeak : (if stop > a.peak then stop else a.peak) = max a.peak stop := by
      split_ifs <;> omega
    rw [hpeak]

/-! ## The arena executes what a builder planned -/

/-- The span of a region inside memory at `base`. -/
def LayoutRegion.span (base : ℕ) (region : LayoutRegion) : DeviceSpan :=
  ⟨base + region.offset, region.bytes⟩

/-- A request the arena is expected to serve: it is not empty and the base is aligned for it. -/
def Request.Wanted (base : ℕ) (request : Request) : Prop :=
  request.size.count ≠ .ok 0 ∧ request.alignment ∣ base

/-- The arena stands where the builder stands. -/
structure Builder.Matches {capacity : ℕ} (region : Mapping capacity) (b : Builder)
    (a : DeviceArena) : Prop where
  base_eq : a.base = region.base
  cap_eq : a.cap = capacity
  off_eq : a.off = b.cursor
  cursor_le : b.cursor ≤ b.peak

section Refinement

variable {A : Allocator Exception Request LayoutRegion Builder} (hA : Plans A)

include hA

lemma Plans.lawful : A.Lawful LayoutRegion.offset fun region => region.offset + region.bytes where
  le_start {b request region b'} h := by
    rw [hA.mark]
    rcases hA.alloc h with ⟨-, rfl, -⟩ | ⟨bytes, -, -, hplaced⟩
    · exact le_rfl
    · rw [hplaced.region_eq]
      exact le_alignUp hplaced.power b.cursor
  stop_le {b request region b'} h := by
    rw [hA.mark]
    rcases hA.alloc h with ⟨-, rfl, rfl⟩ | ⟨bytes, -, -, hplaced⟩
    · exact le_rfl
    · rw [hplaced.region_eq, hplaced.cursor_eq]
  start_le_stop region := Nat.le_add_right _ _
  mark_rewind b mark _ := by rw [hA.mark, hA.rewind]

/-- The arena of a region that holds the builder's peak simulates the builder. -/
lemma Plans.simulates {capacity : ℕ} (region : Mapping capacity) :
    A.Simulates DeviceArena.allocator (Builder.Matches region) (LayoutRegion.span region.base)
      (fun b => b.peak ≤ capacity) (Request.Wanted region.base) where
  mark h := by rw [hA.mark]; exact h.off_eq
  rewind {b a mark} h hle := by
    obtain ⟨hbase, hcap, hoff, hpeak⟩ := h
    rw [hA.mark] at hle
    have hrewind : DeviceArena.allocator.rewind a mark = { a with off := mark } :=
      if_pos (hoff ▸ hle)
    rw [hA.rewind, hrewind]
    exact ⟨hbase, hcap, rfl, hle.trans hpeak⟩
  alloc {b a request planned b'} h hwanted halloc hwithin := by
    rcases hA.alloc halloc with ⟨hzero, -, -⟩ | ⟨bytes, hcount, hbytes, hplaced⟩
    · exact absurd hzero hwanted.1
    obtain ⟨hbase, hcap, hoff, -⟩ := h
    have hpeak := hplaced.peak_eq
    have hcursor := hplaced.cursor_eq
    rw [← hoff] at hcursor
    have hserved := DeviceArena.allocBytes_eq hbase hcap hbytes hplaced.power hwanted.2 (by omega)
    have hspan : planned.span region.base =
        ⟨region.base + alignUp a.off request.alignment, bytes⟩ := by
      rw [hplaced.region_eq, hoff]
      rfl
    rw [hspan]
    exact ⟨_, (DeviceArena.alloc_of_count a hcount).trans hserved, hbase, hcap, hcursor.symm,
      by omega⟩
  within_of_alloc {b request planned b'} halloc hwithin := by
    rcases hA.alloc halloc with ⟨-, -, rfl⟩ | ⟨bytes, -, -, hplaced⟩
    · exact hwithin
    · have := hplaced.peak_eq
      omega
  within_of_rewind {b mark} h := by
    rw [hA.rewind] at h
    exact h

/-- Every prefix of the program runs on the arena as on the builder: each result is the planned
region, and the live results lie inside the arena and do not overlap. -/
def Realises (A : Allocator Exception Request LayoutRegion Builder) (arena : DeviceArena)
    (program : List (ScopedOp Request)) : Prop :=
  ∀ first rest, program = first ++ rest → ∃ planned executed,
    A.run {} first = .ok planned ∧ DeviceArena.allocator.run arena first = .ok executed ∧
      executed.results = planned.results.map (LayoutRegion.span arena.base) ∧
      executed.live = planned.live.map (LayoutRegion.span arena.base) ∧
      (∀ span ∈ executed.live, arena.base ≤ span.data ∧
        span.data + span.bytes ≤ arena.base + arena.cap) ∧
      executed.live.Pairwise fun newer older => older.data + older.bytes ≤ newer.data

lemma Plans.realises {capacity : ℕ} {region : Mapping capacity} {arena : DeviceArena}
    (harena : DeviceArena.new region = .ok arena) {program : List (ScopedOp Request)}
    (hwanted : ∀ request, .alloc request ∈ program → request.Wanted region.base)
    {planned : Running LayoutRegion Builder} (hplanned : A.run {} program = .ok planned)
    (hpeak : planned.state.peak ≤ capacity) : Realises A arena program := by
  obtain ⟨-, hpure⟩ := refuseIf_bind_iff.mp harena
  obtain rfl := ok_pure_iff.mp hpure
  rintro first rest rfl
  obtain ⟨planned₁, hfirst, hrest⟩ := Allocator.runFrom_append_iff.mp hplanned
  have hsim := hA.simulates region
  have hnested := hA.lawful.runFrom (.init A {}) hfirst
  have hwithin := hsim.within_of_runFrom hrest hpeak
  have hinit : Allocator.Related (Builder.Matches region) (LayoutRegion.span region.base)
      { state := ({} : Builder) }
      { state := ({ base := region.base, cap := capacity } : DeviceArena) } :=
    ⟨⟨rfl, rfl, rfl, le_rfl⟩, rfl, rfl, rfl⟩
  obtain ⟨executed, hexecuted, hrel⟩ := hsim.runFrom hA.lawful (.init A {}) hinit
    (fun request hmem => hwanted request (List.mem_append_left _ hmem)) hfirst hwithin
  have hcursor := hrel.state.cursor_le
  have hlive := hnested.live
  rw [hA.mark] at hlive
  refine ⟨planned₁, executed, hfirst, hexecuted, hrel.results, hrel.live, ?_, ?_⟩
  · rw [hrel.live]
    intro span hspan
    obtain ⟨planned, hmem, rfl⟩ := List.mem_map.mp hspan
    have hstop := hlive.stop_le planned hmem
    simp only [LayoutRegion.span]
    omega
  · rw [hrel.live, List.pairwise_map]
    refine hlive.apart.imp fun {newer older} happart => ?_
    simp only [LayoutRegion.span]
    omega

end Refinement

/-- The size a builder reports covers its peak. -/
lemma peak_le_of_checkedAlignUp {peak alignment capacity : ℕ} {label : String}
    (h : checkedAlignUp peak alignment label = .ok capacity) : peak ≤ capacity := by
  obtain ⟨hpow, rfl⟩ := checkedAlignUp_ok h
  exact le_alignUp hpow peak

/-- **A sized arena executes its layout.**  Run a program of scopes and nonempty requests, whose
alignments divide the arena's base, on either builder.  An arena with the capacity the builder
reports executes the program and each of its prefixes: nothing is thrown, each result is the region
the builder planned, and the regions live at one time lie inside the arena and do not overlap. -/
theorem layout_realised {capacity : ℕ} (region : Mapping capacity) {arena : DeviceArena}
    (harena : DeviceArena.new region = .ok arena) (program : List (ScopedOp Request))
    (hwanted : ∀ request, .alloc request ∈ program → request.Wanted region.base) (alignment : ℕ) :
    (∀ planned, WorkspaceLayoutBuilder.allocator.run {} program = .ok planned →
      WorkspaceLayoutBuilder.peakBytes planned.state alignment = .ok capacity →
      Realises WorkspaceLayoutBuilder.allocator arena program) ∧
    ∀ planned label, LayoutBuilder.allocator.run {} program = .ok planned →
      LayoutBuilder.finish planned.state alignment label = .ok capacity →
      Realises LayoutBuilder.allocator arena program := by
  constructor
  · intro planned hplanned hpeak
    exact WorkspaceLayoutBuilder.plans.realises harena hwanted hplanned
      (peak_le_of_checkedAlignUp hpeak)
  · intro planned label hplanned hpeak
    exact LayoutBuilder.plans.realises harena hwanted hplanned (peak_le_of_checkedAlignUp hpeak)

/-- Two workspaces of different scopes over a common buffer. -/
def twoScopes : List (ScopedOp Request) :=
  [.alloc ⟨.bytes 10, 16, "buffer"⟩, .openScope, .alloc ⟨.tensor .bf16 [3, 50], 64, "scores"⟩,
    .closeScope, .openScope, .alloc ⟨.tensor .fp32 [7], 8, "sums"⟩]

def pageMapping : Mapping 512 := ⟨4096, by decide, by decide⟩

theorem layout_realised_twoScopes :
    ∃ arena, DeviceArena.new pageMapping = .ok arena ∧
      Realises WorkspaceLayoutBuilder.allocator arena twoScopes ∧
      Realises LayoutBuilder.allocator arena twoScopes := by
  have hwanted : ∀ request, .alloc request ∈ twoScopes → request.Wanted pageMapping.base := by
    intro request hmem
    simp only [twoScopes, List.mem_cons, ScopedOp.alloc.injEq, reduceCtorEq, List.not_mem_nil,
      false_or, or_false] at hmem
    rcases hmem with rfl | rfl | rfl
    · exact ⟨by simp [Size.count], by decide⟩
    · exact ⟨fun h => tensorBytes_ne_zero h rfl, by decide⟩
    · exact ⟨fun h => tensorBytes_ne_zero h rfl, by decide⟩
  obtain ⟨planned, hplanned, hpeak⟩ :
      ∃ planned ∈ (WorkspaceLayoutBuilder.allocator.run {} twoScopes).toOption,
        512 ∈ (WorkspaceLayoutBuilder.peakBytes planned.state 256).toOption := by
    decide +kernel
  obtain ⟨planned', hplanned', hpeak'⟩ :
      ∃ planned ∈ (LayoutBuilder.allocator.run {} twoScopes).toOption,
        512 ∈ (LayoutBuilder.finish planned.state 256 "layout").toOption := by
    decide +kernel
  have hrealised := layout_realised pageMapping rfl twoScopes hwanted 256
  exact ⟨_, rfl,
    hrealised.1 planned (ok_of_mem_toOption hplanned) (ok_of_mem_toOption hpeak),
    hrealised.2 planned' "layout" (ok_of_mem_toOption hplanned') (ok_of_mem_toOption hpeak')⟩

end NInfer.Core
