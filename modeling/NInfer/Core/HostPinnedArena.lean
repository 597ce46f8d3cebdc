import NInfer.Foundation.Alignment
import NInfer.Foundation.Coverage
import NInfer.Foundation.Fallible
import NInfer.Foundation.Throwing

/-!
# The pinned host arena

`HostPinnedArena` (`core/arena.h`, `core/arena.cu`) hands out blocks of one registered host region.
It keeps the unused spans in a vector ordered by offset and the blocks handed out in a map keyed by
their address.  `try_alloc` is first fit: it cuts a span into an alignment gap, the block and a
tail, and gives the gap and the tail back through `insert_free`, which joins a span to the
neighbours it touches.  `free` gives a whole block back the same way.

A vector grows when a span is inserted beyond its capacity, and growing can fail.  `free` must not
fail, so `try_alloc` reserves room for the spans of every later release before it publishes the
block.  `freeCapacity` is the capacity of that vector, and `insertFreeSpan` raises it when it has
to, so that never having to is a statement about it.

The model has the region's base address and the success of each metadata allocation as inputs; the
registration of the region with the device and the release of the mapping are left out.
-/

namespace NInfer.Core

/-- What the arenas and the layout builders throw. -/
inductive Exception where
  | runtimeError (what : String)
  | invalidArgument (what : String)
  | overflowError (what : String)
  | logicError (what : String)
  | badAlloc
  deriving DecidableEq

/-- `std::numeric_limits<std::size_t>::max()`, and of `std::uintptr_t`. -/
def sizeMax : ℕ := 2 ^ 64 - 1

/-- `checked_add_uintptr`. -/
def checkedAddUintptr (a b : ℕ) : Except Exception ℕ := do
  refuseIf (b > sizeMax - a) (.overflowError "arena address arithmetic overflow")
  return a + b

/-- `align_up_addr`. -/
def alignUpAddr (addr align : ℕ) : Except Exception ℕ := do
  let _ ← checkedAddUintptr addr (align - 1)
  return alignUp addr align

/-- `FreeSpan` and `LiveBlock`. -/
structure Span where
  offset : ℕ
  size : ℕ
  deriving DecidableEq

/-- The offset just past a span. -/
def Span.stop (s : Span) : ℕ := s.offset + s.size

/-- The addresses a span stands for, in the arena's one region. -/
def Span.extent (s : Span) : Extent Unit := ⟨(), s.offset, s.size⟩

structure HostPinnedArena where
  base : ℕ
  cap : ℕ
  used : ℕ := 0
  free : List Span
  /-- `free_.capacity()`. -/
  freeCapacity : ℕ
  /-- `live_`, keyed by address. -/
  live : List (ℕ × Span) := []

/-- A host region of `capacity` bytes, as the operating system maps it. -/
structure Mapping (capacity : ℕ) where
  base : ℕ
  nonnull : base ≠ 0
  fits : base + capacity ≤ sizeMax + 1

/-! ## The free list -/

/-- A span in front of the spans behind it, joined to the first of them if the two touch. -/
def joinNext (span : Span) : List Span → List Span
  | [] => [span]
  | next :: rest =>
    if span.offset + span.size = next.offset then ⟨span.offset, span.size + next.size⟩ :: rest
    else span :: next :: rest

/-- `insert_free`. -/
def insertFree (free : List Span) (offset size : ℕ) : List Span :=
  if size = 0 then free
  else
    let before := free.takeWhile (·.offset < offset)
    let after := free.dropWhile (·.offset < offset)
    match before.getLast? with
    | none => joinNext ⟨offset, size⟩ after
    | some prev =>
      if prev.offset + prev.size = offset then
        before.dropLast ++ joinNext ⟨prev.offset, prev.size + size⟩ after
      else before ++ joinNext ⟨offset, size⟩ after

/-- Where in `span` an aligned block of `bytes` bytes would start, counted from the span's own
start, if it holds one. -/
def lead (base bytes align : ℕ) (span : Span) : Except Exception (Option ℕ) := do
  let spanAddr ← checkedAddUintptr base span.offset
  let alignedAddr ← alignUpAddr spanAddr align
  let lead := alignedAddr - spanAddr
  return if lead > sizeMax then none
    else if lead > span.size ∨ bytes > span.size - lead then none
    else some lead

/-- A span chosen by `try_alloc`: its alignment gap, and the free list without it. -/
structure Fit where
  span : Span
  lead : ℕ
  rest : List Span

/-- The search of `try_alloc`. -/
def firstFit (base bytes align : ℕ) : List Span → Except Exception (Option Fit)
  | [] => return none
  | span :: spans => do
    match ← lead base bytes align span with
    | some gap => return some ⟨span, gap, spans⟩
    | none =>
      let found ← firstFit base bytes align spans
      return found.map fun fit => { fit with rest := span :: fit.rest }

namespace HostPinnedArena

/-- The constructor, once the region is mapped. -/
def new {capacity : ℕ} (mapping : Mapping capacity) : Except Exception HostPinnedArena := do
  refuseIf (capacity = 0) (.invalidArgument "HostPinnedArena capacity must be nonzero")
  return { base := mapping.base, cap := capacity, free := [⟨0, capacity⟩], freeCapacity := 1 }

/-- `insert_free` on the arena: the vector grows if the span list no longer fits. -/
def insertFreeSpan (a : HostPinnedArena) (offset size : ℕ) : HostPinnedArena :=
  let free := insertFree a.free offset size
  { a with free, freeCapacity := max a.freeCapacity free.length }

/-- Which metadata allocation of a `try_alloc` the host refuses, if the call makes it. -/
inductive Heap where
  | serves
  | refusesSpans
  | refusesBlock
  deriving DecidableEq

/-- `free_.reserve(std::max(spans, free_.capacity() * 2))`, when the capacity does not suffice. -/
def reserveSpans (heap : Heap) : Throwing HostPinnedArena Exception Unit := do
  let a ← get
  let spans := a.live.length + 2
  if a.freeCapacity < spans then
    Throwing.throwIf (heap = .refusesSpans) .badAlloc
    modify fun a => { a with freeCapacity := max spans (a.freeCapacity * 2) }

/-- The mutation of `try_alloc`: the block enters the live map, its span leaves the free list, and
the tail and the gap go back. -/
def publish (a : HostPinnedArena) (fit : Fit) (bytes : ℕ) : HostPinnedArena :=
  let allocOffset := fit.span.offset + fit.lead
  let tail := fit.span.size - fit.lead - bytes
  let a := { a with
    live := (a.base + allocOffset, ⟨allocOffset, bytes⟩) :: a.live
    free := fit.rest }
  let a := if tail ≠ 0 then a.insertFreeSpan (allocOffset + bytes) tail else a
  let a := if fit.lead ≠ 0 then a.insertFreeSpan fit.span.offset fit.lead else a
  { a with used := a.used + bytes }

/-- The part of `try_alloc` that takes a block out of the span it found. -/
def takeBlock (fit : Fit) (bytes : ℕ) (heap : Heap) :
    Throwing HostPinnedArena Exception (Option ℕ) := do
  reserveSpans heap
  Throwing.throwIf (heap = .refusesBlock) .badAlloc
  let a ← get
  let ptr := a.base + (fit.span.offset + fit.lead)
  Throwing.throwIf (ptr ∈ a.live.map (·.1))
    (.logicError "HostPinnedArena allocation overlaps a live block")
  modify fun a => a.publish fit bytes
  return some ptr

/-- `try_alloc`. -/
def tryAlloc (bytes align : ℕ) (heap : Heap) :
    Throwing HostPinnedArena Exception (Option ℕ) := do
  let a ← get
  Throwing.throwIf (a.base = 0) (.runtimeError "HostPinnedArena has no backing allocation")
  Throwing.throwIf (¬IsPowerOfTwo align)
    (.invalidArgument "arena alignment must be a nonzero power of two")
  Throwing.throwIf (bytes = 0) (.invalidArgument "arena allocation must be nonzero")
  if bytes > a.cap then return none
  else
    match firstFit a.base bytes align a.free with
    | .error e => throw e
    | .ok none => return none
    | .ok (some fit) => takeBlock fit bytes heap

/-- `free`. -/
def release (block : ℕ) : Throwing HostPinnedArena Exception Unit := do
  Throwing.throwIf (block = 0) (.invalidArgument "HostPinnedArena free of null")
  let a ← get
  match a.live.lookup block with
  | none => throw (.logicError "HostPinnedArena free of unknown block")
  | some live =>
    modify fun a =>
      let a := { a with live := a.live.eraseP (·.1 = block), used := a.used - live.size }
      a.insertFreeSpan live.offset live.size

/-- A call on the arena. -/
inductive Call where
  | tryAlloc (bytes align : ℕ) (heap : Heap)
  | free (block : ℕ)

/-- The arena after a call, thrown or not. -/
def call (a : HostPinnedArena) : Call → HostPinnedArena
  | .tryAlloc bytes align heap => (tryAlloc bytes align heap).after a
  | .free block => (release block).after a

def run (a : HostPinnedArena) (calls : List Call) : HostPinnedArena := calls.foldl call a

end HostPinnedArena

/-! ## Joining neighbours -/

/-- The extents of a list of spans. -/
def extents (spans : List Span) : Multiset (Extent Unit) := (spans.map Span.extent : List _)

@[simp] lemma extents_nil : extents [] = 0 := rfl

@[simp] lemma extents_cons (s : Span) (l : List Span) : extents (s :: l) = s.extent ::ₘ extents l :=
  rfl

@[simp] lemma extents_append (l m : List Span) : extents (l ++ m) = extents l + extents m := by
  simp [extents]

lemma extent_mem {s : Span} {l : List Span} (hs : s ∈ l) : s.extent ∈ extents l :=
  List.mem_map_of_mem (f := Span.extent) hs

/-- The spans are nonempty, in order, and no two of them touch. -/
structure Coalesced (spans : List Span) : Prop where
  pos : ∀ s ∈ spans, 0 < s.size
  apart : spans.Pairwise fun s t => s.stop < t.offset

namespace Coalesced

variable {l m : List Span}

lemma append_iff : Coalesced (l ++ m) ↔
    Coalesced l ∧ Coalesced m ∧ ∀ s ∈ l, ∀ t ∈ m, s.stop < t.offset := by
  constructor
  · rintro ⟨hpos, hapart⟩
    obtain ⟨hl, hm, hlm⟩ := List.pairwise_append.mp hapart
    exact ⟨⟨fun s hs => hpos s (List.mem_append_left _ hs), hl⟩,
      ⟨fun s hs => hpos s (List.mem_append_right _ hs), hm⟩, hlm⟩
  · rintro ⟨hl, hm, hlm⟩
    refine ⟨fun s hs => ?_, List.pairwise_append.mpr ⟨hl.apart, hm.apart, hlm⟩⟩
    rcases List.mem_append.mp hs with hs | hs
    · exact hl.pos s hs
    · exact hm.pos s hs

lemma cons_iff {s : Span} : Coalesced (s :: l) ↔
    0 < s.size ∧ Coalesced l ∧ ∀ t ∈ l, s.stop < t.offset := by
  have hone : Coalesced [s] ↔ 0 < s.size :=
    ⟨fun h => h.pos s List.mem_cons_self, fun h => ⟨by simpa using h, List.pairwise_singleton _ _⟩⟩
  rw [← List.singleton_append, append_iff, hone]
  simp

lemma sublist (hm : Coalesced m) (hl : l.Sublist m) : Coalesced l :=
  ⟨fun s hs => hm.pos s (hl.subset hs), hm.apart.sublist hl⟩

/-- Ends identify spans. -/
lemma stops_nodup (hl : Coalesced l) : (l.map Span.stop).Nodup := by
  rw [List.Nodup, List.pairwise_map]
  refine hl.apart.imp fun {s t} hst => ?_
  unfold Span.stop at *
  omega

lemma stop_ne_offset (hl : Coalesced l) {s t : Span} (hs : s ∈ l) (ht : t ∈ l) :
    s.stop ≠ t.offset := by
  have hpairs : l.Pairwise fun s t => s.stop ≠ t.offset ∧ t.stop ≠ s.offset := by
    refine hl.apart.imp fun {s t} hst => ?_
    unfold Span.stop at *
    omega
  have : Std.Symm fun s t : Span => s.stop ≠ t.offset ∧ t.stop ≠ s.offset := ⟨fun _ _ h => h.symm⟩
  refine (List.Pairwise.forall_of_forall (fun u hu => ?_) hpairs hs ht).1
  have := hl.pos u hu
  unfold Span.stop
  omega

/-- The first span at or above an offset is followed by later ones only. -/
lemma le_of_mem_dropWhile (hl : Coalesced l) {offset : ℕ} :
    ∀ s ∈ l.dropWhile (·.offset < offset), offset ≤ s.offset := by
  induction l with
  | nil => simp
  | cons head rest ih =>
    obtain ⟨-, hrest, hapart⟩ := cons_iff.mp hl
    by_cases hhead : head.offset < offset
    · rw [List.dropWhile_cons_of_pos (by simpa using hhead)]
      exact ih hrest
    · rw [List.dropWhile_cons_of_neg (by simpa using hhead)]
      intro s hs
      rcases List.mem_cons.mp hs with rfl | hs
      · omega
      · have := hapart s hs
        unfold Span.stop at this
        omega

end Coalesced

/-- A span in front of later ones: they stay apart, nothing starts earlier, and no address is lost
or gained. -/
lemma joinNext_spec (span : Span) {after : List Span} (hspan : 0 < span.size)
    (hafter : Coalesced after) (hle : ∀ t ∈ after, span.stop ≤ t.offset) :
    Coalesced (joinNext span after) ∧ (∀ t ∈ joinNext span after, span.offset ≤ t.offset) ∧
      ∀ x, coverage (extents (joinNext span after)) () x =
        coverage (span.extent ::ₘ extents after) () x := by
  cases after with
  | nil =>
    exact ⟨⟨by simpa [joinNext] using hspan, List.pairwise_singleton _ _⟩, by simp [joinNext],
      fun x => rfl⟩
  | cons next rest =>
    obtain ⟨hnext, hrest, hapart⟩ := Coalesced.cons_iff.mp hafter
    have hfirst := hle next List.mem_cons_self
    unfold Span.stop at *
    simp only [joinNext]
    split_ifs with htouch
    · refine ⟨Coalesced.cons_iff.mpr ⟨?_, hrest, fun t ht => ?_⟩, fun t ht => ?_, fun x => ?_⟩
      · show 0 < span.size + next.size
        omega
      · have := hapart t ht
        show span.offset + (span.size + next.size) < t.offset
        omega
      · rcases List.mem_cons.mp ht with rfl | ht
        · exact le_rfl
        · have := hapart t ht
          omega
      · have hjoin := coverage_join (extents rest) () span.offset span.size next.size () x
        rw [htouch] at hjoin
        exact hjoin.symm
    · refine ⟨Coalesced.cons_iff.mpr ⟨hspan, hafter, fun t ht => ?_⟩, fun t ht => ?_,
        fun x => rfl⟩
      · unfold Span.stop
        rcases List.mem_cons.mp ht with rfl | ht
        · omega
        · have := hapart t ht
          omega
      · rcases List.mem_cons.mp ht with rfl | ht
        · exact le_rfl
        · have := hle t ht
          omega

/-- `insert_free` joins a span that overlaps no free one to its neighbours. -/
lemma insertFree_spec {free : List Span} (offset size : ℕ) (hfree : Coalesced free)
    (hclear : ∀ x, coverage (Span.extent ⟨offset, size⟩ ::ₘ extents free) () x ≤ 1) :
    Coalesced (insertFree free offset size) ∧
      ∀ x, coverage (extents (insertFree free offset size)) () x =
        coverage (Span.extent ⟨offset, size⟩ ::ₘ extents free) () x := by
  by_cases hsize : size = 0
  · subst hsize
    exact ⟨by rwa [insertFree], fun x => by
      rw [insertFree, if_pos rfl, Span.extent, coverage_cons_empty]⟩
  have happend : free.takeWhile (·.offset < offset) ++ free.dropWhile (·.offset < offset) = free :=
    List.takeWhile_append_dropWhile
  have hbelow : ∀ s ∈ free.takeWhile (·.offset < offset), s.offset < offset := by
    intro s hs
    simpa using List.mem_takeWhile_imp hs
  have habove : ∀ s ∈ free.dropWhile (·.offset < offset), offset ≤ s.offset :=
    hfree.le_of_mem_dropWhile
  rw [insertFree, if_neg hsize]
  generalize free.takeWhile (·.offset < offset) = before at *
  generalize free.dropWhile (·.offset < offset) = after at *
  subst happend
  obtain ⟨hbefore, hafter, hapart⟩ := Coalesced.append_iff.mp hfree
  -- What lies below the offset ends there, and what lies above starts behind the new span.
  have hdisjoint : ∀ s ∈ before ++ after, offset + size ≤ s.offset ∨ s.stop ≤ offset := fun s hs =>
    stop_le_start_or_of_coverage (e := Span.extent ⟨offset, size⟩) (fun _ x => hclear x)
      (extent_mem hs) rfl (Nat.pos_of_ne_zero hsize) (hfree.pos s hs)
  have hends : ∀ s ∈ before, s.stop ≤ offset := by
    intro s hs
    have := hbelow s hs
    rcases hdisjoint s (List.mem_append_left _ hs) with h | h
    · omega
    · exact h
  have hstarts : ∀ s ∈ after, offset + size ≤ s.offset := by
    intro s hs
    have hle := habove s hs
    have hpos := hafter.pos s hs
    rcases hdisjoint s (List.mem_append_right _ hs) with h | h
    · exact h
    · unfold Span.stop at h
      omega
  rcases List.eq_nil_or_concat' before with rfl | ⟨front, prev, rfl⟩
  · obtain ⟨hjoin, -, hcov⟩ := joinNext_spec ⟨offset, size⟩ (Nat.pos_of_ne_zero hsize) hafter
      hstarts
    exact ⟨hjoin, hcov⟩
  · obtain ⟨hfront, -, hprev⟩ := Coalesced.append_iff.mp hbefore
    have hprevEnds := hends prev (by simp)
    have hprevPos := hbefore.pos prev (by simp)
    simp only [List.getLast?_concat, List.dropLast_concat]
    split_ifs with htouch
    · obtain ⟨hjoin, hfrom, hcov⟩ := joinNext_spec ⟨prev.offset, prev.size + size⟩
        (show 0 < prev.size + size by omega) hafter
        (fun t ht => by
          have := hstarts t ht
          show prev.offset + (prev.size + size) ≤ t.offset
          omega)
      refine ⟨Coalesced.append_iff.mpr ⟨hfront, hjoin, fun s hs t ht => ?_⟩, fun x => ?_⟩
      · exact (hprev s hs prev (by simp)).trans_le (hfrom t ht)
      · have hcut := coverage_join (extents after) () prev.offset prev.size size () x
        rw [htouch] at hcut
        rw [extents_append, coverage_add, hcov x]
        simp only [extents_append, extents_cons, extents_nil, coverage_add, coverage_cons,
          coverage_zero, Span.extent] at hcut ⊢
        omega
    · obtain ⟨hjoin, hfrom, hcov⟩ := joinNext_spec ⟨offset, size⟩ (Nat.pos_of_ne_zero hsize)
        hafter hstarts
      refine ⟨Coalesced.append_iff.mpr ⟨hbefore, hjoin, fun s hs t ht => ?_⟩, fun x => ?_⟩
      · have hlast : s.stop < offset := by
          rcases List.mem_append.mp hs with hfr | hpr
          · have := hprev s hfr prev (by simp)
            unfold Span.stop at *
            omega
          · rw [List.mem_singleton.mp hpr]
            exact lt_of_le_of_ne hprevEnds htouch
        exact hlast.trans_le (hfrom t ht)
      · simp only [extents_append, coverage_add, coverage_cons, hcov x]
        omega

/-! ## First fit -/

/-- Some aligned block of `bytes` bytes lies inside the span. -/
def Span.Holds (base bytes align : ℕ) (span : Span) : Prop :=
  ∃ offset, span.offset ≤ offset ∧ offset + bytes ≤ span.stop ∧ align ∣ base + offset

/-- The gap in front of the first aligned address of a span. -/
def gap (base align : ℕ) (span : Span) : ℕ :=
  alignUp (base + span.offset) align - (base + span.offset)

section Search

variable {base bytes align : ℕ} {span : Span}

omit span in
lemma checkedAddUintptr_eq {a b : ℕ} (ha : a ≤ sizeMax) : checkedAddUintptr a b =
    if a + b ≤ sizeMax then .ok (a + b)
    else .error (.overflowError "arena address arithmetic overflow") := by
  unfold checkedAddUintptr refuseIf
  by_cases hfits : a + b ≤ sizeMax
  · rw [if_pos hfits, if_neg (by omega)]
    rfl
  · rw [if_neg hfits, if_pos (by omega)]
    rfl

/-- What the search computes for a span whose address does not overflow. -/
lemma lead_eq (hbase : base + span.offset ≤ sizeMax) (halign : IsPowerOfTwo align) :
    lead base bytes align span =
      if base + span.offset + (align - 1) ≤ sizeMax then
        .ok (if gap base align span + bytes ≤ span.size then some (gap base align span) else none)
      else .error (.overflowError "arena address arithmetic overflow") := by
  have hgap : gap base align span < align := by
    have := alignUp_lt_add halign (base + span.offset)
    have := le_alignUp halign (base + span.offset)
    unfold gap
    omega
  unfold lead alignUpAddr
  rw [checkedAddUintptr_eq (by omega), if_pos hbase]
  show (checkedAddUintptr (base + span.offset) (align - 1) >>= _) >>= _ = _
  rw [checkedAddUintptr_eq hbase]
  by_cases hover : base + span.offset + (align - 1) ≤ sizeMax
  · rw [if_pos hover, if_pos hover]
    show Except.ok (if gap base align span > sizeMax then none else
      if gap base align span > span.size ∨ bytes > span.size - gap base align span then none
      else some (gap base align span)) = _
    rw [if_neg (by omega)]
    by_cases hfits : gap base align span + bytes ≤ span.size
    · rw [if_pos hfits, if_neg (by omega)]
    · rw [if_neg hfits, if_pos (by omega)]
  · rw [if_neg hover, if_neg hover]
    rfl

/-- A span holds an aligned block exactly when it holds the first one. -/
lemma holds_iff (halign : IsPowerOfTwo align) :
    span.Holds base bytes align ↔ gap base align span + bytes ≤ span.size := by
  have hle := le_alignUp halign (base + span.offset)
  unfold Span.Holds gap Span.stop
  constructor
  · rintro ⟨offset, hfrom, hto, hdvd⟩
    have := (alignUp_le_iff halign hdvd).mpr (Nat.add_le_add_left hfrom base)
    omega
  · intro hfits
    refine ⟨alignUp (base + span.offset) align - base, by omega, by omega, ?_⟩
    rw [show base + (alignUp (base + span.offset) align - base) =
      alignUp (base + span.offset) align by omega]
    exact dvd_alignUp halign _

omit span in
/-- The powers of two inside the address space divide it. -/
lemma dvd_word (halign : IsPowerOfTwo align) (hle : align ≤ sizeMax + 1) : align ∣ sizeMax + 1 := by
  obtain ⟨k, rfl⟩ := isPowerOfTwo_iff.mp halign
  refine Nat.pow_dvd_pow (n := 64) 2 ?_
  by_contra hk
  have hbig : 2 ^ 65 ≤ 2 ^ k := Nat.pow_le_pow_right (by omega) (by omega)
  unfold sizeMax at hle
  omega

/-- If rounding up overflows, the next aligned address lies outside the address space. -/
lemma not_holds_of_overflow (halign : IsPowerOfTwo align) (hbase : base ≠ 0) (hbytes : bytes ≠ 0)
    (hstop : base + span.stop ≤ sizeMax + 1) (hover : ¬base + span.offset + (align - 1) ≤ sizeMax) :
    ¬span.Holds base bytes align := by
  rintro ⟨offset, hfrom, hto, hdvd⟩
  have hle : align ≤ base + offset := Nat.le_of_dvd (by omega) hdvd
  have hword : align ∣ sizeMax + 1 := dvd_word halign (by omega)
  have hpast := le_alignUp_of_lt halign (x := base + span.offset) hword (by omega)
  have hfirst := (alignUp_le_iff halign hdvd).mpr (Nat.add_le_add_left hfrom base)
  omega

/-- What the search of `try_alloc` returns: a span that holds the block, or the news that no span
does. -/
def Searched (base bytes align : ℕ) (free : List Span) : Except Exception (Option Fit) → Prop
  | .ok (some fit) => (∃ before after, free = before ++ fit.span :: after ∧
      fit.rest = before ++ after) ∧ align ∣ base + (fit.span.offset + fit.lead) ∧
      fit.lead + bytes ≤ fit.span.size
  | _ => ∀ span ∈ free, ¬span.Holds base bytes align

lemma firstFit_spec (halign : IsPowerOfTwo align) (hbase : base ≠ 0) (hbytes : bytes ≠ 0)
    {free : List Span} (hfree : Coalesced free)
    (hstop : ∀ span ∈ free, base + span.stop ≤ sizeMax + 1) :
    Searched base bytes align free (firstFit base bytes align free) := by
  induction free with
  | nil => simp [firstFit, Searched, pure, Except.pure]
  | cons span spans ih =>
    obtain ⟨hpos, hspans, hapart⟩ := Coalesced.cons_iff.mp hfree
    have hstop' := fun t ht => hstop t (List.mem_cons_of_mem _ ht)
    have hspan := hstop span List.mem_cons_self
    have haddr : base + span.offset ≤ sizeMax := by
      unfold Span.stop at hspan
      omega
    rw [firstFit, lead_eq haddr halign]
    by_cases hover : base + span.offset + (align - 1) ≤ sizeMax
    · rw [if_pos hover]
      by_cases hfits : gap base align span + bytes ≤ span.size
      · rw [if_pos hfits]
        refine ⟨⟨[], spans, rfl, rfl⟩, ?_, hfits⟩
        have hle := le_alignUp halign (base + span.offset)
        have hdvd := dvd_alignUp halign (base + span.offset)
        unfold gap
        rwa [show base + (span.offset + (alignUp (base + span.offset) align -
          (base + span.offset))) = alignUp (base + span.offset) align by omega]
      · rw [if_neg hfits]
        have hnot : ¬span.Holds base bytes align := fun h => hfits ((holds_iff halign).mp h)
        have hrest := ih hspans hstop'
        have hnone : (∀ t ∈ spans, ¬t.Holds base bytes align) →
            ∀ t ∈ span :: spans, ¬t.Holds base bytes align := fun h => by simpa using ⟨hnot, h⟩
        show Searched base bytes align (span :: spans) (firstFit base bytes align spans >>= _)
        rcases hsearch : firstFit base bytes align spans with e | (_ | fit)
        · rw [hsearch] at hrest
          exact hnone hrest
        · rw [hsearch] at hrest
          exact hnone hrest
        · rw [hsearch] at hrest
          obtain ⟨⟨before, after, hsplit, hrest⟩, hdvd, hle⟩ := hrest
          exact ⟨⟨span :: before, after, by rw [hsplit]; rfl, by simp [hrest]⟩, hdvd, hle⟩
    · -- Every later span starts at a higher address, so it overflows as well.
      rw [if_neg hover]
      intro t ht
      refine not_holds_of_overflow halign hbase hbytes (hstop t ht) ?_
      rcases List.mem_cons.mp ht with rfl | ht
      · exact hover
      · have := hapart t ht
        unfold Span.stop at this
        omega

end Search

end NInfer.Core
