import NInfer.Core.HostPinnedArena
import NInfer.Foundation.Focus
import NInfer.Sequence.Lane

/-!
# The RAM tier

`KVRamCache` (`kv_ram_cache.cpp`) keeps captured sequences in blocks of a pinned host arena.  Each
entry has a record; the live ones are listed in `fifo_` in the order of their capture.  An entry
leaves the index by being retired: a consumed, discarded or evicted entry is at once out of the
list, but its block stays until nobody reads it, that is until its copy fence and its block fence
have completed and its last I/O pin has dropped.

The calls come from two threads.  The executor captures, claims and retires entries; the disk worker
pins an entry while it writes it out.  Every call takes the cache's mutex, and those that wait for
the device give it up meanwhile: a wait pins the records whose fences it waits for, and a capture
fills its block without the mutex and takes it again to publish the record or, if something threw,
to take it back.  `System` is a cache with the calls under way, and an `Event` is one stretch with
the mutex, the completion of a fence, or a new order of the hash map that holds the records.

What the entry's block holds is left out: whether an entry serves a prompt at a given length is a
parameter of `planMatch`.  So are statistics, timings and the disk tickets.
-/

namespace NInfer.Ram

open NInfer.Core (Exception HostPinnedArena)
open Prefill (PrefixReusePath)
open Prefix (PrefixHash128)
open Sequence (ContextCheckpointKind reusePathForContextCheckpointKind)
open Throwing

/-! ## Records -/

/-- A CUDA event of a record: not created, recorded and not reached yet, or reached. -/
inductive Fence where
  | absent
  | pending
  | completed
  deriving DecidableEq

/-- `RamLadderIndex`. -/
structure RamLadderIndex where
  frontier : ℕ
  hash : PrefixHash128
  kind : ContextCheckpointKind
  deriving DecidableEq

/-- The part of a record that the index looks at. -/
structure EntryIndex where
  hashF : PrefixHash128
  hashC : PrefixHash128
  hashCValid : Bool
  executionFrontier : ℕ
  checkpointFrontier : ℕ
  checkpointPath : PrefixReusePath
  ladders : List RamLadderIndex
  deriving DecidableEq

structure Record extends EntryIndex where
  id : ℕ
  /-- The address of the block. -/
  block : ℕ
  bytes : ℕ
  /-- Claimed by a restore. -/
  pinned : Bool := false
  /-- Out of the index. -/
  retired : Bool := false
  ioPins : ℕ := 0
  copiesDone : Fence := .absent
  blockDone : Fence := .absent
  deriving DecidableEq

namespace Record

/-- `++record.io_pins`, on 32 bits. -/
def addPin (r : Record) : Record := { r with ioPins := (r.ioPins + 1) % 2 ^ 32 }

def dropPin (r : Record) : Record := { r with ioPins := r.ioPins - 1 }

/-- `retired_free_locked`. -/
def RetiredFree (r : Record) : Prop :=
  r.retired = true ∧ r.ioPins = 0 ∧ r.copiesDone ≠ .pending ∧ r.blockDone ≠ .pending

instance (r : Record) : Decidable r.RetiredFree := inferInstanceAs (Decidable (_ ∧ _))

end Record

/-! ## The cache -/

structure Cache where
  arena : HostPinnedArena
  /-- `records_`, in the order in which the hash map is walked. -/
  records : List Record := []
  fifo : List ℕ := []
  pendingSaveIds : List ℕ := []
  pendingLoadIds : List ℕ := []
  nextId : ℕ := 1
  /-- History: the records whose blocks went back to the arena, as they were then. -/
  returned : List Record := []

/-- The base alignment of an entry. -/
def kDeviceAlign : ℕ := 256

namespace Cache

def find (c : Cache) (id : ℕ) : Option Record := c.records.find? (·.id = id)

def update (c : Cache) (id : ℕ) (f : Record → Record) : Cache :=
  { c with records := c.records.map fun r => if r.id = id then f r else r }

/-- `require`. -/
def require (c : Cache) (id : ℕ) : Except Exception Record :=
  match c.find id with
  | none => .error (.logicError "RAM cache entry id is unknown")
  | some record =>
    if record.retired then .error (.logicError "RAM cache entry id is unknown") else .ok record

def dropPendingSave (c : Cache) (id : ℕ) : Cache :=
  { c with pendingSaveIds := c.pendingSaveIds.filter (· ≠ id) }

/-- `drop_pending_id`. -/
def dropPendingId (c : Cache) (id : ℕ) : Cache :=
  { c.dropPendingSave id with pendingLoadIds := c.pendingLoadIds.filter (· ≠ id) }

/-- The first half of `retire_locked`: the entry leaves the index. -/
def unlist (c : Cache) (id : ℕ) : Cache :=
  { c.update id (fun r => { r with retired := true, pinned := false }) with
    fifo := c.fifo.filter (· ≠ id) }.dropPendingId id

end Cache

/-- A program over the cache. -/
abbrev Call (α : Type) := Throwing Cache Exception α

/-- `require`, in a call. -/
def require (id : ℕ) : Call Record := do
  let c ← get
  ofExcept (fun e => e) (c.require id)

def onArena {α : Type} (m : Throwing HostPinnedArena Exception α) : Call α :=
  zoom Cache.arena (fun c arena => { c with arena }) m

/-- `if (record.block != nullptr) { arena_.free(record.block); }`. -/
def returnBlock (record : Record) : Call Unit :=
  if record.block ≠ 0 then onArena (HostPinnedArena.release record.block) else pure ()

/-- `free_block_locked`, and the erasure of the record that follows it everywhere. -/
def freeBlock (record : Record) : Call Unit := do
  returnBlock record
  modify fun c => { c with
    records := c.records.filter (·.id ≠ record.id)
    returned := record :: c.returned }

/-- `if (retired_free_locked(record)) { free_block_locked(record); records_.erase(it); }`. -/
def freeIfRetired (record : Record) : Call Unit :=
  if record.RetiredFree then freeBlock record else pure ()

/-- `retire_locked`. -/
def retireLocked (id : ℕ) : Call Unit := do
  let c ← get
  match c.find id with
  | none => pure ()
  | some record =>
    if record.retired then pure ()
    else do
      modify fun c => c.unlist id
      freeIfRetired { record with retired := true, pinned := false }

/-- `reap_retired_locked`. -/
def reapRetiredLocked : Call Unit := do
  let c ← get
  forEach c.records freeIfRetired

/-! ## Claims and retirement -/

def claim (id : ℕ) : Call Unit := do
  let record ← require id
  throwIf (record.pinned = true) (.logicError "RAM cache entry is already claimed")
  modify fun c => c.update id fun r => { r with pinned := true }

def release (id : ℕ) : Call Unit := do
  let record ← require id
  throwIf (record.pinned = false) (.logicError "RAM cache entry is not claimed")
  modify fun c => c.update id fun r => { r with pinned := false }

def consume (id : ℕ) : Call Unit := do
  reapRetiredLocked
  let record ← require id
  throwIf (record.pinned = false) (.logicError "RAM cache consume requires a claimed entry")
  retireLocked id

def releaseRestored (id : ℕ) : Call Unit := do
  let record ← require id
  throwIf (record.pinned = false)
    (.logicError "RAM restore completion requires a claimed entry")
  modify fun c => c.update id fun r => { r with pinned := false }

def discard (id : ℕ) : Call Unit := do
  reapRetiredLocked
  let c ← get
  match c.find id with
  | none => pure ()
  | some record =>
    if record.retired then pure ()
    else do
      throwIf (record.pinned = true) (.logicError "RAM cache cannot discard a claimed entry")
      retireLocked id

def evictOneUnpinned (id : ℕ) : Call Bool := do
  reapRetiredLocked
  let c ← get
  match c.find id with
  | none => return false
  | some record =>
    if record.retired then return false
    else if record.pinned = true ∨ record.ioPins ≠ 0 then return false
    else do
      retireLocked id
      return true

/-! ## I/O pins -/

def pinForIo (id : ℕ) : Call Unit := do
  let _ ← require id
  modify fun c => c.update id Record.addPin

def unpinForIo (id : ℕ) : Call Unit := do
  let c ← get
  match c.find id with
  | none => throw (.logicError "RAM cache I/O pin is not held")
  | some record => do
    throwIf (record.ioPins = 0) (.logicError "RAM cache I/O pin is not held")
    modify fun c => c.update id Record.dropPin
    freeIfRetired record.dropPin

/-- The pins of a wait. -/
def Cache.pinAll (c : Cache) (ids : List ℕ) : Cache := ids.foldl (·.update · Record.addPin) c

/-- The retired records whose fences `wait_retired_copies` waits for. -/
def Cache.fencedRetired (c : Cache) : List ℕ :=
  (c.records.filter fun r => r.retired ∧ r.ioPins = 0 ∧
    (r.copiesDone ≠ .absent ∨ r.blockDone ≠ .absent)).map (·.id)

/-- `wait_retired_copies`, up to where it gives up the mutex; the ids it has pinned. -/
def waitRetiredCopies : Call (List ℕ) := do
  reapRetiredLocked
  let c ← get
  let ids := c.fencedRetired
  modify fun c => c.pinAll ids
  return ids

/-- The entry has a copy fence. -/
def Cache.HasCopies (c : Cache) (id : ℕ) : Prop := ∃ r ∈ c.find id, r.copiesDone ≠ .absent

instance (c : Cache) (id : ℕ) : Decidable (c.HasCopies id) :=
  inferInstanceAs (Decidable (∃ r ∈ c.find id, _))

/-- `wait_entry_copies`, likewise. -/
def waitEntryCopies (id : ℕ) : Call (List ℕ) := do
  let c ← get
  let ids := if c.HasCopies id then [id] else []
  modify fun c => c.pinAll ids
  return ids

/-- `pin_pending_copy_events`, as `wait_pending_copies` calls it. -/
def waitPendingCopies : Call (List ℕ) := do
  let c ← get
  let ids := (c.pendingSaveIds ++ c.pendingLoadIds).filter fun id => c.HasCopies id
  modify fun c => c.pinAll ids
  return ids

/-- `unpin_copy_events`. -/
def unpinCopyEvents (ids : List ℕ) : Call Unit := do
  modify fun c => ids.foldl
    (·.update · fun r => if r.ioPins = 0 then r else r.dropPin) c
  reapRetiredLocked

/-! ## Copies -/

/-- `copies_ready_locked`. -/
def Cache.CopiesReady (c : Cache) (id : ℕ) : Prop := ∀ r ∈ c.find id, r.copiesDone ≠ .pending

instance (c : Cache) (id : ℕ) : Decidable (c.CopiesReady id) :=
  inferInstanceAs (Decidable (∀ r ∈ c.find id, _))

/-- `harvest_copy_seconds`. -/
def harvestCopySeconds : Call Unit := do
  reapRetiredLocked
  modify fun c => { c with
    pendingSaveIds := c.pendingSaveIds.filter fun id => ¬c.CopiesReady id
    pendingLoadIds := c.pendingLoadIds.filter fun id => ¬c.CopiesReady id }

/-- `record_copies`. -/
def recordCopies (r : Record) : Record := { r with copiesDone := .pending }

/-- The first stretch of `unpack_device`. -/
def unpackDevice (id : ℕ) : Call Unit := do
  let _ ← require id
  modify fun c => c.dropPendingSave id

/-- The last stretch of `unpack_device`, behind the reads it has issued. -/
def unpackDone (id : ℕ) : Call Unit := do
  let _ ← require id
  modify fun c => { c.update id recordCopies with pendingLoadIds := c.pendingLoadIds ++ [id] }

/-- The handler of `unpack_device`, which fences the reads of an entry live or retired. -/
def unpackThrown (id : ℕ) : Call Unit := modify fun c => c.update id recordCopies

/-- `copy_from_entry`. -/
def copyFromEntry (id : ℕ) : Call Unit := do
  let _ ← require id
  modify fun c => c.update id fun r => { r with blockDone := .pending }

/-! ## Captures -/

inductive RamCaptureStatus where
  | captured
  | needsEviction
  | dropped
  deriving DecidableEq

/-- The claimed blocks, by offset. -/
def Cache.claimedSpans (c : Cache) : List (ℕ × ℕ) :=
  ((c.records.filter (·.pinned)).map fun r => (r.block - c.arena.base, r.bytes)).mergeSort
    fun a b => a.1 < b.1 ∨ a.1 = b.1 ∧ a.2 ≤ b.2

/-- The largest interval that evicting everything but the claimed blocks could leave. -/
def Cache.largestEvictable (c : Cache) : ℕ :=
  let walk : ℕ × ℕ := c.claimedSpans.foldl
    (fun walk span => (span.1 + span.2, max walk.2 (span.1 - walk.1))) (0, 0)
  max walk.2 (c.arena.cap - walk.1)

/-- The first stretch of `capture` with the mutex, and the one that asks whether an eviction could
help. -/
def allocateBlock (bytes : ℕ) (heap : HostPinnedArena.Heap) : Call (RamCaptureStatus ⊕ ℕ) := do
  reapRetiredLocked
  let block ← onArena (HostPinnedArena.tryAlloc bytes kDeviceAlign heap)
  match block with
  | some ptr => return .inr ptr
  | none => do
    let c ← get
    return .inl (if bytes > c.largestEvictable then .dropped else .needsEviction)

/-- `capture`, up to where it has a block or gives up.  The number of bytes comes from the layout of
the entry. -/
def captureAllocate (bytes : ℕ) (heap : HostPinnedArena.Heap) : Call (RamCaptureStatus ⊕ ℕ) := do
  let c ← get
  if bytes > c.arena.cap then return .inl .dropped
  else tryCatch (allocateBlock bytes heap) fun e =>
    if e = .badAlloc then return .inl .dropped else throw e

/-- Where a capture stands. -/
inductive Capture where
  | idle
  /-- It fills its block. -/
  | filling (block bytes : ℕ)
  /-- It has thrown before it published a record. -/
  | unwinding (block bytes : ℕ)
  /-- It has thrown after it published the record, which `fifo_` lists or not yet. -/
  | withdrawing (id : ℕ) (listed : Bool)
  deriving DecidableEq

/-- How the publishing of a record ends. -/
inductive Publication where
  /-- The record or its insertion cannot be allocated. -/
  | notInserted
  /-- `fifo_` cannot grow. -/
  | notListed
  /-- The copy fence cannot be created. -/
  | notFenced
  /-- The list of pending saves cannot grow. -/
  | notPending
  | captured
  deriving DecidableEq

/-- The last stretch of `capture`: the record is published. -/
def Cache.publish (c : Cache) (index : EntryIndex) (block bytes : ℕ) (outcome : Publication) :
    Cache × Capture :=
  if c.nextId = 0 then (c, .unwinding block bytes)
  else
    let record : Record := { index with id := c.nextId, block, bytes }
    let c := { c with nextId := (c.nextId + 1) % 2 ^ 64 }
    match outcome with
    | .notInserted => (c, .unwinding block bytes)
    | .notListed => ({ c with records := record :: c.records }, .withdrawing record.id false)
    | .notFenced =>
      ({ c with records := record :: c.records, fifo := c.fifo ++ [record.id] },
        .withdrawing record.id true)
    | .notPending =>
      ({ c with records := recordCopies record :: c.records, fifo := c.fifo ++ [record.id] },
        .withdrawing record.id true)
    | .captured =>
      ({ c with
          records := recordCopies record :: c.records
          fifo := c.fifo ++ [record.id]
          pendingSaveIds := c.pendingSaveIds ++ [record.id] }, .idle)

/-- The handler of `capture`, once the streams are drained. -/
def rollBack : Capture → Call Unit
  | .unwinding block _ => onArena (HostPinnedArena.release block)
  | .withdrawing id _ => retireLocked id
  | _ => pure ()

/-! ## Matching -/

/-- `RamMatch`. -/
structure RamMatch where
  entryId : ℕ
  reuse : PrefixReusePath := .fullReset
  reuseBase : ℕ := 0

section Matching

variable (usable : Record → PrefixReusePath → ℕ → Bool) (hashChain : List PrefixHash128)

/-- `consider`.  `usable` stands for `reuse_candidate_ready` and `prefix_matches` on what the block
of the record holds. -/
def consider (r : Record) (candidate : RamMatch) (hit : PrefixReusePath × ℕ) : RamMatch :=
  if hit.2 = 0 ∨ usable r hit.1 hit.2 = false then candidate
  else if hit.2 > candidate.reuseBase then { candidate with reuse := hit.1, reuseBase := hit.2 }
  else candidate

end Matching

/-! ## Systems -/

structure System where
  cache : Cache
  capture : Capture := .idle
  /-- The pins of the waits under way. -/
  waits : List (List ℕ) := []

inductive Event where
  | captureAllocate (bytes : ℕ) (heap : HostPinnedArena.Heap)
  | captureThrows
  | publish (index : EntryIndex) (outcome : Publication)
  | rollBack
  | claim (id : ℕ)
  | release (id : ℕ)
  | consume (id : ℕ)
  | releaseRestored (id : ℕ)
  | discard (id : ℕ)
  | evictOneUnpinned (id : ℕ)
  | pinForIo (id : ℕ)
  | unpinForIo (id : ℕ)
  | reap
  | waitRetiredCopies
  | waitEntryCopies (id : ℕ)
  | waitPendingCopies
  | waitEnds (wait : ℕ)
  | harvestCopySeconds
  | unpackDevice (id : ℕ)
  | unpackDone (id : ℕ)
  | unpackThrown (id : ℕ)
  | copyFromEntry (id : ℕ)
  | copiesComplete (id : ℕ)
  | blockComplete (id : ℕ)
  | rehash (records : List Record)

/-- A fence that the device reaches. -/
def Fence.reach : Fence → Fence
  | .pending => .completed
  | fence => fence

namespace System

/-- A call that ends with the mutex, returned or thrown. -/
def call {α : Type} (y : System) (m : Call α) : System := { y with cache := m.after y.cache }

/-- A call that goes on to wait for the records it has pinned. -/
def wait (y : System) (m : Call (List ℕ)) : System :=
  match m.exec y.cache with
  | (.ok ids, c) => { y with cache := c, waits := y.waits ++ [ids] }
  | (.error _, c) => { y with cache := c }

/-- The executor starts a capture. -/
def allocate (y : System) (bytes : ℕ) (heap : HostPinnedArena.Heap) : System :=
  match (Ram.captureAllocate bytes heap).exec y.cache with
  | (.ok (.inr ptr), c) => { y with cache := c, capture := .filling ptr bytes }
  | (_, c) => { y with cache := c }

/-- What an event does, where it is possible.  The executor makes one call at a time, so that it
starts no capture and claims nothing before the capture under way is over. -/
def step (y : System) : Event → Option System
  | .captureAllocate bytes heap =>
    if y.capture = .idle then some (y.allocate bytes heap) else none
  | .captureThrows =>
    match y.capture with
    | .filling block bytes => some { y with capture := .unwinding block bytes }
    | _ => none
  | .publish index outcome =>
    match y.capture with
    | .filling block bytes =>
      let (cache, capture) := y.cache.publish index block bytes outcome
      some { y with cache, capture }
    | _ => none
  | .rollBack =>
    match y.capture with
    | .unwinding _ _ | .withdrawing _ _ => some { y.call (Ram.rollBack y.capture) with
        capture := .idle }
    | _ => none
  | .claim id => if y.capture = .idle then some (y.call (Ram.claim id)) else none
  | .release id => some (y.call (Ram.release id))
  | .consume id => some (y.call (Ram.consume id))
  | .releaseRestored id => some (y.call (Ram.releaseRestored id))
  | .discard id => some (y.call (Ram.discard id))
  | .evictOneUnpinned id => some (y.call (Ram.evictOneUnpinned id))
  | .pinForIo id => some (y.call (Ram.pinForIo id))
  | .unpinForIo id => some (y.call (Ram.unpinForIo id))
  | .reap => some (y.call reapRetiredLocked)
  | .waitRetiredCopies => some (y.wait Ram.waitRetiredCopies)
  | .waitEntryCopies id => some (y.wait (Ram.waitEntryCopies id))
  | .waitPendingCopies => some (y.wait Ram.waitPendingCopies)
  | .waitEnds i => (y.waits[i]?).map fun ids =>
    { y.call (unpinCopyEvents ids) with waits := y.waits.eraseIdx i }
  | .harvestCopySeconds => some (y.call Ram.harvestCopySeconds)
  | .unpackDevice id => some (y.call (Ram.unpackDevice id))
  | .unpackDone id => some (y.call (Ram.unpackDone id))
  | .unpackThrown id => some (y.call (Ram.unpackThrown id))
  | .copyFromEntry id => some (y.call (Ram.copyFromEntry id))
  | .copiesComplete id => some { y with
      cache := y.cache.update id fun r => { r with copiesDone := r.copiesDone.reach } }
  | .blockComplete id => some { y with
      cache := y.cache.update id fun r => { r with blockDone := r.blockDone.reach } }
  | .rehash records =>
    if records.Perm y.cache.records then some { y with cache := { y.cache with records } } else none

end System

end NInfer.Ram
