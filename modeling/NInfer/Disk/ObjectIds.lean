import NInfer.Foundation.RenamedFile

/-!
# Object ids of the disk tier

Every object that is written to a pack has an id, which must never have been used before, whatever
happened to earlier sessions on the same directory.  A session hands out ids in order, but only
below a limit that it has first written to the file `PACKSET` (`reserve_object_ids_locked`).  A
later session starts at the limit that it finds there, or above the highest id that it sees in the
index.

`PACKSET` also names the epoch of the index, so an index checkpoint rewrites it with the limit that
it read when it began; and if the outcome of a checkpoint is unknown, `recover_index_epoch` reads
the file back.  All three release the mutex while they read or write.  They are kept apart by the
flags of the session: the worker thread writes the objects of a spill and takes checkpoints, and the
owner thread prepares emergency spills and takes the last checkpoint after it has shut the tiers
down.

A system is the directory, the ids handed out so far and the session that is open, and `step` is
what one event does to it.  What a session finds in the index is left open (`openStore` may see any
ids), so that index frames, deletions and lost tails need no model of their own.
-/

namespace NInfer.ObjectIds

/-- The largest value of an id. -/
def kMaxU64 : ℕ := 2 ^ 64 - 1

/-- How many ids are reserved at a time. -/
def kReservation : ℕ := 2 ^ 16

/-- What `encode_packset` writes. -/
structure Packset where
  generation : ℕ
  reserved : ℕ
  deriving DecidableEq, Repr

/-! ## The id arithmetic -/

/-- `bump_next_id`. -/
def bumpNextId (next seen : ℕ) : ℕ :=
  if seen = 0 then next
  else if seen = kMaxU64 then seen
  else max next (seen + 1)

/-- The limit that `reserve_object_ids_locked` has to publish before `count` ids are handed out, if
it has to. -/
def reservation (next limit count : ℕ) : Except String (Option ℕ) :=
  if next = 0 ∨ count ≥ kMaxU64 - next then
    throw "KV disk object id space is exhausted"
  else if next + count ≤ limit then pure none
  else
    let base := max limit next
    let span := max kReservation count
    if base > kMaxU64 - span then throw "KV disk object id space is exhausted"
    else pure (some (base + span))

/-! ## Sessions -/

inductive ThreadId where
  | worker
  | owner
  deriving DecidableEq, Repr

/-- Where a thread is, as far as the flags of the session show it.  `job` is a payload job of the
spill (`payload_io_inflight_`), and `preparing` is the preparation of a spill (`idle_pinning_` of
the worker, `emergency_preparing_` of the owner), before and after its `recover_index_epoch`. -/
inductive Region where
  | free
  | job
  | preparing (recovered : Bool)
  deriving DecidableEq, Repr

/-- How far `persist_packset` is. -/
inductive Stage where
  | tmpSynced
  | renamed
  | rootSynced
  deriving DecidableEq, Repr

/-- What a thread does without the mutex. -/
inductive Io where
  | reserving (image : Packset) (stage : Stage)
  | checkpointing (image : Packset) (stage : Stage)
  | recovering (read : Option Packset) (rootSynced : Bool)
  deriving DecidableEq, Repr

structure Thread where
  region : Region := .free
  io : Option Io := none
  deriving DecidableEq, Repr

/-- `idle_pinning_` or `emergency_preparing_`. -/
def Thread.isPreparing (thread : Thread) : Bool :=
  match thread.region with
  | .preparing _ => true
  | _ => false

structure Session where
  nextObjectId : ℕ
  /-- `object_id_reservation_limit_`. -/
  limit : ℕ
  indexEpoch : ℕ
  /-- `packset_publication_pending_sync_`. -/
  pendingSync : Bool := false
  /-- `map_checkpoint_publishing_`. -/
  publishing : Bool := false
  /-- `spill_` holds a session. -/
  spill : Bool := false
  /-- `reclaim_ram_` names an entry that is still to be saved. -/
  reclaim : Bool := false
  /-- `idle_requested_`. -/
  idleRequested : Bool := false
  /-- `kv_tiers_shutdown_`. -/
  shutdown : Bool := false
  worker : Thread := {}
  owner : Thread := {}

namespace Session

def thread (s : Session) : ThreadId → Thread
  | .worker => s.worker
  | .owner => s.owner

def setThread (s : Session) : ThreadId → Thread → Session
  | .worker, thread => { s with worker := thread }
  | .owner, thread => { s with owner := thread }

/-- `open_pack_store` on a directory with a `PACKSET`, and the scan of the entries after it: `seen`
are the ids in the index and `later` those of the entries. -/
def opened (image : Packset) (seen later : List ℕ) : Session :=
  let next := seen.foldl bumpNextId image.reserved
  { nextObjectId := later.foldl bumpNextId next
    limit := max image.reserved next
    indexEpoch := image.generation }

/-- The first `PACKSET` of a directory. -/
def bootstrapImage : Packset := ⟨1, kReservation + 1⟩

/-- `open_pack_store` on an empty directory. -/
def bootstrapped (seen later : List ℕ) : Session :=
  let next := seen.foldl bumpNextId 1
  { nextObjectId := later.foldl bumpNextId next
    limit := max bootstrapImage.reserved next
    indexEpoch := bootstrapImage.generation }

/-! ### Steps with the mutex -/

/-- A reclaim that does not block names an entry for the worker. -/
def requestReclaim (s : Session) : Option Session :=
  if s.owner = {} ∧ s.shutdown = false then some { s with reclaim := true } else none

def requestIdleSpill (s : Session) : Option Session :=
  if s.owner = {} ∧ s.shutdown = false then some { s with idleRequested := true } else none

/-- `shutdown_kv_tiers`, up to the end of its `cancel_idle_spill`. -/
def shutdownTiers (s : Session) : Option Session :=
  if s.owner = {} ∧ s.worker.isPreparing = false then
    some { s with shutdown := true, reclaim := false, idleRequested := false }
  else none

/-- `recover_index_epoch`, up to where it releases the mutex. -/
def recoverIndexEpoch (s : Session) (t : ThreadId) : Session :=
  { s.setThread t { s.thread t with io := some (.recovering none false) } with publishing := true }

/-- The head of `prepare_spill`. -/
def prepareSpill (s : Session) (t : ThreadId) : Session :=
  if s.pendingSync then (s.setThread t ⟨.preparing false, none⟩).recoverIndexEpoch t
  else s.setThread t ⟨.preparing true, none⟩

/-- `start_worker_spill`, up to where it pins the entry. -/
def pinForSpill (s : Session) : Option Session :=
  if s.worker = {} ∧ s.spill = false ∧ s.owner.isPreparing = false ∧
      (s.reclaim = true ∨ s.idleRequested = true ∧ s.publishing = false) then
    some { s with worker := ⟨.preparing false, none⟩ }
  else none

/-- `start_worker_spill`, after the entry is pinned. -/
def workerPrepare (s : Session) : Option Session :=
  if s.worker = ⟨.preparing false, none⟩ then some (s.prepareSpill .worker) else none

/-- `emergency_spill_ram`, after its wait. -/
def emergencyPrepare (s : Session) : Option Session :=
  if s.owner = {} ∧ s.worker.isPreparing = false ∧ s.publishing = false then
    some (s.prepareSpill .owner)
  else none

/-- `prepare_spill` installs its session. -/
def installSpill (s : Session) (t : ThreadId) : Option Session :=
  if s.thread t = ⟨.preparing true, none⟩ then some { s.setThread t {} with spill := true }
  else none

/-- A preparation that is given up. -/
def abandonSpill (s : Session) (t : ThreadId) : Option Session :=
  if (s.thread t).isPreparing = true ∧ (s.thread t).io = none then some (s.setThread t {}) else none

/-- `discard_spill`, `reset_failed_spill` or the end of a commit. -/
def clearSpill (s : Session) : Session := { s with spill := false }

/-- `take_job` gives the worker a payload job of the spill. -/
def takeJob (s : Session) : Option Session :=
  if s.worker = {} ∧ s.spill = true then some { s with worker := ⟨.job, none⟩ } else none

/-- `finish_payload_io`. -/
def finishJob (s : Session) : Option Session :=
  if s.worker = ⟨.job, none⟩ then some { s with worker := {} } else none

/-- `reserve_object_ids_locked`, up to where it releases the mutex. -/
def reserveObjectIds (s : Session) (count : ℕ) : Option Session :=
  if s.worker = ⟨.job, none⟩ then
    match reservation s.nextObjectId s.limit count with
    | .ok (some limit) =>
      some { s with worker := ⟨.job, some (.reserving ⟨s.indexEpoch, limit⟩ .tmpSynced)⟩ }
    | _ => some s
  else none

/-- `allocate_object`. -/
def allocateObject (s : Session) : Option (ℕ × Session) :=
  if s.worker = ⟨.job, none⟩ ∧ s.nextObjectId ≠ 0 ∧ s.nextObjectId < s.limit then
    some (s.nextObjectId, { s with nextObjectId := s.nextObjectId + 1 })
  else none

/-- `object_map_checkpoint_needed`, as far as the other flags are concerned. -/
def CheckpointAllowed (s : Session) : Prop :=
  s.spill = false ∧ s.worker.region ≠ .job ∧ s.worker.isPreparing = false ∧
    s.owner.isPreparing = false ∧ s.publishing = false

instance (s : Session) : Decidable s.CheckpointAllowed := by
  unfold CheckpointAllowed
  infer_instance

/-- `checkpoint_object_map`, up to where it publishes.  The owner calls it only in
`wait_idle_and_fsync`, at the end of the shutdown. -/
def checkpointObjectMap (s : Session) (t : ThreadId) : Option Session :=
  if s.thread t = {} ∧ (t = .owner → s.shutdown = true) ∧ s.CheckpointAllowed ∧
      s.indexEpoch ≠ kMaxU64 then
    let image := ⟨s.indexEpoch + 1, s.limit⟩
    some { s.setThread t ⟨.free, some (.checkpointing image .tmpSynced)⟩ with publishing := true }
  else none

/-- `reclaim_objects`, where it recovers the index epoch.  The owner reaches it at the end of the
shutdown; before that it only discards spills, and a spill is never there while the epoch is to be
recovered. -/
def reclaimObjects (s : Session) (t : ThreadId) : Option Session :=
  if (s.thread t).io = none ∧ (s.thread t).region ≠ .preparing false ∧
      (t = .owner → s.owner = {} ∧ s.shutdown = true) ∧ s.publishing = false ∧
      s.pendingSync = true then
    some (s.recoverIndexEpoch t)
  else none

/-- `packset_publication_pending_sync_ = false` after a sync of the root. -/
def clearPendingSync (s : Session) : Session := { s with pendingSync := false }

/-! ### Steps without the mutex -/

/-- A thread goes on with `io`. -/
def setIo (s : Session) (t : ThreadId) (io : Option Io) : Session :=
  s.setThread t { s.thread t with io }

/-- `recover_index_epoch` takes the mutex again and returns; a preparation goes on. -/
def recovered (s : Session) (t : ThreadId) (image : Packset) : Session :=
  let region := if (s.thread t).region = .preparing false then .preparing true
    else (s.thread t).region
  { s.setThread t ⟨region, none⟩ with
    indexEpoch := image.generation
    limit := max s.limit image.reserved
    pendingSync := false
    publishing := false }

/-- The next thing that a thread does to the directory, or the end of its work there. -/
def advance (f : RenamedFile Packset) (s : Session) (t : ThreadId) :
    Option (RenamedFile Packset × Session) :=
  match (s.thread t).io with
  | none => none
  | some (.reserving image .tmpSynced) =>
    some (f.rename image, s.setIo t (some (.reserving image .renamed)))
  | some (.reserving image .renamed) =>
    some (f.sync, s.setIo t (some (.reserving image .rootSynced)))
  | some (.reserving image .rootSynced) =>
    some (f, { s.setIo t none with limit := max s.limit image.reserved })
  | some (.checkpointing image .tmpSynced) =>
    some (f.rename image, s.setIo t (some (.checkpointing image .renamed)))
  | some (.checkpointing image .renamed) =>
    some (f.sync, s.setIo t (some (.checkpointing image .rootSynced)))
  | some (.checkpointing image .rootSynced) =>
    some (f, { s.setIo t none with
      indexEpoch := image.generation, pendingSync := false, publishing := false })
  | some (.recovering none _) =>
    f.visible.map fun image => (f, s.setIo t (some (.recovering (some image) false)))
  | some (.recovering (some image) false) =>
    some (f.sync, s.setIo t (some (.recovering (some image) true)))
  | some (.recovering (some image) true) => some (f, s.recovered t image)

/-- `recover_index_epoch` throws; a preparation is given up. -/
def recoverFails (s : Session) (t : ThreadId) : Session :=
  let region := if (s.thread t).region = .preparing false then .free else (s.thread t).region
  { s.setThread t ⟨region, none⟩ with publishing := false }

/-- The handler of `checkpoint_object_map`: a file that cannot be read, or that names the new epoch,
is to be recovered. -/
def checkpointFails (s : Session) (t : ThreadId) (image : Packset) (read : Option Packset) :
    Session :=
  let s := { s.setIo t none with publishing := false }
  match read with
  | none => { s with pendingSync := true }
  | some visible =>
    if visible.generation = image.generation then
      { s with indexEpoch := image.generation, pendingSync := true }
    else s

/-- The thread's work on the directory throws.  `readable` tells whether the handler of a checkpoint
can read `PACKSET` back. -/
def fail (f : RenamedFile Packset) (s : Session) (t : ThreadId) (readable : Bool) :
    Option Session :=
  match (s.thread t).io with
  | none => none
  | some (.reserving _ _) => some (s.setIo t none)
  | some (.checkpointing image _) =>
    some (s.checkpointFails t image (if readable then f.visible else none))
  | some (.recovering _ _) => some (s.recoverFails t)

end Session

/-! ## Systems -/

structure System where
  packset : RenamedFile Packset := .absent
  /-- The ids handed out so far, newest first. -/
  allocated : List ℕ := []
  session : Option Session := none

inductive Event where
  | openStore (seen later : List ℕ)
  | bootstrapFails (renamed : Bool)
  | close
  | crash (kept : ℕ)
  | syncRoot
  | requestReclaim
  | requestIdleSpill
  | shutdownTiers
  | pinForSpill
  | workerPrepare
  | emergencyPrepare
  | installSpill (t : ThreadId)
  | abandonSpill (t : ThreadId)
  | clearSpill
  | takeJob
  | finishJob
  | reserveObjectIds (count : ℕ)
  | allocateObject
  | checkpointObjectMap (t : ThreadId)
  | reclaimObjects (t : ThreadId)
  | clearPendingSync
  | advance (t : ThreadId)
  | fail (t : ThreadId) (readable : Bool)

namespace System

/-- A step of the session that leaves the directory alone. -/
def update (y : System) (f : Session → Option Session) : Option System :=
  y.session.bind fun s => (f s).map fun s' => { y with session := some s' }

/-- Opening the directory: an empty one gets its first `PACKSET`. -/
def openStore (y : System) (seen later : List ℕ) : Option System :=
  if y.session.isNone ∧ ∀ id ∈ seen ++ later, id ≤ kMaxU64 then
    match y.packset.visible with
    | some image => some { y with session := some (.opened image seen later) }
    | none => some { y with
        packset := (y.packset.rename Session.bootstrapImage).sync
        session := some (.bootstrapped seen later) }
  else none

/-- The first `PACKSET` cannot be written, or not be synced. -/
def bootstrapFails (y : System) (renamed : Bool) : Option System :=
  if y.session.isNone ∧ y.packset.visible.isNone then
    some (if renamed then { y with packset := y.packset.rename Session.bootstrapImage } else y)
  else none

/-- What an event does, where it is possible. -/
def step (y : System) : Event → Option System
  | .openStore seen later => y.openStore seen later
  | .bootstrapFails renamed => y.bootstrapFails renamed
  | .close => some { y with session := none }
  | .crash kept => some { y with packset := y.packset.crash kept, session := none }
  | .syncRoot => some { y with packset := y.packset.sync }
  | .requestReclaim => y.update Session.requestReclaim
  | .requestIdleSpill => y.update Session.requestIdleSpill
  | .shutdownTiers => y.update Session.shutdownTiers
  | .pinForSpill => y.update Session.pinForSpill
  | .workerPrepare => y.update Session.workerPrepare
  | .emergencyPrepare => y.update Session.emergencyPrepare
  | .installSpill t => y.update fun s => s.installSpill t
  | .abandonSpill t => y.update fun s => s.abandonSpill t
  | .clearSpill => y.update fun s => some s.clearSpill
  | .takeJob => y.update Session.takeJob
  | .finishJob => y.update Session.finishJob
  | .reserveObjectIds count => y.update fun s => s.reserveObjectIds count
  | .allocateObject => y.session.bind fun s => s.allocateObject.map fun (id, s') =>
    { y with allocated := id :: y.allocated, session := some s' }
  | .checkpointObjectMap t => y.update fun s => s.checkpointObjectMap t
  | .reclaimObjects t => y.update fun s => s.reclaimObjects t
  | .clearPendingSync => y.update fun s => some s.clearPendingSync
  | .advance t => y.session.bind fun s => (s.advance y.packset t).map fun (f, s') =>
    { y with packset := f, session := some s' }
  | .fail t readable => y.update fun s => s.fail y.packset t readable

end System

end NInfer.ObjectIds
