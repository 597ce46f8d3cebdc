import NInfer.Disk.ObjectIds
import NInfer.Foundation.Monitor

/-!
# Object ids are never reused

Two invariants carry the proof.  `Protocol` is about the threads of a session: while one of them
rewrites or recovers `PACKSET` for the index, the other is idle and there is no spill, so the limit
that a checkpoint writes back is still the limit when it is written.  `Ids` relates the session to
the directory: as long as ids are left below the limit, every version of `PACKSET` that a crash may
leave reserves all of them.  `object_ids_never_reused` follows for every run.
-/

namespace NInfer.ObjectIds

open RenamedFile Thread

/-! ## The threads of a session -/

/-- The thread works on `PACKSET` for the index. -/
def Thread.publishes (thread : Thread) : Bool :=
  match thread.io with
  | some (.checkpointing _ _) | some (.recovering _ _) => true
  | _ => false

/-- The thread works on `PACKSET` for ids. -/
def Thread.reserves (thread : Thread) : Bool :=
  match thread.io with
  | some (.reserving _ _) => true
  | _ => false

/-- The thread publishes a checkpoint. -/
def Thread.checkpoints (thread : Thread) : Bool :=
  match thread.io with
  | some (.checkpointing _ _) => true
  | _ => false

lemma Thread.io_eq_none {thread : Thread} (hpublishes : thread.publishes = false)
    (hreserves : thread.reserves = false) : thread.io = none := by
  obtain ⟨region, io⟩ := thread
  match io with
  | none => rfl
  | some (.reserving _ _) => exact absurd hreserves (by simp [reserves])
  | some (.checkpointing _ _) | some (.recovering _ _) =>
    exact absurd hpublishes (by simp [publishes])

/-- A thread outside a job and a preparation, and not at work on `PACKSET`, is idle. -/
lemma Thread.eq_idle {thread : Thread} (hjob : thread.region ≠ .job)
    (hprep : thread.isPreparing = false) (hpublishes : thread.publishes = false)
    (hreserves : thread.reserves = false) : thread = {} := by
  have hio := io_eq_none hpublishes hreserves
  obtain ⟨region, io⟩ := thread
  match region with
  | .free => exact congrArg _ hio
  | .job => exact absurd rfl hjob
  | .preparing _ => exact absurd hprep (by simp [isPreparing])

lemma Thread.isPreparing_eq_false {thread : Thread} (hnew : thread.region ≠ .preparing false)
    (hrecovered : thread.region ≠ .preparing true) : thread.isPreparing = false := by
  obtain ⟨region, io⟩ := thread
  match region with
  | .free => rfl
  | .job => rfl
  | .preparing true => exact absurd rfl hrecovered
  | .preparing false => exact absurd rfl hnew

attribute [local grind] Thread.isPreparing Thread.publishes Thread.reserves Thread.checkpoints
  Session.thread Session.setThread Session.setIo

namespace Session

/-- How the flags keep the threads apart. -/
structure Protocol (s : Session) : Prop where
  worker_publishes : s.worker.publishes = true → s.owner = {} ∧ s.spill = false ∧
    s.publishing = true ∧ (s.worker.region = .free ∨
      s.worker.region = .preparing false ∧ s.worker.checkpoints = false)
  owner_publishes : s.owner.publishes = true → s.worker = {} ∧ s.spill = false ∧
    s.publishing = true ∧ (s.owner.region = .free ∧ s.shutdown = true ∨
      s.owner.region = .preparing false ∧ s.owner.checkpoints = false)
  worker_reserves : s.worker.reserves = true → s.worker.region = .job
  owner_reserves : s.owner.reserves = false
  epoch_synced : s.spill = true ∨ s.worker.region = .job ∨ s.worker.region = .preparing true ∨
    s.owner.region = .preparing true → s.pendingSync = false
  ended : s.shutdown = true → s.reclaim = false ∧ s.idleRequested = false ∧
    s.worker.isPreparing = false
  apart : s.worker.isPreparing = true → s.owner.isPreparing = false
  owner_job : s.owner.region ≠ .job
  owner_preparing : s.owner.region = .preparing false → s.owner.publishes = true

variable {s s' : Session} {t : ThreadId}

/-! ### With the mutex -/

/-- The steps that set a flag, or begin or end a job. -/
def flagSteps : List (Session → Option Session) :=
  [requestReclaim, requestIdleSpill, shutdownTiers, pinForSpill, takeJob, finishJob]

lemma Protocol.flagStep {g : Session → Option Session} (hg : g ∈ flagSteps) (h : s.Protocol)
    (hs : g s = some s') : s'.Protocol := by
  cases h
  simp only [flagSteps, List.mem_cons, List.not_mem_nil, or_false] at hg
  rcases hg with rfl | rfl | rfl | rfl | rfl | rfl
  all_goals
    obtain ⟨hguard, rfl⟩ := taken_iff.mp hs
    -- A field about what the step leaves alone holds as before.
    constructor <;> first | assumption | grind

section

variable (h : s.Protocol)

include h

lemma Protocol.workerPrepare (hs : s.workerPrepare = some s') : s'.Protocol := by
  obtain ⟨hguard, rfl⟩ := taken_iff.mp hs
  obtain ⟨-, howner, -, hown, hrecovered, hended, hapart, hjob, -⟩ := h
  have hidle : s.owner = {} := eq_idle hjob (by grind) (by grind) hown
  unfold prepareSpill recoverIndexEpoch
  split <;> constructor <;> grind

lemma Protocol.emergencyPrepare (hs : s.emergencyPrepare = some s') : s'.Protocol := by
  obtain ⟨hguard, rfl⟩ := taken_iff.mp hs
  cases h
  unfold prepareSpill recoverIndexEpoch
  split
  case isTrue hpending =>
    have hidle : s.worker = {} := eq_idle (by grind) (by grind) (by grind) (by grind)
    constructor <;> grind
  case isFalse => constructor <;> grind

lemma Protocol.installSpill (hs : s.installSpill t = some s') : s'.Protocol := by
  obtain ⟨hguard, rfl⟩ := taken_iff.mp hs
  cases h
  cases t <;> constructor <;> grind

lemma Protocol.abandonSpill (hs : s.abandonSpill t = some s') : s'.Protocol := by
  obtain ⟨hguard, rfl⟩ := taken_iff.mp hs
  cases h
  cases t <;> constructor <;> grind

lemma Protocol.clearSpill : s.clearSpill.Protocol := by
  cases h
  unfold Session.clearSpill
  constructor <;> grind

lemma Protocol.clearPendingSync : s.clearPendingSync.Protocol := by
  cases h
  unfold Session.clearPendingSync
  constructor <;> grind

lemma Protocol.checkpointObjectMap (hs : s.checkpointObjectMap t = some s') : s'.Protocol := by
  obtain ⟨⟨hidle, hshutdown, hallowed, -⟩, rfl⟩ := taken_iff.mp hs
  obtain ⟨hworker, howner, hreserves, hown, -, hended, -, hjob, -⟩ := h
  obtain ⟨hspill, hnojob, hpin, hemergency, hpublishing⟩ := hallowed
  have hworkerIdle : s.worker = {} := eq_idle hnojob hpin (by grind) (by grind)
  have hownerIdle : s.owner = {} := eq_idle hjob hemergency (by grind) hown
  cases t <;> constructor <;> grind

lemma Protocol.reclaimObjects (hs : s.reclaimObjects t = some s') : s'.Protocol := by
  obtain ⟨⟨hio, hregion, howns, hpublishing, hpending⟩, rfl⟩ := taken_iff.mp hs
  obtain ⟨hworker, howner, hreserves, hown, hrecovered, hended, hapart, hjob, hprep⟩ := h
  have hworkerIdle : s.worker = {} :=
    eq_idle (by grind) (by cases t <;> grind [isPreparing_eq_false]) (by grind)
      (by grind)
  have hownerIdle : s.owner = {} :=
    eq_idle hjob (by grind [isPreparing_eq_false]) (by grind) hown
  unfold recoverIndexEpoch
  cases t <;> constructor <;> grind

lemma Protocol.reserveObjectIds {count : ℕ}
    (hs : s.reserveObjectIds count = some s') : s'.Protocol := by
  obtain ⟨hguard, hs'⟩ := Option.ite_none_right_eq_some.mp hs
  split at hs'
  case h_1 limit _ =>
    obtain rfl := Option.some.inj hs'
    cases h
    constructor <;> grind
  case h_2 => exact Option.some.inj hs' ▸ h

lemma Protocol.allocateObject {id : ℕ} (hs : s.allocateObject = some (id, s')) : s'.Protocol := by
  obtain ⟨-, hs'⟩ := taken_iff.mp hs
  obtain ⟨-, rfl⟩ := Prod.mk.inj hs'
  exact { h with }

/-! ### Without the mutex -/

/-- A thread that goes on in the same kind of work. -/
lemma Protocol.setIo {io : Option Io} (hbusy : (s.thread t).io ≠ none)
    (hpublishes : publishes ⟨(s.thread t).region, io⟩ = (s.thread t).publishes)
    (hreserves : reserves ⟨(s.thread t).region, io⟩ = (s.thread t).reserves)
    (hcheckpoints : checkpoints ⟨(s.thread t).region, io⟩ = (s.thread t).checkpoints) :
    (s.setIo t io).Protocol := by
  cases h
  cases t <;> constructor <;> grind

section

variable (hpublishes : (s.thread t).publishes = true)

include hpublishes

/-- What publishing means for the rest of the session. -/
lemma Protocol.of_publishes :
    s.spill = false ∧ s.worker.region ≠ .job ∧ s.worker.region ≠ .preparing true ∧
      s.owner.region ≠ .preparing true ∧ (s.worker = {} ∨ s.owner = {}) := by
  have hworker := h.worker_publishes
  have howner := h.owner_publishes
  cases t <;> grind

/-- A thread has published, or has failed to; a preparation goes on only if the epoch is synced. -/
lemma Protocol.publishEnds {region : Region} {limit epoch : ℕ} {pending : Bool}
    (hregion : region = .free ∨
      (s.thread t).region = .preparing false ∧ region = .preparing true ∧ pending = false) :
    { s.setThread t ⟨region, none⟩ with
      limit, indexEpoch := epoch, pendingSync := pending, publishing := false }.Protocol := by
  obtain ⟨hspill, hnojob, -, -, -⟩ := h.of_publishes hpublishes
  cases h
  cases t <;> constructor <;> grind

lemma Protocol.region_of_publishes : (s.thread t).region = .free ∨
      (s.thread t).region = .preparing false ∧ (s.thread t).checkpoints = false := by
  have hworker := h.worker_publishes
  have howner := h.owner_publishes
  cases t <;> grind

lemma Protocol.recovered (image : Packset) : (s.recovered t image).Protocol := by
  refine h.publishEnds hpublishes ?_
  rcases h.region_of_publishes hpublishes with hfree | ⟨hprep, -⟩
  · exact Or.inl (by rw [hfree]; rfl)
  · exact Or.inr ⟨hprep, by rw [hprep]; rfl, rfl⟩

lemma Protocol.recoverFails : (s.recoverFails t).Protocol := by
  refine h.publishEnds hpublishes ?_
  rcases h.region_of_publishes hpublishes with hfree | ⟨hprep, -⟩
  · exact Or.inl (by rw [hfree]; rfl)
  · exact Or.inl (by rw [hprep]; rfl)

end

lemma Protocol.region_of_checkpoints {image : Packset} {stage : Stage}
    (hio : (s.thread t).io = some (.checkpointing image stage)) : (s.thread t).region = .free := by
  have hpublishes : (s.thread t).publishes = true := by simp [publishes, hio]
  rcases h.region_of_publishes hpublishes with hfree | ⟨-, hcheckpoints⟩
  · exact hfree
  · simp [checkpoints, hio] at hcheckpoints

lemma Protocol.checkpointFails {image : Packset} {stage : Stage}
    (hio : (s.thread t).io = some (.checkpointing image stage)) (read : Option Packset) :
    (s.checkpointFails t image read).Protocol := by
  have hpublishes : (s.thread t).publishes = true := by simp [publishes, hio]
  have hfree := h.region_of_checkpoints hio
  unfold Session.checkpointFails
  split
  · exact h.publishEnds hpublishes (Or.inl hfree)
  · split
    · exact h.publishEnds hpublishes (Or.inl hfree)
    · exact h.publishEnds hpublishes (Or.inl hfree)

/-- A reservation ends. -/
lemma Protocol.reserveEnds (hreserves : (s.thread t).reserves = true)
    (limit : ℕ) : { s.setIo t none with limit }.Protocol := by
  obtain ⟨-, howner, hworkers, hown, hsynced, hended, -, hjob, hprep⟩ := h
  cases t <;> constructor <;> grind

lemma Protocol.advance {f f' : RenamedFile Packset}
    (hs : s.advance f t = some (f', s')) : s'.Protocol := by
  have hgoesOn : ∀ {io io' : Io}, (s.thread t).io = some io →
      publishes ⟨(s.thread t).region, some io'⟩ =
        publishes ⟨(s.thread t).region, some io⟩ →
      reserves ⟨(s.thread t).region, some io'⟩ =
        reserves ⟨(s.thread t).region, some io⟩ →
      checkpoints ⟨(s.thread t).region, some io'⟩ =
        checkpoints ⟨(s.thread t).region, some io⟩ → (s.setIo t (some io')).Protocol := by
    intro io io' hio hpublishes hreserves hcheckpoints
    have heq : s.thread t = ⟨(s.thread t).region, some io⟩ := by rw [← hio]
    exact h.setIo (by rw [hio]; simp) (hpublishes.trans (by rw [← heq]))
      (hreserves.trans (by rw [← heq])) (hcheckpoints.trans (by rw [← heq]))
  unfold Session.advance at hs
  split at hs
  case h_1 => exact absurd hs (by simp)
  case h_2 hio | h_3 hio | h_5 hio | h_6 hio | h_9 hio =>
    exact (Prod.mk.inj (Option.some.inj hs)).2 ▸ hgoesOn hio rfl rfl rfl
  case h_4 hio =>
    exact (Prod.mk.inj (Option.some.inj hs)).2 ▸
      h.reserveEnds (by simp [reserves, hio]) _
  case h_7 hio =>
    exact (Prod.mk.inj (Option.some.inj hs)).2 ▸
      h.publishEnds (by simp [publishes, hio]) (Or.inl (h.region_of_checkpoints hio))
  case h_8 hio =>
    obtain ⟨image, -, himage⟩ := Option.map_eq_some_iff.mp hs
    exact (Prod.mk.inj himage).2 ▸ hgoesOn hio rfl rfl rfl
  case h_10 hio =>
    exact (Prod.mk.inj (Option.some.inj hs)).2 ▸ h.recovered (by simp [publishes, hio]) _

lemma Protocol.fail {f : RenamedFile Packset} {readable : Bool}
    (hs : s.fail f t readable = some s') : s'.Protocol := by
  unfold Session.fail at hs
  split at hs
  case h_1 => exact absurd hs (by simp)
  case h_2 hio =>
    exact Option.some.inj hs ▸ h.reserveEnds (by simp [reserves, hio]) (s.setIo t none).limit
  case h_3 hio => exact Option.some.inj hs ▸ h.checkpointFails hio _
  case h_4 hio => exact Option.some.inj hs ▸ h.recoverFails (by simp [publishes, hio])

/-- At most one thread works on `PACKSET`. -/
lemma Protocol.other_io {io : Io} (hio : (s.thread t).io = some io)
    {t' : ThreadId} (ht : t' ≠ t) : (s.thread t').io = none := by
  have hworker : (s.worker.io = none ∨ s.owner.io = none) := by
    by_cases hpublishes : s.owner.publishes = true
    · exact Or.inl (by rw [(h.owner_publishes hpublishes).1])
    · exact Or.inr (io_eq_none (by simpa using hpublishes) h.owner_reserves)
  cases t <;> cases t' <;> grind

lemma Protocol.worker_io {io : Io} (hio : s.worker.io = some io) : s.owner.io = none := by
  have hworker : (s.thread .worker).io = some io := hio
  have howner : (s.thread .owner).io = none := h.other_io hworker (by decide)
  exact howner

end

end Session

/-! ## The ids of a session -/

/-- What a thread's work on `PACKSET` relies on and promises, under the limit of the session. -/
def Io.Backed (f : RenamedFile Packset) (limit : ℕ) : Io → Prop
  | .reserving image stage => limit ≤ image.reserved ∧ image.reserved ≤ kMaxU64 ∧
      (stage = .renamed → f.visible = some image) ∧ (stage = .rootSynced → f = .settled image)
  | .checkpointing image _ => image.reserved = limit
  | .recovering none _ => True
  | .recovering (some image) synced => f.visible = some image ∧
      (synced = true → f = .settled image)

namespace Session

/-- Ids below the limit are reserved in every version of `PACKSET` that may be found later. -/
structure Ids (f : RenamedFile Packset) (allocated : List ℕ) (s : Session) : Prop where
  below : ∀ id ∈ allocated, id < s.nextObjectId ∧ id < s.limit
  backed : s.nextObjectId < s.limit →
    f.durable.isSome = true ∧ f.All fun image => s.limit ≤ image.reserved
  fits : s.nextObjectId ≤ kMaxU64 ∧ s.limit ≤ kMaxU64
  io : ∀ t io, (s.thread t).io = some io → io.Backed f s.limit

variable {f f' : RenamedFile Packset} {allocated : List ℕ} {s s' : Session} {t : ThreadId}

/-- A step that changes neither the ids nor the directory; a thread may begin to recover the index
epoch. -/
lemma Ids.frame (h : s.Ids f allocated) (hnext : s'.nextObjectId = s.nextObjectId)
    (hlimit : s'.limit = s.limit)
    (hio : ∀ t io, (s'.thread t).io = some io →
      (s.thread t).io = some io ∨ io = .recovering none false) : s'.Ids f allocated := by
  refine ⟨?_, ?_, ?_, ?_⟩
  · rw [hnext, hlimit]
    exact h.below
  · rw [hnext, hlimit]
    exact h.backed
  · rw [hnext, hlimit]
    exact h.fits
  · intro t io hnew
    rw [hlimit]
    rcases hio t io hnew with hold | rfl
    · exact h.io t io hold
    · exact trivial

lemma thread_setThread (s : Session) (t t' : ThreadId) (thread : Thread) :
    (s.setThread t thread).thread t' = if t' = t then thread else s.thread t' := by
  match t, t' with
  | .worker, .worker => rfl
  | .worker, .owner => rfl
  | .owner, .worker => rfl
  | .owner, .owner => rfl

@[simp] lemma nextObjectId_setThread (s : Session) (t : ThreadId) (thread : Thread) :
    (s.setThread t thread).nextObjectId = s.nextObjectId := by
  cases t <;> rfl

@[simp] lemma limit_setThread (s : Session) (t : ThreadId) (thread : Thread) :
    (s.setThread t thread).limit = s.limit := by
  cases t <;> rfl

lemma Ids.flagStep {g : Session → Option Session} (hg : g ∈ flagSteps) (h : s.Ids f allocated)
    (hs : g s = some s') : s'.Ids f allocated := by
  simp only [flagSteps, List.mem_cons, List.not_mem_nil, or_false] at hg
  rcases hg with rfl | rfl | rfl | rfl | rfl | rfl
  all_goals
    obtain ⟨-, rfl⟩ := taken_iff.mp hs
    exact h.frame rfl rfl fun t io hio => by cases t <;> grind

section

variable (h : s.Ids f allocated)

include h

lemma Ids.prepareSpill (t : ThreadId) : (s.prepareSpill t).Ids f allocated := by
  unfold Session.prepareSpill recoverIndexEpoch
  split
  · refine h.frame (by simp) (by simp) fun t' io hio => ?_
    cases t <;> cases t' <;> grind
  · refine h.frame (by simp) (by simp) fun t' io hio => ?_
    cases t <;> cases t' <;> grind

lemma Ids.installSpill (hs : s.installSpill t = some s') : s'.Ids f allocated := by
  obtain ⟨-, rfl⟩ := taken_iff.mp hs
  refine h.frame (by simp) (by simp) fun t' io hio => ?_
  cases t <;> cases t' <;> grind

lemma Ids.abandonSpill (hs : s.abandonSpill t = some s') : s'.Ids f allocated := by
  obtain ⟨-, rfl⟩ := taken_iff.mp hs
  refine h.frame (by simp) (by simp) fun t' io hio => ?_
  cases t <;> cases t' <;> grind

lemma Ids.reclaimObjects (hs : s.reclaimObjects t = some s') : s'.Ids f allocated := by
  obtain ⟨-, rfl⟩ := taken_iff.mp hs
  refine h.frame (by simp [recoverIndexEpoch]) (by simp [recoverIndexEpoch]) fun t' io hio => ?_
  unfold recoverIndexEpoch at hio
  cases t <;> cases t' <;> grind

/-- The work of one thread goes on, and the other one has none. -/
lemma Ids.setIo (hother : ∀ t', t' ≠ t → (s.thread t').io = none) {io : Io}
    (hdurable : f.durable.isSome = true → f'.durable.isSome = true)
    (hall : (f.All fun image => s.limit ≤ image.reserved) →
      f'.All fun image => s.limit ≤ image.reserved)
    (hio : io.Backed f' s.limit) : (s.setIo t (some io)).Ids f' allocated := by
  have hnext : (s.setIo t (some io)).nextObjectId = s.nextObjectId := nextObjectId_setThread ..
  have hlimit : (s.setIo t (some io)).limit = s.limit := limit_setThread ..
  refine ⟨?_, ?_, ?_, ?_⟩
  · rw [hnext, hlimit]
    exact h.below
  · rw [hnext, hlimit]
    exact fun hlt => ⟨hdurable (h.backed hlt).1, hall (h.backed hlt).2⟩
  · rw [hnext, hlimit]
    exact h.fits
  · intro t' io' hnew
    rw [hlimit]
    rw [Session.setIo, thread_setThread] at hnew
    split at hnew
    case isTrue => exact Option.some.inj hnew ▸ hio
    case isFalse hne => exact absurd hnew (by rw [hother t' hne]; simp)

/-- A checkpoint begins with the limit of the session. -/
lemma Ids.checkpointObjectMap (hp : s'.Protocol)
    (hs : s.checkpointObjectMap t = some s') : s'.Ids f allocated := by
  obtain ⟨⟨hidle, -⟩, rfl⟩ := taken_iff.mp hs
  have hother : ∀ t', t' ≠ t → (s.thread t').io = none := by
    intro t' ht
    have hnone := hp.other_io (t := t) (by cases t <;> rfl) ht
    cases t <;> cases t' <;> grind
  have hbacked : Io.Backed f s.limit (.checkpointing ⟨s.indexEpoch + 1, s.limit⟩ .tmpSynced) := rfl
  have hids := h.setIo hother id id hbacked
  refine hids.frame ?_ ?_ ?_
  · simp [Session.setIo]
  · simp [Session.setIo]
  · intro t' io hio
    cases t <;> cases t' <;> grind

end

lemma le_of_reservation {next limit count new : ℕ}
    (h : reservation next limit count = .ok (some new)) : limit ≤ new ∧ new ≤ kMaxU64 := by
  simp only [reservation] at h
  split at h
  · cases h
  split at h
  · cases h
  split at h
  · cases h
  · obtain rfl := Option.some.inj (Except.ok.inj h)
    omega

lemma Ids.reserveObjectIds {count : ℕ} (h : s.Ids f allocated) (hp : s'.Protocol)
    (hs : s.reserveObjectIds count = some s') : s'.Ids f allocated := by
  obtain ⟨hjob, hs'⟩ := Option.ite_none_right_eq_some.mp hs
  split at hs'
  case h_1 limit hlimit =>
    obtain rfl := Option.some.inj hs'
    obtain ⟨hle, hfits⟩ := le_of_reservation hlimit
    have howner : s.owner.io = none := hp.worker_io rfl
    have hbacked : Io.Backed f s.limit (.reserving ⟨s.indexEpoch, limit⟩ .tmpSynced) :=
      ⟨hle, hfits, (nomatch ·), (nomatch ·)⟩
    have hids := h.setIo (t := .worker) (fun t' ht => by cases t' <;> grind) id id hbacked
    rwa [Session.setIo, Session.thread, hjob] at hids
  case h_2 => exact Option.some.inj hs' ▸ h

/-- A new id is the next one, and it is reserved everywhere. -/
lemma Ids.allocateObject {id : ℕ} (h : s.Ids f allocated)
    (hs : s.allocateObject = some (id, s')) :
    s'.Ids f (id :: allocated) ∧ id ∉ allocated ∧ f.durable.isSome = true ∧
      f.All fun image => id < image.reserved := by
  obtain ⟨⟨-, -, hlt⟩, hs'⟩ := taken_iff.mp hs
  obtain ⟨rfl, rfl⟩ := Prod.mk.inj hs'
  obtain ⟨hdurable, hall⟩ := h.backed hlt
  refine ⟨⟨?_, ?_, ?_, ?_⟩, ?_, hdurable, hall.mono fun image himage => by omega⟩
  · intro id hid
    rcases List.mem_cons.mp hid with rfl | hid
    · exact ⟨Nat.lt_succ_self _, hlt⟩
    · have := h.below id hid
      exact ⟨by dsimp only; omega, this.2⟩
  · exact fun _ => ⟨hdurable, hall⟩
  · have := h.fits
    exact ⟨by dsimp only; omega, this.2⟩
  · exact fun t io hio => h.io t io (by cases t <;> exact hio)
  · exact fun hmem => absurd (h.below _ hmem).1 (Nat.lt_irrefl _)

/-- No thread works on `PACKSET` any more, and the directory backs the new limit. -/
lemma Ids.ioEnds (h : s.Ids f allocated) (hnext : s'.nextObjectId = s.nextObjectId)
    (hle : s.limit ≤ s'.limit) (hfits : s'.limit ≤ kMaxU64)
    (hbacked : s'.nextObjectId < s'.limit →
      f.durable.isSome = true ∧ f.All fun image => s'.limit ≤ image.reserved)
    (hidle : ∀ t, (s'.thread t).io = none) : s'.Ids f allocated := by
  refine ⟨?_, hbacked, ⟨hnext ▸ h.fits.1, hfits⟩, ?_⟩
  · intro id hid
    have := h.below id hid
    rw [hnext]
    omega
  · intro t io hio
    rw [hidle t] at hio
    exact absurd hio (by simp)

/-- Syncing the directory keeps what a thread knows about `PACKSET`. -/
lemma Ids.syncRoot (h : s.Ids f allocated) : s.Ids f.sync allocated := by
  refine ⟨h.below, fun hlt => ?_, h.fits, fun t io hio => ?_⟩
  · obtain ⟨hdurable, hall⟩ := h.backed hlt
    exact ⟨durable_sync hdurable, hall.sync⟩
  · have hbacked := h.io t io hio
    match io with
    | .reserving image stage =>
      obtain ⟨hle, hfits, hvisible, hsettled⟩ := hbacked
      refine ⟨hle, hfits, fun hstage => ?_, fun hstage => ?_⟩
      · exact visible_sync.trans (hvisible hstage)
      · rw [hsettled hstage, sync_settled]
    | .checkpointing _ _ => exact hbacked
    | .recovering none _ => exact trivial
    | .recovering (some image) synced =>
      obtain ⟨hvisible, hsettled⟩ := hbacked
      refine ⟨visible_sync.trans hvisible, fun hsynced => ?_⟩
      rw [hsettled hsynced, sync_settled]

end Session

/-! ## Systems -/

namespace System

/-- The invariant of a run: the ids handed out are distinct and reserved in every version of
`PACKSET` that may be found later, and there is one if there are ids. -/
structure Inv (y : System) : Prop where
  nodup : y.allocated.Nodup
  reserved : y.packset.All fun image =>
    (∀ id ∈ y.allocated, id < image.reserved) ∧ image.reserved ≤ kMaxU64
  durable : y.allocated ≠ [] → y.packset.durable.isSome = true
  session : ∀ s, y.session = some s → s.Protocol ∧ s.Ids y.packset y.allocated

variable {y y' : System} {f : RenamedFile Packset} {s s' : Session} {t : ThreadId}

/-- A step of the session that leaves the ids and the directory alone. -/
lemma Inv.frame (h : y.Inv)
    (hs : ∀ s', y'.session = some s' → s'.Protocol ∧ s'.Ids y.packset y.allocated)
    (hpackset : y'.packset = y.packset) (hallocated : y'.allocated = y.allocated) : y'.Inv := by
  refine ⟨hallocated ▸ h.nodup, ?_, ?_, ?_⟩
  · rw [hpackset, hallocated]
    exact h.reserved
  · rw [hpackset, hallocated]
    exact h.durable
  · rw [hpackset, hallocated]
    exact hs

section

variable {io : Io} {image : Packset} (h : y.Inv) (hsession : y.session = some s)

include h hsession

/-- The work of a thread goes on: it renames an image over `PACKSET` that reserves the ids, syncs
the directory or leaves it alone. -/
lemma Inv.goesOn {io' : Io} (hio : (s.thread t).io = some io)
    (hp : (s.setIo t (some io')).Protocol)
    (hfile : f = y.packset ∨ f = y.packset.sync ∨
      ∃ image, f = y.packset.rename image ∧ s.limit ≤ image.reserved ∧ image.reserved ≤ kMaxU64)
    (hbacked : io'.Backed f s.limit) :
    { y with packset := f, session := some (s.setIo t (some io')) }.Inv := by
  obtain ⟨hthreads, hids⟩ := h.session s hsession
  have hother : ∀ t', t' ≠ t → (s.thread t').io = none := fun t' => hthreads.other_io hio
  -- It is enough to look at the directory.
  suffices hnew : (f.All fun image =>
      (∀ id ∈ y.allocated, id < image.reserved) ∧ image.reserved ≤ kMaxU64) ∧
      (y.packset.durable.isSome = true → f.durable.isSome = true) ∧
      ((y.packset.All fun image => s.limit ≤ image.reserved) →
        f.All fun image => s.limit ≤ image.reserved) by
    obtain ⟨hall, hdurable, hlimit⟩ := hnew
    refine ⟨h.nodup, hall, fun hne => hdurable (h.durable hne), fun s' hs' => ?_⟩
    obtain rfl := Option.some.inj hs'
    exact ⟨hp, hids.setIo hother hdurable hlimit hbacked⟩
  rcases hfile with rfl | rfl | ⟨image, rfl, hle, hfits⟩
  · exact ⟨h.reserved, id, id⟩
  · exact ⟨h.reserved.sync, durable_sync, fun hall => hall.sync⟩
  · have hreserves := fun id hid => Nat.lt_of_lt_of_le (hids.below id hid).2 hle
    exact ⟨h.reserved.rename ⟨hreserves, hfits⟩, id, fun hall => hall.rename hle⟩

/-- The thread at work is done, and `PACKSET` backs the new limit. -/
lemma Inv.ends (hio : (s.thread t).io = some io) (hp : s'.Protocol)
    (hnext : s'.nextObjectId = s.nextObjectId) (hle : s.limit ≤ s'.limit)
    (hfits : s'.limit ≤ kMaxU64)
    (hbacked : s'.nextObjectId < s'.limit →
      y.packset.durable.isSome = true ∧ y.packset.All fun image => s'.limit ≤ image.reserved)
    (hthreads : ∃ region, ∀ t', s'.thread t' = (s.setThread t ⟨region, none⟩).thread t') :
    { y with session := some s' }.Inv := by
  obtain ⟨hp₀, hids⟩ := h.session s hsession
  obtain ⟨region, hthreads⟩ := hthreads
  refine h.frame (fun s'' hs'' => ?_) rfl rfl
  obtain rfl := Option.some.inj hs''
  refine ⟨hp, hids.ioEnds hnext hle hfits hbacked fun t' => ?_⟩
  rw [hthreads, Session.thread_setThread]
  split
  case isTrue => rfl
  case isFalse ht => exact hp₀.other_io hio ht

variable (hs : s.advance y.packset t = some (f, s'))

include hs

lemma Inv.reserving {stage : Stage} (hio : (s.thread t).io = some (.reserving image stage)) :
    { y with packset := f, session := some s' }.Inv := by
  obtain ⟨hthreads, hids⟩ := h.session s hsession
  have hp := hthreads.advance hs
  obtain ⟨hle, hfits, hvisible, hsettled⟩ := hids.io t _ hio
  simp only [Session.advance, hio] at hs
  match stage with
  | .tmpSynced =>
    obtain ⟨rfl, rfl⟩ := Prod.mk.inj (Option.some.inj hs)
    exact h.goesOn hsession hio hp (.inr (.inr ⟨image, rfl, hle, hfits⟩))
      ⟨hle, hfits, fun _ => visible_rename, (nomatch ·)⟩
  | .renamed =>
    obtain ⟨rfl, rfl⟩ := Prod.mk.inj (Option.some.inj hs)
    exact h.goesOn hsession hio hp (.inr (.inl rfl))
      ⟨hle, hfits, (nomatch ·), fun _ => sync_of_visible (hvisible rfl)⟩
  | .rootSynced =>
    obtain ⟨rfl, rfl⟩ := Prod.mk.inj (Option.some.inj hs)
    have hmax : max s.limit image.reserved = image.reserved := Nat.max_eq_right hle
    refine h.ends hsession hio hp (by simp [Session.setIo]) (Nat.le_max_left ..)
      (hmax.trans_le hfits) (fun _ => ?_) ⟨_, fun t' => by cases t' <;> rfl⟩
    rw [hsettled rfl]
    exact ⟨rfl, all_settled.mpr (Nat.le_of_eq hmax)⟩

lemma Inv.checkpointing {stage : Stage}
    (hio : (s.thread t).io = some (.checkpointing image stage)) :
    { y with packset := f, session := some s' }.Inv := by
  obtain ⟨hthreads, hids⟩ := h.session s hsession
  have hp := hthreads.advance hs
  have hlimit : image.reserved = s.limit := hids.io t _ hio
  simp only [Session.advance, hio] at hs
  match stage with
  | .tmpSynced =>
    obtain ⟨rfl, rfl⟩ := Prod.mk.inj (Option.some.inj hs)
    have hfits : image.reserved ≤ kMaxU64 := hlimit ▸ hids.fits.2
    exact h.goesOn hsession hio hp
      (.inr (.inr ⟨image, rfl, Nat.le_of_eq hlimit.symm, hfits⟩)) hlimit
  | .renamed =>
    obtain ⟨rfl, rfl⟩ := Prod.mk.inj (Option.some.inj hs)
    exact h.goesOn hsession hio hp (.inr (.inl rfl)) hlimit
  | .rootSynced =>
    obtain ⟨rfl, rfl⟩ := Prod.mk.inj (Option.some.inj hs)
    exact h.ends hsession hio hp (by simp [Session.setIo]) (by simp [Session.setIo])
      (by simpa [Session.setIo] using hids.fits.2) (by simpa [Session.setIo] using hids.backed)
      ⟨_, fun t' => by cases t' <;> rfl⟩

lemma Inv.recovering {read : Option Packset} {synced : Bool}
    (hio : (s.thread t).io = some (.recovering read synced)) :
    { y with packset := f, session := some s' }.Inv := by
  obtain ⟨hthreads, hids⟩ := h.session s hsession
  have hp := hthreads.advance hs
  have hbacked := hids.io t _ hio
  simp only [Session.advance, hio] at hs
  match read, synced with
  | none, _ =>
    obtain ⟨image, hvisible, himage⟩ := Option.map_eq_some_iff.mp hs
    obtain ⟨rfl, rfl⟩ := Prod.mk.inj himage
    exact h.goesOn hsession hio hp (.inl rfl) ⟨hvisible, (nomatch ·)⟩
  | some image, false =>
    obtain ⟨rfl, rfl⟩ := Prod.mk.inj (Option.some.inj hs)
    exact h.goesOn hsession hio hp (.inr (.inl rfl))
      ⟨visible_sync.trans hbacked.1, fun _ => sync_of_visible hbacked.1⟩
  | some image, true =>
    obtain ⟨rfl, rfl⟩ := Prod.mk.inj (Option.some.inj hs)
    have hsettled : y.packset = .settled image := hbacked.2 rfl
    have hfits : image.reserved ≤ kMaxU64 := (h.reserved.visible hbacked.1).2
    have hnext : (s.recovered t image).nextObjectId = s.nextObjectId :=
      Session.nextObjectId_setThread ..
    refine h.ends hsession hio hp hnext (Nat.le_max_left ..)
      (Nat.max_le_of_le_of_le hids.fits.2 hfits) (fun hlt => ?_)
      ⟨_, fun t' => by cases t' <;> rfl⟩
    -- Either the limit comes from the file, or no id was left below it.
    have hle : s.nextObjectId < s.limit → s.limit ≤ image.reserved := fun hleft =>
      (hids.backed hleft).2.visible hbacked.1
    have hlt' : s.nextObjectId < max s.limit image.reserved := hnext ▸ hlt
    rw [hsettled]
    exact ⟨rfl, all_settled.mpr (Nat.max_le_of_le_of_le (by omega) (Nat.le_refl _))⟩

/-- A thread goes on with its work on the directory, or ends it. -/
lemma Inv.advance : { y with packset := f, session := some s' }.Inv := by
  match hio : (s.thread t).io with
  | none => simp [Session.advance, hio] at hs
  | some (.reserving _ _) => exact h.reserving hsession hs hio
  | some (.checkpointing _ _) => exact h.checkpointing hsession hs hio
  | some (.recovering _ _) => exact h.recovering hsession hs hio

end

lemma Inv.update {g : Session → Option Session} (h : y.Inv) (hy : y.update g = some y')
    (hg : ∀ s s', s.Protocol → s.Ids y.packset y.allocated → g s = some s' →
      s'.Protocol ∧ (s'.Protocol → s'.Ids y.packset y.allocated)) : y'.Inv := by
  obtain ⟨s, hsession, hs⟩ := Option.bind_eq_some_iff.mp hy
  obtain ⟨s', hs', rfl⟩ := Option.map_eq_some_iff.mp hs
  obtain ⟨hp, hids⟩ := h.session s hsession
  obtain ⟨hp', hids'⟩ := hg s s' hp hids hs'
  exact h.frame (fun s'' hs'' => Option.some.inj hs'' ▸ ⟨hp', hids' hp'⟩) rfl rfl

lemma Inv.flagStep {g : Session → Option Session} (hg : g ∈ Session.flagSteps) (h : y.Inv)
    (hy : y.update g = some y') : y'.Inv :=
  h.update hy fun _ _ hp hids hs => ⟨.flagStep hg hp hs, fun _ => .flagStep hg hids hs⟩

lemma Inv.allocateObject {id : ℕ} (h : y.Inv) (hsession : y.session = some s)
    (hs : s.allocateObject = some (id, s')) :
    { y with allocated := id :: y.allocated, session := some s' }.Inv := by
  obtain ⟨hp, hids⟩ := h.session s hsession
  obtain ⟨hids', hnew, hdurable, hall⟩ := hids.allocateObject hs
  refine ⟨List.nodup_cons.mpr ⟨hnew, h.nodup⟩, ?_, fun _ => hdurable, ?_⟩
  · refine (RenamedFile.All.and h.reserved hall).mono fun image himage =>
      ⟨fun id' hid => ?_, himage.1.2⟩
    rcases List.mem_cons.mp hid with rfl | hid
    · exact himage.2
    · exact himage.1.1 id' hid
  · exact fun s'' hs'' => Option.some.inj hs'' ▸ ⟨hp.allocateObject hs, hids'⟩

/-! ### Opening and losing the store -/

lemma Inv.syncRoot (h : y.Inv) : { y with packset := y.packset.sync }.Inv := by
  refine ⟨h.nodup, h.reserved.sync, fun hne => durable_sync (h.durable hne), ?_⟩
  intro s hsession
  obtain ⟨hp, hids⟩ := h.session s hsession
  exact ⟨hp, hids.syncRoot⟩

/-- A crash leaves one of the versions of `PACKSET`. -/
lemma Inv.crash (h : y.Inv) (kept : ℕ) :
    { y with packset := y.packset.crash kept, session := none }.Inv :=
  ⟨h.nodup, h.reserved.crash kept, fun hne => durable_crash (h.durable hne) kept,
    fun _ hs => absurd hs (by simp)⟩

lemma Inv.close (h : y.Inv) : { y with session := none }.Inv :=
  h.frame (fun _ hs => absurd hs (by simp)) rfl rfl

lemma Inv.allocated_eq_nil (h : y.Inv) (hvisible : y.packset.visible = none) :
    y.allocated = [] := by
  by_contra hne
  have hdurable := h.durable hne
  rw [durable_of_visible hvisible] at hdurable
  exact absurd hdurable (by simp)

lemma Inv.bootstrapFails {renamed : Bool} (h : y.Inv) (hy : y.bootstrapFails renamed = some y') :
    y'.Inv := by
  obtain ⟨⟨hsession, hvisible⟩, rfl⟩ := taken_iff.mp hy
  have hnil := h.allocated_eq_nil (Option.isNone_iff_eq_none.mp hvisible)
  split
  case isFalse => exact h
  case isTrue =>
    refine ⟨h.nodup, h.reserved.rename ⟨fun id hid => ?_, by decide⟩, h.durable, ?_⟩
    · rw [hnil] at hid
      exact absurd hid List.not_mem_nil
    · intro s hs
      rw [Option.isNone_iff_eq_none.mp hsession] at hs
      exact absurd hs (by simp)

/-- The ids found in the index only push the next id up. -/
lemma le_foldl_bumpNextId (seen : List ℕ) (next : ℕ) (hnext : next ≤ kMaxU64)
    (hseen : ∀ id ∈ seen, id ≤ kMaxU64) :
    next ≤ seen.foldl bumpNextId next ∧ seen.foldl bumpNextId next ≤ kMaxU64 := by
  induction seen generalizing next with
  | nil => exact ⟨Nat.le_refl _, hnext⟩
  | cons id seen ih =>
    have hid := hseen id List.mem_cons_self
    have hbump : next ≤ bumpNextId next id ∧ bumpNextId next id ≤ kMaxU64 := by
      unfold bumpNextId
      split
      · omega
      · split <;> omega
    obtain ⟨hle, hfits⟩ := ih _ hbump.2 fun id hid => hseen id (List.mem_cons_of_mem _ hid)
    exact ⟨Nat.le_trans hbump.1 hle, hfits⟩

/-- The session that an open begins with. -/
lemma protocol_fresh (next limit epoch : ℕ) : Session.Protocol
    { nextObjectId := next, limit := limit, indexEpoch := epoch } := by
  constructor <;> grind

lemma Inv.openStore {seen later : List ℕ} (h : y.Inv) (hy : y.openStore seen later = some y') :
    y'.Inv := by
  obtain ⟨⟨-, hids⟩, hy'⟩ := Option.ite_none_right_eq_some.mp hy
  have hseen : ∀ id ∈ seen, id ≤ kMaxU64 := fun id hid => hids id (List.mem_append_left _ hid)
  have hlater : ∀ id ∈ later, id ≤ kMaxU64 := fun id hid => hids id (List.mem_append_right _ hid)
  split at hy'
  case h_1 image hvisible =>
    obtain rfl := Option.some.inj hy'
    obtain ⟨hreserved, hfits⟩ := h.reserved.visible hvisible
    refine h.frame (fun s hs => ?_) rfl rfl
    obtain rfl := Option.some.inj hs
    obtain ⟨hle, hnext⟩ := le_foldl_bumpNextId seen _ hfits hseen
    obtain ⟨hle', hnext'⟩ := le_foldl_bumpNextId later _ hnext hlater
    refine ⟨protocol_fresh .., fun id hid => ?_, fun hlt => ?_, ⟨hnext', ?_⟩, fun t io hio => ?_⟩
    · have := hreserved id hid
      dsimp only [Session.opened]
      omega
    · -- Nothing is left of the reservation of an earlier session.
      dsimp only [Session.opened] at hlt
      omega
    · dsimp only [Session.opened]
      omega
    · cases t <;> exact absurd hio (by simp [Session.opened, Session.thread])
  case h_2 hvisible =>
    obtain rfl := Option.some.inj hy'
    have hnil := h.allocated_eq_nil hvisible
    have hsettled := sync_of_visible
      (visible_rename (f := y.packset) (x := Session.bootstrapImage))
    have hone : 1 ≤ kMaxU64 := by decide
    have himage : Session.bootstrapImage.reserved ≤ kMaxU64 := by decide
    obtain ⟨-, hnext⟩ := le_foldl_bumpNextId seen 1 hone hseen
    obtain ⟨hle', hnext'⟩ := le_foldl_bumpNextId later _ hnext hlater
    rw [hsettled, hnil]
    refine ⟨List.nodup_nil, all_settled.mpr ⟨?_, himage⟩, fun _ => rfl, ?_⟩
    · exact fun id hid => absurd hid List.not_mem_nil
    · intro s hs
      obtain rfl := Option.some.inj hs
      refine ⟨protocol_fresh .., fun id hid => absurd hid List.not_mem_nil, fun hlt => ?_,
        ⟨hnext', ?_⟩, fun t io hio => ?_⟩
      · refine ⟨rfl, all_settled.mpr ?_⟩
        dsimp only [Session.bootstrapped] at hlt ⊢
        omega
      · dsimp only [Session.bootstrapped]
        omega
      · cases t <;> exact absurd hio (by simp [Session.bootstrapped, Session.thread])

lemma Inv.fail {readable : Bool} (h : y.Inv) (hsession : y.session = some s)
    (hs : s.fail y.packset t readable = some s') : { y with session := some s' }.Inv := by
  obtain ⟨hp, hids⟩ := h.session s hsession
  refine { h with session := ?_ }
  intro s'' hs''
  obtain rfl := Option.some.inj hs''
  refine ⟨hp.fail hs, ?_⟩
  unfold Session.fail at hs
  split at hs
  case h_1 => exact absurd hs (by simp)
  case h_2 hio =>
    obtain rfl := Option.some.inj hs
    refine hids.frame (by simp [Session.setIo]) (by simp [Session.setIo]) fun t' io hio' => ?_
    cases t <;> cases t' <;> grind
  case h_3 image stage hio =>
    obtain rfl := Option.some.inj hs
    refine hids.frame ?_ ?_ fun t' io hio' => ?_
    · unfold Session.checkpointFails
      cases t <;> grind
    · unfold Session.checkpointFails
      cases t <;> grind
    · unfold Session.checkpointFails at hio'
      cases t <;> cases t' <;> grind
  case h_4 hio =>
    obtain rfl := Option.some.inj hs
    refine hids.frame (Session.nextObjectId_setThread ..) (Session.limit_setThread ..)
      fun t' io hio' => ?_
    unfold Session.recoverFails at hio'
    cases t <;> cases t' <;> grind

/-- Every event keeps the invariant. -/
lemma Inv.step {e : Event} (h : y.Inv) (hy : y.step e = some y') : y'.Inv := by
  match e with
  | .openStore seen later => exact h.openStore hy
  | .bootstrapFails renamed => exact h.bootstrapFails hy
  | .close => exact Option.some.inj hy ▸ h.close
  | .crash kept => exact Option.some.inj hy ▸ h.crash kept
  | .syncRoot => exact Option.some.inj hy ▸ h.syncRoot
  | .requestReclaim | .requestIdleSpill | .shutdownTiers | .pinForSpill | .takeJob | .finishJob =>
    exact Inv.flagStep (by simp [Session.flagSteps]) h hy
  | .workerPrepare =>
    refine h.update hy fun _ _ hp hids hs => ⟨hp.workerPrepare hs, fun _ => ?_⟩
    obtain ⟨-, rfl⟩ := taken_iff.mp hs
    exact hids.prepareSpill .worker
  | .emergencyPrepare =>
    refine h.update hy fun _ _ hp hids hs => ⟨hp.emergencyPrepare hs, fun _ => ?_⟩
    obtain ⟨-, rfl⟩ := taken_iff.mp hs
    exact hids.prepareSpill .owner
  | .installSpill t =>
    exact h.update hy fun _ _ hp hids hs => ⟨hp.installSpill hs, fun _ => hids.installSpill hs⟩
  | .abandonSpill t =>
    exact h.update hy fun _ _ hp hids hs => ⟨hp.abandonSpill hs, fun _ => hids.abandonSpill hs⟩
  | .clearSpill =>
    refine h.update hy fun s _ hp hids hs => ?_
    exact Option.some.inj hs ▸ ⟨hp.clearSpill, fun _ => hids.frame rfl rfl fun t _ => .inl⟩
  | .reserveObjectIds count =>
    exact h.update hy fun _ _ hp hids hs =>
      ⟨hp.reserveObjectIds hs, fun hp' => hids.reserveObjectIds hp' hs⟩
  | .allocateObject =>
    obtain ⟨s, hsession, hs⟩ := Option.bind_eq_some_iff.mp hy
    obtain ⟨⟨id, s'⟩, hs', rfl⟩ := Option.map_eq_some_iff.mp hs
    exact h.allocateObject hsession hs'
  | .checkpointObjectMap t =>
    exact h.update hy fun _ _ hp hids hs =>
      ⟨hp.checkpointObjectMap hs, fun hp' => hids.checkpointObjectMap hp' hs⟩
  | .reclaimObjects t =>
    exact h.update hy fun _ _ hp hids hs =>
      ⟨hp.reclaimObjects hs, fun _ => hids.reclaimObjects hs⟩
  | .clearPendingSync =>
    refine h.update hy fun s _ hp hids hs => ?_
    exact Option.some.inj hs ▸ ⟨hp.clearPendingSync, fun _ => hids.frame rfl rfl fun t _ => .inl⟩
  | .advance t =>
    obtain ⟨s, hsession, hs⟩ := Option.bind_eq_some_iff.mp hy
    obtain ⟨⟨f, s'⟩, hs', rfl⟩ := Option.map_eq_some_iff.mp hs
    exact h.advance hsession hs'
  | .fail t readable =>
    obtain ⟨s, hsession, hs⟩ := Option.bind_eq_some_iff.mp hy
    obtain ⟨s', hs', rfl⟩ := Option.map_eq_some_iff.mp hs
    exact h.fail hsession hs'

/-- A directory that no session has opened yet. -/
lemma inv_new : Inv {} :=
  ⟨List.nodup_nil, all_absent, fun hne => absurd rfl hne,
    fun _ hs => absurd hs (by simp)⟩

/-- Over any run of sessions, crashes, failed and delayed writes of `PACKSET`, checkpoints and
reopenings that starts with a new directory, no object id is allocated twice. -/
theorem object_ids_never_reused {events : List Event}
    (h : Monitor.runFrom System.step {} events = some y) : y.allocated.Nodup := by
  have hinv : y.Inv := Monitor.runFrom_induction (P := fun y _ => y.Inv) inv_new
    (fun _ _ _ _ hy hstep => hy.step hstep) h
  exact hinv.nodup

/-- One spill with an id, a crash before the directory is synced, and a session that reserves anew
after it has found no id in the index. -/
def crashedSpill : List Event :=
  [.openStore [] [], .requestIdleSpill, .pinForSpill, .workerPrepare, .installSpill .worker,
    .takeJob, .reserveObjectIds 1, .allocateObject, .crash 0,
    .openStore [] [], .requestIdleSpill, .pinForSpill, .workerPrepare, .installSpill .worker,
    .takeJob, .reserveObjectIds 1, .advance .worker, .advance .worker, .advance .worker,
    .allocateObject]

theorem object_ids_never_reused_crashedSpill :
    ∃ y, Monitor.runFrom System.step {} crashedSpill = some y ∧ y.allocated = [65537, 1] ∧
      y.allocated.Nodup := by
  have hrun : ∃ y, Monitor.runFrom System.step {} crashedSpill = some y ∧
      y.allocated = [65537, 1] := ⟨_, rfl, rfl⟩
  obtain ⟨y, hy, hallocated⟩ := hrun
  exact ⟨y, hy, hallocated, object_ids_never_reused hy⟩

end System

end NInfer.ObjectIds
