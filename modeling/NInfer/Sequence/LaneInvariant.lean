import NInfer.Sequence.Rounds

/-!
# What the operations keep of a lane

Many calls move a lane's frontiers, each writing several fields one after the other: a prefill that
completes, a round that is accepted, rejected or cancelled, a lane that is retained, a cancelled
prefill that is reverted, a sequence that comes back from a host tier or is forked.

`LaneOk` says what holds of a lane in each phase of its life.  A prefill only keeps its checkpoints
within its cursor, since completing it checks the extents; a pending round is described by the lane
as it will be once its frontier moves.  Inside a `try` nothing is claimed about the lane that a
throw leaves behind: the handler clears it, and a cleared lane is always `LaneOk`.
-/

namespace NInfer.Sequence

open Throwing
open Prefix (ResidentPrefixIdentity prefixMatches le_of_prefixMatches)
open Prefill (PrefixReusePath PrefillPace selectPrefillChunk_le_remaining)

/-! ## Invariants -/

/-- No checkpoint of `c` lies beyond `frontier`. -/
structure Continuation.CheckpointsWithin (c : Continuation) (frontier : ℕ) : Prop where
  rewrite : c.rewriteCheckpoint.valid = true → c.rewriteCheckpoint.frontier ≤ frontier
  heads : ∀ head ∈ c.contextCheckpoints, head.frontier ≤ frontier

lemma Continuation.CheckpointsWithin.mono {c : Continuation} {f g : ℕ}
    (h : c.CheckpointsWithin f) (hle : f ≤ g) : c.CheckpointsWithin g :=
  ⟨fun hvalid => (h.rewrite hvalid).trans hle, fun head hhead => (h.heads head hhead).trans hle⟩

/-- A sequence at its execution frontier: one ledger token has been produced and not executed. -/
structure Continuation.Committed (c : Continuation) : Prop where
  ledger : c.ledger.length = c.executionFrontier + 1
  identity : c.prefixIdentity.size = c.executionFrontier + 1
  ledgerFrontier : c.ledgerFrontier = c.executionFrontier + 1
  text : c.textKvValid = c.executionFrontier
  checkpoints : c.CheckpointsWithin c.executionFrontier

/-- What the backend extents are while the lane decodes.  MTP has a slot for every executed token;
the DFlash context is completed by the next round, from at most one verify width behind. -/
def Continuation.BackendCurrent (p : Program) (c : Continuation) : Prop :=
  match p.options.backend with
  | .none => True
  | .mtp => c.mtpKvValid = c.executionFrontier
  | .dflash => c.dflashContextFrontier ≤ c.executionFrontier ∧
      c.executionFrontier ≤ c.dflashContextFrontier + p.dflashVerifyWidth

/-- What the backend extents are once the sequence is retained: a sequence reverted to a checkpoint
lacks the MTP slot that a prefill bridges. -/
def Continuation.BackendRetained (p : Program) (c : Continuation) : Prop :=
  match p.options.backend with
  | .mtp => c.mtpKvValid = c.executionFrontier ∨ c.mtpKvValid + 1 = c.executionFrontier
  | _ => c.BackendCurrent p

/-- The frontiers of a lane agree. -/
structure FrontiersAgree (p : Program) (lane : Lane) : Prop where
  ledger : lane.ledger.length = lane.executionFrontier + 1
  identity : lane.prefixIdentity.size = lane.executionFrontier + 1
  ledgerFrontier : lane.ledgerFrontier = lane.executionFrontier + 1
  text : lane.textKvValid = lane.executionFrontier
  backend : if lane.lifecycle = .active then lane.BackendCurrent p else lane.BackendRetained p
  rewrite : lane.rewriteCheckpoint.valid = true →
    lane.rewriteCheckpoint.frontier ≤ lane.executionFrontier
  heads : ∀ head ∈ lane.contextCheckpoints, head.frontier ≤ lane.executionFrontier

/-- `c` with its frontiers moved to `frontier`. -/
def Continuation.movedTo (c : Continuation) (frontier : ℕ) : Continuation :=
  { c with executionFrontier := frontier, ledgerFrontier := frontier + 1 }

/-- A staged prefill and its lane. -/
structure PrefillOk (p : Program) (lane : Lane) (staged : StagedPrefill) : Prop where
  ledger : lane.ledger.length = staged.promptTokens
  identity : lane.prefixIdentity.size = staged.promptTokens
  cursor : staged.cursor ≤ staged.promptTokens
  prepareMtp : staged.prepareMtp = decide (p.options.backend = .mtp)
  checkpoints : lane.CheckpointsWithin staged.cursor
  unpacked : lane.tierUnpackedContextBase = 0

/-- A round waits for its resolution: the lane is committed at the frontier it offers. -/
def Offered (p : Program) (lane : Lane) : Prop :=
  match lane.pending.kind with
  | .begin => (lane.movedTo lane.pending.promptTokens).Committed ∧
      (lane.movedTo lane.pending.promptTokens).BackendCurrent p
  | .ordinary => p.options.backend = .none ∧ lane.pending.baseS = lane.pending.baseE + 1 ∧
      (lane.movedTo (lane.pending.baseE + lane.pending.produced)).Committed
  | .speculative => p.options.backend ≠ .none ∧ lane.Committed ∧ lane.BackendCurrent p ∧
      lane.pending.baseE = lane.executionFrontier ∧
      lane.pending.baseS = lane.executionFrontier + 1 ∧
      lane.pending.produced ≤ speculativeWidth p
  | .none => False

/-- The invariant of a lane, by phase. -/
structure LaneOk (p : Program) (lane : Lane) : Prop where
  retained : lane.retained = true ↔ lane.lifecycle = .complete
  unforked : lane.forkInitialized = false
  empty : lane.lifecycle = .empty →
    lane.rewriteCheckpoint.valid = false ∧ lane.contextCheckpoints = []
  prefilling : lane.lifecycle = .prefilling →
    ∃ staged, lane.prefill = some staged ∧ PrefillOk p lane staged
  active : lane.lifecycle = .active → lane.Committed ∧ lane.BackendCurrent p
  pending : lane.lifecycle = .pending → Offered p lane
  complete : lane.lifecycle = .complete → lane.Committed ∧ lane.BackendRetained p

lemma Continuation.BackendCurrent.retained {p : Program} {c : Continuation}
    (h : c.BackendCurrent p) : c.BackendRetained p := by
  unfold BackendRetained
  split
  · next hbackend =>
    unfold BackendCurrent at h
    rw [hbackend] at h
    exact .inl h
  · exact h

/-- The phase a lane is in decides what has to hold of it. -/
def Lane.Meets (p : Program) (lane : Lane) : Lifecycle → Prop
  | .empty => lane.rewriteCheckpoint.valid = false ∧ lane.contextCheckpoints = []
  | .prefilling => ∃ staged, lane.prefill = some staged ∧ PrefillOk p lane staged
  | .active => lane.Committed ∧ lane.BackendCurrent p
  | .pending => Offered p lane
  | .complete => lane.Committed ∧ lane.BackendRetained p

lemma LaneOk.of_phase {p : Program} {lane : Lane} {phase : Lifecycle}
    (hlane : lane.lifecycle = phase) (hretained : lane.retained = decide (phase = .complete))
    (hunforked : lane.forkInitialized = false) (hphase : lane.Meets p phase) : LaneOk p lane := by
  subst hlane
  refine ⟨by simp [hretained], hunforked, ?_, ?_, ?_, ?_, ?_⟩ <;> intro hlane <;>
    rwa [hlane] at hphase

lemma LaneOk.cleared (p : Program) (lane : Lane) : LaneOk p lane.cleared :=
  of_phase rfl rfl rfl ⟨rfl, rfl⟩

lemma LaneOk.frontiersAgree {p : Program} {lane : Lane} (h : LaneOk p lane)
    (hlane : lane.lifecycle = .active ∨ lane.lifecycle = .complete) : FrontiersAgree p lane := by
  rcases hlane with hlane | hlane
  · obtain ⟨hcommitted, hbackend⟩ := h.active hlane
    exact { hcommitted, hcommitted.checkpoints with
      backend := by rw [if_pos hlane]; exact hbackend }
  · obtain ⟨hcommitted, hbackend⟩ := h.complete hlane
    exact { hcommitted, hcommitted.checkpoints with
      backend := by rw [if_neg (by simp [hlane])]; exact hbackend }

lemma LaneOk.not_retained {p : Program} {lane : Lane} (h : LaneOk p lane)
    (hlane : lane.lifecycle ≠ .complete) : lane.retained = false := by
  have := mt h.retained.mp hlane
  simpa using this

/-! ## Failures clear the lane -/

section

variable {p : Program} {lane : Lane} {staged : StagedPrefill} {prompt : Prompt} {plan : RequestPlan}
  {occupation : Occupation} {options : BaseOptions} {hashMatches : ContextCheckpointHead → Bool}
  {row : Resolution} {identity : ResidentPrefixIdentity} {failure : Option Error}
  {E : Error → Lane → Prop}

@[simp] lemma wp_deviceWork {σ : Type} {Q : Unit → σ → Prop} {E : Error → σ → Prop} {s : σ}
    (failure : Option Error) :
    wp (deviceWork failure) Q E s ↔ (failure = none → Q () s) ∧ ∀ e, failure = some e → E e s := by
  cases failure <;> simp [deviceWork]

@[simp] lemma wp_identityCall {Q : ResidentPrefixIdentity → Lane → Prop}
    (x : Except Prefix.Exception ResidentPrefixIdentity) :
    wp (identityCall x) Q E lane ↔
      (∀ identity, x = .ok identity → Q identity lane) ∧
        ∀ e, x = .error e → E (.identity e) lane :=
  wp_ofExcept _ _

variable {frontier : ℕ} {backendImagePresent : Bool} {view : Option Continuation}
    {Q : Unit → Lane → Prop} {source : ReuseSource} {selected : ReuseSelection} {terminal : Bool}
    {best : ReuseSelection} {state : Continuation} {image : Continuation} {cursor : ℕ}

lemma wp_clearLane (h : Q () lane.cleared) : wp clearLane Q E lane := h

/-- A handler that clears the lane needs no promise about the state it is entered in. -/
lemma wp_orClear {m : LaneM Unit} (h : wp m (fun _ => LaneOk p) (fun _ _ => True) lane) :
    wp (orClear m) (fun _ => LaneOk p) (fun _ => LaneOk p) lane := by
  rw [orClear, wp_tryCatch]
  refine wp_mono h (fun _ _ h => h) (fun e lane' _ => ?_)
  rw [wp_bind]
  exact wp_clearLane (LaneOk.cleared p lane')

lemma wp_evictRetainedLane (h : lane.retained = true → Q () lane.cleared)
    (h' : lane.retained = false → Q () lane) : wp evictRetainedLane Q E lane := by
  rw [evictRetainedLane, wp_modify]
  split
  · next hretained => exact h hretained
  · next hretained => exact h' (by simpa using hretained)

/-! ## Prefill -/

lemma PrefillOk.bridged (h : PrefillOk p lane staged) :
    PrefillOk p
      { lane with
        mtpKvValid := staged.base, prefill := some { staged with mtpBridge := .none } }
      { staged with mtpBridge := .none } :=
  { h with checkpoints := { h.checkpoints with } }

/-- What the part of a step before its device work leaves: a staged prefill of the lane. -/
structure Stepping (p : Program) (lane : Lane) (staged : StagedPrefill) : Prop where
  retained : lane.retained = false
  unforked : lane.forkInitialized = false
  lifecycle : lane.lifecycle = .prefilling
  stagedAs : lane.prefill = some staged
  prefill : PrefillOk p lane staged

lemma Stepping.laneOk (h : Stepping p lane staged) : LaneOk p lane :=
  LaneOk.of_phase h.lifecycle h.retained h.unforked ⟨staged, h.stagedAs, h.prefill⟩

lemma LaneOk.stepping (h : LaneOk p lane) (hlifecycle : lane.lifecycle = .prefilling)
    (hstaged : lane.prefill = some staged) : Stepping p lane staged := by
  obtain ⟨staged', hstaged', hprefill⟩ := h.prefilling hlifecycle
  obtain rfl : staged' = staged := by
    rw [hstaged] at hstaged'
    exact (Option.some.inj hstaged').symm
  exact ⟨h.not_retained (by simp [hlifecycle]), h.unforked, hlifecycle, hstaged, hprefill⟩

lemma wp_stagedPrefill {Q : StagedPrefill → Lane → Prop} (hok : LaneOk p lane)
    (h : ∀ staged, Stepping p lane staged → Q staged lane) (hthrow : ∀ e, E e lane) :
    wp stagedPrefill Q E lane := by
  rw [stagedPrefill, wp_bind, wp_get]
  split
  · next staged hstaged =>
    obtain ⟨hstaged, hlifecycle⟩ := Option.filter_eq_some_iff.mp hstaged
    exact h staged (hok.stepping (by simpa using hlifecycle) hstaged)
  · exact hthrow _

lemma wp_bridgeBeforeSuffix (h : Stepping p lane staged) :
    wp (bridgeBeforeSuffix staged) (fun staged' lane' => Stepping p lane' staged')
      (fun _ _ => True) lane := by
  unfold bridgeBeforeSuffix
  split
  · simp only [wp_bind, wp_throwIf, implies_true, true_and]
    intro _
    exact ⟨h.retained, h.unforked, h.lifecycle, rfl, h.prefill.bridged⟩
  · exact h

lemma wp_beforeChunk (h : LaneOk p lane) :
    wp beforeChunk (fun staged lane' => Stepping p lane' staged) (fun _ _ => True) lane := by
  rw [beforeChunk, wp_bind]
  exact wp_stagedPrefill h (fun staged hstaged => wp_bridgeBeforeSuffix hstaged)
    (fun _ => trivial)

lemma PrefillOk.extendTo (h : PrefillOk p lane staged) (hle : staged.cursor ≤ cursor)
    (hcursor : cursor ≤ staged.promptTokens) :
    PrefillOk p (lane.extendTo p staged cursor) { staged with cursor } where
  ledger := h.ledger
  identity := h.identity
  cursor := hcursor
  prepareMtp := h.prepareMtp
  checkpoints := ⟨(h.checkpoints.mono hle).rewrite, (h.checkpoints.mono hle).heads⟩
  unpacked := h.unpacked

/-- A new head at `frontier` among heads within it. -/
lemma heads_append {heads : List ContextCheckpointHead} {kind : ContextCheckpointKind}
    (h : ∀ head ∈ heads, head.frontier ≤ frontier) :
    ∀ head ∈ heads ++ [⟨frontier, kind⟩], head.frontier ≤ frontier := by
  intro head hhead
  rcases List.mem_append.mp hhead with hhead | hhead
  · exact h head hhead
  · rw [List.mem_singleton.mp hhead]

lemma Stepping.freeze (h : Stepping p lane staged) (freezes : Bool) :
    Stepping p (lane.maybeFreezeContextCheckpoint staged staged.cursor freezes) staged := by
  unfold Lane.maybeFreezeContextCheckpoint
  split
  · have hprefill := h.prefill
    exact ⟨h.retained, h.unforked, h.lifecycle, h.stagedAs, hprefill.ledger, hprefill.identity,
      hprefill.cursor, hprefill.prepareMtp,
      ⟨hprefill.checkpoints.rewrite, heads_append hprefill.checkpoints.heads⟩, hprefill.unpacked⟩
  · exact h

lemma Stepping.captureRewriteAt (h : Stepping p lane staged) (spec : RewriteCheckpointSpec) :
    Stepping p (lane.captureRewriteAt spec staged.cursor) staged := by
  unfold Lane.captureRewriteAt
  split
  · next hreached =>
    have hprefill := h.prefill
    exact ⟨h.retained, h.unforked, h.lifecycle, h.stagedAs, hprefill.ledger, hprefill.identity,
      hprefill.cursor, hprefill.prepareMtp, ⟨fun _ => hreached, hprefill.checkpoints.heads⟩,
      hprefill.unpacked⟩
  · exact h

lemma wp_captureRewrite (h : Stepping p lane { staged with cursor }) (hE : ∀ e lane', E e lane') :
    wp (captureRewrite staged cursor)
      (fun _ lane' => Stepping p lane' { staged with cursor }) E lane := by
  unfold captureRewrite
  split
  · exact h
  · next spec _ =>
    simp only [wp_bind, wp_throwIf]
    exact ⟨fun _ => hE _ _, fun _ => h.captureRewriteAt spec⟩

/-- A committed chunk leaves the prefill at a new cursor. -/
lemma wp_commitChunk (pace : PrefillPace) (chunk : Chunk) (h : Stepping p lane staged)
    (hcursor : staged.cursor < staged.promptTokens) :
    wp (commitChunk p pace staged chunk)
      (fun _ lane' => ∃ cursor, Stepping p lane' { staged with cursor }) (fun _ _ => True)
      lane := by
  rw [commitChunk]
  simp only [wp_bind, wp_throwIf, wp_modify, implies_true, true_and]
  intro hprogress
  push Not at hprogress
  have hnominal := hprogress.2.trans selectPrefillChunk_le_remaining
  have hextended : Stepping p (lane.extendTo p staged (staged.cursor + chunk.processedTokens))
      { staged with cursor := staged.cursor + chunk.processedTokens } :=
    ⟨h.retained, h.unforked, h.lifecycle, rfl,
      h.prefill.extendTo (Nat.le_add_right _ _) (by omega)⟩
  refine wp_imp (wp_captureRewrite (hextended.freeze chunk.freezes) fun _ _ => trivial)
    fun _ lane' hlane' => ?_
  simp only [wp_bind, wp_throwIf, implies_true, true_and]
  intro _ _
  exact ⟨_, hlane'⟩

/-- A lane whose prompt is resident, before its first token is added. -/
structure Prefilled (p : Program) (lane : Lane) (staged : StagedPrefill) : Prop where
  retained : lane.retained = false
  unforked : lane.forkInitialized = false
  ledger : lane.ledger.length = staged.promptTokens
  identity : lane.prefixIdentity.size = staged.promptTokens
  prepareMtp : staged.prepareMtp = decide (p.options.backend = .mtp)
  checkpoints : lane.CheckpointsWithin staged.promptTokens

lemma Stepping.prefilled (h : Stepping p lane { staged with cursor }) :
    Prefilled p lane staged :=
  ⟨h.retained, h.unforked, h.prefill.ledger, h.prefill.identity, h.prefill.prepareMtp,
    h.prefill.checkpoints.mono h.prefill.cursor⟩

/-- The captured rewrite checkpoint lies in the prompt, and nothing else changes. -/
lemma wp_finishRewriteCapture (h : lane.CheckpointsWithin staged.promptTokens) :
    wp (finishRewriteCapture p staged)
      (fun _ lane' => ∃ rewrite : RewriteCheckpoint,
        lane' = { lane with rewriteCheckpoint := rewrite } ∧
          (rewrite.valid = true → rewrite.frontier ≤ staged.promptTokens))
      (fun _ _ => True) lane := by
  unfold finishRewriteCapture
  split
  · exact ⟨lane.rewriteCheckpoint, rfl, h.rewrite⟩
  · next spec _ =>
    simp only [wp_bind, wp_get, wp_throwIf, wp_modify, implies_true, true_and]
    intro hmaterialized _ _
    push Not at hmaterialized
    exact ⟨_, rfl, fun _ => hmaterialized.2.1⟩

/-- The extents that completing a prefill has checked are those of a decoding lane. -/
lemma backendCurrent_of_checked {c : Continuation}
    (hprepare : staged.prepareMtp = decide (p.options.backend = .mtp))
    (hmtp : ¬(staged.prepareMtp = true ∧ c.mtpKvValid ≠ staged.promptTokens))
    (hdflash : ¬(¬staged.prepareMtp = true ∧ p.options.backend = .dflash ∧
      c.dflashContextFrontier ≠ staged.promptTokens)) :
    (c.movedTo staged.promptTokens).BackendCurrent p := by
  unfold Continuation.BackendCurrent
  split
  · trivial
  · next hbackend =>
    rw [hbackend] at hprepare
    by_contra hne
    exact hmtp ⟨hprepare, hne⟩
  · next hbackend =>
    rw [hbackend] at hprepare
    have hat : c.dflashContextFrontier = staged.promptTokens := by
      by_contra hne
      exact hdflash ⟨by simp [hprepare], hbackend, hne⟩
    show c.dflashContextFrontier ≤ staged.promptTokens ∧
      staged.promptTokens ≤ c.dflashContextFrontier + p.dflashVerifyWidth
    omega

lemma wp_completePrefill (token : BitVec 32) (h : Prefilled p lane staged) :
    wp (completePrefill p staged token) (fun _ => LaneOk p) (fun _ _ => True) lane := by
  rw [completePrefill]
  simp only [wp_bind, wp_get, wp_throwIf, wp_identityCall, wp_modify, implies_true, true_and,
    and_true]
  intro _ identity hidentity hmtp hdflash
  refine wp_imp (wp_finishRewriteCapture { h.checkpoints with })
    fun _ lane' hlane' => ?_
  obtain ⟨rewrite, rfl, hrewrite⟩ := hlane'
  refine LaneOk.of_phase rfl h.retained h.unforked ⟨?_, ?_⟩
  · exact
      { ledger := by simp [Continuation.movedTo, h.ledger]
        identity := by
          show identity.size = staged.promptTokens + 1
          rw [ResidentPrefixIdentity.size_appendGenerated hidentity, h.identity]
        ledgerFrontier := rfl
        text := rfl
        checkpoints := ⟨hrewrite, h.checkpoints.heads⟩ }
  · exact backendCurrent_of_checked h.prepareMtp hmtp hdflash

lemma wp_sampleExactHit (h : Prefilled p lane staged) :
    wp (sampleExactHit staged) (fun _ lane' => Prefilled p lane' staged) (fun _ _ => True)
      lane := by
  rw [sampleExactHit]
  simp only [wp_bind, wp_get, wp_throwIf, implies_true, true_and]
  intro _ _
  exact { h with checkpoints := { h.checkpoints with } }

lemma wp_afterChunk (pace : PrefillPace) (chunk : Chunk) (h : Stepping p lane staged) :
    wp (afterChunk p pace staged chunk) (fun _ => LaneOk p) (fun _ _ => True) lane := by
  unfold afterChunk
  split
  · next hcursor =>
    rw [wp_bind]
    refine wp_imp (wp_commitChunk pace chunk h hcursor) fun _ lane' hlane' => ?_
    obtain ⟨cursor, hstepping⟩ := hlane'
    split
    · exact wp_completePrefill chunk.token hstepping.prefilled
    · exact hstepping.laneOk
  · have hstepping : Stepping p lane { staged with cursor := staged.cursor } := h
    rw [wp_bind]
    exact wp_imp (wp_sampleExactHit hstepping.prefilled)
      fun _ lane' hlane' => wp_completePrefill chunk.token hlane'

/-- A step of a prefill. -/
lemma wp_advancePrefill (pace : PrefillPace) (chunk : Chunk) (h : LaneOk p lane) :
    wp (advancePrefill p pace chunk) (fun _ => LaneOk p) (fun _ => LaneOk p) lane := by
  rw [advancePrefill, wp_bind, wp_discard]
  refine wp_stagedPrefill h (fun _ _ => wp_orClear ?_) (fun _ => h)
  rw [wp_bind]
  refine wp_imp (wp_beforeChunk h) fun staged lane' hlane' => ?_
  rw [wp_bind, wp_deviceWork]
  exact ⟨fun _ => wp_afterChunk pace chunk hlane', fun _ _ => trivial⟩

/-! ## Occupying a lane -/

/-- A lane from which the plan may start: what the reuse decision and the executor see to. -/
structure Startable (p : Program) (plan : RequestPlan) (lane : Lane) : Prop where
  prepareMtp : plan.prepareMtp = decide (p.options.backend = .mtp)
  base : plan.reuse = .fullReset → plan.reuseBase = 0
  /-- Where occupying does not look at the rewrite checkpoint, it is behind the base. -/
  rewrite : lane.forkInitialized = true ∨ plan.reuse = .fullReset ∨
      plan.reuse = .appendAtFrontier →
    lane.rewriteCheckpoint.valid = true → lane.rewriteCheckpoint.frontier ≤ plan.reuseBase
  heads : lane.forkInitialized = true → lane.contextCheckpoints = []

/-- What the checks on the plan establish. -/
structure PlanChecked (prompt : Prompt) (plan : RequestPlan) (lane : Lane) : Prop where
  base : plan.reuse ≠ .fullReset → plan.reuseBase ≤ prompt.tokens
  rewrite : lane.forkInitialized = false → isRewriteCheckpointRestore plan.reuse = true →
    lane.rewriteCheckpoint.frontier = plan.reuseBase

lemma wp_requirePlan (h : PlanChecked prompt plan lane → Q () lane) :
    wp (requirePlan prompt plan) Q (fun _ _ => True) lane := by
  rw [requirePlan]
  simp only [wp_bind, wp_get, wp_throwIf, implies_true, true_and]
  intro _ _ hreusable _ hrewrite _ _ _ _ _ _
  refine h ⟨fun hreset => ?_, fun hunforked hrestore => ?_⟩
  · push Not at hreusable
    have hmatch := (hreusable hreset).2
    exact (le_of_prefixMatches hmatch).1
  · push Not at hrewrite
    exact (hrewrite (by simp [hunforked]) hrestore).2.1

/-- A lane that occupying has brought to the plan's base. -/
structure Occupied (plan : RequestPlan) (lane : Lane) : Prop where
  retained : lane.retained = false
  unforked : lane.forkInitialized = false
  checkpoints : lane.CheckpointsWithin plan.reuseBase

lemma Occupied.pinTurnRollback (h : Occupied plan lane) (headAvailable : Bool) :
    Occupied plan (lane.pinTurnRollback plan.reuseBase headAvailable) := by
  unfold Lane.pinTurnRollback
  split
  · refine ⟨h.retained, h.unforked, h.checkpoints.rewrite, heads_append fun head hhead => ?_⟩
    exact h.checkpoints.heads head (List.mem_of_mem_eraseP hhead)
  · split
    · exact ⟨h.retained, h.unforked, h.checkpoints.rewrite, heads_append h.checkpoints.heads⟩
    · exact h

lemma wp_maybeCaptureTurnRollback {cutRestore : Bool} (h : Occupied plan lane) :
    wp (maybeCaptureTurnRollback prompt plan occupation cutRestore)
      (fun _ => Occupied plan) E lane := by
  rw [maybeCaptureTurnRollback, wp_modify]
  dsimp only
  split
  · exact h
  · split
    · exact h
    · exact h.pinTurnRollback _

/-- A sequence continued from the base keeps the heads within it. -/
lemma Occupied.continueFrom (hretained : lane.retained = false)
    (hunforked : lane.forkInitialized = false)
    (hrewrite : lane.rewriteCheckpoint.valid = true →
      lane.rewriteCheckpoint.frontier ≤ plan.reuseBase) :
    Occupied plan (lane.continueFrom plan.reuseBase) := by
  refine ⟨hretained, hunforked, hrewrite, fun head hhead => ?_⟩
  simpa using (List.mem_filter.mp hhead).2

/-- The checkpoints and flags that moving an extent does not touch. -/
structure Kept (lane lane' : Lane) : Prop where
  retained : lane'.retained = lane.retained
  unforked : lane'.forkInitialized = lane.forkInitialized
  rewrite : lane'.rewriteCheckpoint = lane.rewriteCheckpoint
  heads : lane'.contextCheckpoints = lane.contextCheckpoints

lemma Kept.trans {lane' lane'' : Lane} (h : Kept lane lane') (h' : Kept lane' lane'') :
    Kept lane lane'' :=
  ⟨h'.retained.trans h.retained, h'.unforked.trans h.unforked, h'.rewrite.trans h.rewrite,
    h'.heads.trans h.heads⟩

lemma wp_rewindMtp (shorter : String) :
    wp (rewindMtp plan shorter) (fun _ => Kept lane) (fun _ _ => True) lane := by
  rw [rewindMtp]
  simp only [wp_bind, wp_get, wp_throwIf, implies_true, true_and]
  exact fun _ => ⟨rfl, rfl, rfl, rfl⟩

lemma wp_rewindDFlash (unavailable : String) :
    wp (rewindDFlash p plan unavailable) (fun _ => Kept lane) (fun _ _ => True) lane := by
  rw [rewindDFlash]
  simp only [wp_bind, wp_get, wp_throwIf, implies_true, true_and]
  exact fun _ => ⟨rfl, rfl, rfl, rfl⟩

lemma wp_rewindBackend (shorter unavailable : String) :
    wp (rewindBackend p plan shorter unavailable) (fun _ => Kept lane) (fun _ _ => True)
      lane := by
  unfold rewindBackend
  split
  · exact ⟨rfl, rfl, rfl, rfl⟩
  · exact wp_rewindMtp shorter
  · exact wp_rewindDFlash unavailable

lemma wp_appendBackend : wp (appendBackend p plan) (fun _ => Kept lane) (fun _ _ => True) lane := by
  unfold appendBackend
  split
  · exact ⟨rfl, rfl, rfl, rfl⟩
  · exact wp_rewindMtp _
  · simp only [wp_bind, wp_get, wp_throwIf, implies_true, true_and]
    exact fun _ => ⟨rfl, rfl, rfl, rfl⟩

/-- Restoring a head moves the DFlash context to it, unless a host tier unpacked it already. -/
lemma wp_restoreContextCheckpointState {base : ℕ} {unpackedHashMatches : Bool} :
    wp (restoreContextCheckpointState p base unpackedHashMatches)
      (fun _ lane' => Kept lane lane' ∧ lane'.ledger = lane.ledger ∧
        lane'.prefixIdentity = lane.prefixIdentity ∧ lane'.kv = lane.kv ∧
        (lane.tierUnpackedContextBase ≠ base → p.options.backend = .dflash →
          lane'.dflashContextFrontier = base))
      (fun _ _ => True) lane := by
  rw [restoreContextCheckpointState, wp_bind, wp_get]
  split
  · rw [wp_throwIf]
    refine ⟨fun _ => trivial, fun hunpacked => ⟨⟨rfl, rfl, rfl, rfl⟩, rfl, rfl, rfl, ?_⟩⟩
    exact fun hne => absurd hne hunpacked
  · next head hhead =>
    have hbase : head.frontier = base := by simpa using List.find?_some hhead
    split
    · next hunpacked =>
      exact ⟨⟨rfl, rfl, rfl, rfl⟩, rfl, rfl, rfl, fun hne => absurd hunpacked.1 hne⟩
    · refine ⟨⟨rfl, rfl, rfl, rfl⟩, rfl, rfl, rfl, fun _ hbackend => ?_⟩
      show (if p.options.backend = .dflash then head.frontier else _) = base
      rw [if_pos hbackend, hbase]

/-- Only the rewrite checkpoint changes; if it is still valid, it was kept and is not ahead. -/
lemma dropRewriteAhead_spec (lane : Lane) (base : ℕ) :
    ∃ rewrite, lane.dropRewriteAhead base = { lane with rewriteCheckpoint := rewrite } ∧
      (rewrite.valid = true → rewrite = lane.rewriteCheckpoint ∧ rewrite.frontier ≤ base) := by
  unfold Lane.dropRewriteAhead
  split
  · exact ⟨_, rfl, by simp⟩
  · next hbehind =>
    exact ⟨_, rfl, fun hvalid => ⟨rfl, Nat.not_lt.mp fun hahead => hbehind ⟨hvalid, hahead⟩⟩⟩

section

variable (hretained : lane.retained = false)

include hretained

lemma wp_occupyAppend (hunforked : lane.forkInitialized = false)
    (hrewrite : lane.rewriteCheckpoint.valid = true →
      lane.rewriteCheckpoint.frontier ≤ plan.reuseBase) :
    wp (occupyAppend p prompt plan occupation) (fun _ => Occupied plan) (fun _ _ => True)
      lane := by
  rw [occupyAppend]
  simp only [wp_bind, wp_get, wp_throwIf, implies_true, true_and]
  intro _ _
  refine wp_imp wp_appendBackend fun _ lane' hkept => ?_
  rw [wp_bind, wp_modify]
  apply wp_maybeCaptureTurnRollback
  apply Occupied.continueFrom (hkept.retained.trans hretained) (hkept.unforked.trans hunforked)
  rw [hkept.rewrite]
  exact hrewrite

lemma wp_occupyRewriteCheckpoint (hunforked : lane.forkInitialized = false)
    (hrewrite : lane.rewriteCheckpoint.frontier = plan.reuseBase) :
    wp (occupyRewriteCheckpoint p prompt plan occupation) (fun _ => Occupied plan)
      (fun _ _ => True) lane := by
  rw [occupyRewriteCheckpoint]
  simp only [wp_bind, wp_get, wp_throwIf, implies_true, true_and]
  intro _
  refine wp_imp (wp_rewindBackend _ _) fun _ lane' hkept => ?_
  rw [wp_bind, wp_modify]
  apply wp_maybeCaptureTurnRollback
  apply Occupied.continueFrom
  · exact hkept.retained.trans hretained
  · exact hkept.unforked.trans hunforked
  · intro _
    rw [hkept.rewrite, hrewrite]

lemma wp_occupyContextCheckpoint (hunforked : lane.forkInitialized = false) :
    wp (occupyContextCheckpoint p prompt plan occupation) (fun _ => Occupied plan)
      (fun _ _ => True) lane := by
  rw [occupyContextCheckpoint]
  simp only [wp_bind, wp_get, wp_throwIf, implies_true, true_and]
  intro _
  refine wp_imp (wp_rewindBackend _ _) fun _ lane' hkept => ?_
  rw [wp_bind]
  refine wp_imp wp_restoreContextCheckpointState fun _ lane'' hrestored => ?_
  have hkept := hkept.trans hrestored.1
  rw [wp_bind, wp_modify]
  apply wp_maybeCaptureTurnRollback
  obtain ⟨rewrite, heq, hrewrite⟩ := dropRewriteAhead_spec lane'' plan.reuseBase
  rw [heq]
  exact Occupied.continueFrom (hkept.retained.trans hretained) (hkept.unforked.trans hunforked)
    fun hvalid => (hrewrite hvalid).2

/-- Whatever the reuse path, occupying leaves no checkpoint beyond the base. -/
lemma wp_occupy (hstart : Startable p plan lane) (hchecked : PlanChecked prompt plan lane) :
    wp (occupy p prompt plan occupation) (fun _ => Occupied plan) (fun _ _ => True) lane := by
  rw [occupy, wp_bind, wp_get]
  split
  · next hfork =>
    refine ⟨hretained, rfl, hstart.rewrite (.inl hfork), fun head hhead => ?_⟩
    have hheads : lane.contextCheckpoints = [] := hstart.heads hfork
    exact absurd (hheads ▸ hhead) List.not_mem_nil
  · next hfork =>
    have hunforked : lane.forkInitialized = false := by simpa using hfork
    split
    · next hreset =>
      refine ⟨hretained, hunforked, hstart.rewrite (.inr (.inl hreset)), fun head hhead => ?_⟩
      exact absurd hhead List.not_mem_nil
    · next happend =>
      exact wp_occupyAppend hretained hunforked (hstart.rewrite (.inr (.inr happend)))
    · next hrestore =>
      exact wp_occupyRewriteCheckpoint hretained hunforked
        (hchecked.rewrite hunforked (by simp [isRewriteCheckpointRestore, hrestore]))
    · next hrestore =>
      exact wp_occupyRewriteCheckpoint hretained hunforked
        (hchecked.rewrite hunforked (by simp [isRewriteCheckpointRestore, hrestore]))
    · exact wp_occupyContextCheckpoint hretained hunforked
    · exact wp_occupyContextCheckpoint hretained hunforked

end

lemma Occupied.dropForkedCheckpoints (h : Occupied plan lane) :
    Occupied plan (lane.dropForkedCheckpoints plan) := by
  unfold Lane.dropForkedCheckpoints
  split
  · exact ⟨h.retained, h.unforked, fun hvalid => by simp at hvalid, by simp⟩
  · exact h

lemma Occupied.applyRewriteAction (h : Occupied plan lane) :
    Occupied plan (lane.applyRewriteAction prompt plan) := by
  unfold Lane.applyRewriteAction
  split
  · exact ⟨h.retained, h.unforked, fun hvalid => by simp at hvalid, h.checkpoints.heads⟩
  · exact ⟨h.retained, h.unforked, h.checkpoints.rewrite, h.checkpoints.heads⟩
  · exact h

lemma Occupied.stagePrefill (h : Occupied plan lane)
    (hprepare : plan.prepareMtp = decide (p.options.backend = .mtp))
    (hbase : plan.reuseBase ≤ prompt.tokens)
    (hidentity : ResidentPrefixIdentity.assign prompt.toPreparedPrompt = .ok identity) :
    LaneOk p (lane.stagePrefill prompt plan identity) := by
  refine LaneOk.of_phase rfl h.retained h.unforked ⟨_, rfl, ?_⟩
  exact ⟨rfl, ResidentPrefixIdentity.size_assign hidentity, hbase, hprepare,
    { h.checkpoints with }, rfl⟩

/-- A prefill that starts leaves its lane in order; one that is refused leaves the lane to its
caller. -/
lemma wp_startPrefillLane {pace : PrefillPace} {chunk : Chunk} (hstart : Startable p plan lane) :
    wp (startPrefillLane p prompt plan occupation pace chunk) (fun _ => LaneOk p)
      (fun _ _ => True) lane := by
  rw [startPrefillLane, wp_bind]
  refine wp_requirePlan fun hchecked => ?_
  have hbase : plan.reuseBase ≤ prompt.tokens := by
    by_cases hreset : plan.reuse = .fullReset
    · rw [hstart.base hreset]
      exact Nat.zero_le _
    · exact hchecked.base hreset
  rw [wp_bind, wp_modify]
  refine wp_mono (wp_orClear ?_) (fun _ _ h => h) (fun _ _ _ => trivial)
  have hstart' : Startable p plan (lane.takeOver prompt plan) :=
    { hstart with }
  have hchecked' : PlanChecked prompt plan (lane.takeOver prompt plan) :=
    ⟨hchecked.base, hchecked.rewrite⟩
  rw [wp_bind]
  refine wp_imp (wp_occupy rfl hstart' hchecked') fun _ lane' hoccupied => ?_
  simp only [wp_bind, wp_modify, wp_deviceWork, wp_identityCall, implies_true, and_true]
  intro _ identity hidentity
  refine wp_mono (wp_advancePrefill pace chunk ?_) (fun _ _ h => h) (fun _ _ _ => trivial)
  exact hoccupied.dropForkedCheckpoints.applyRewriteAction.stagePrefill hstart.prepareMtp hbase
    hidentity

/-! ## What a plan relies on -/

lemma ReuseSelection.longer_ne_append (h : best.path ≠ .appendAtFrontier)
    (head : ContextCheckpointHead) : (best.longer head).path ≠ .appendAtFrontier := by
  unfold ReuseSelection.longer
  split
  · cases head.kind <;> simp [reusePathForContextCheckpointKind]
  · exact h

lemma foldl_longer_ne_append (heads : List ContextCheckpointHead)
    (h : best.path ≠ .appendAtFrontier) :
    (heads.foldl ReuseSelection.longer best).path ≠ .appendAtFrontier := by
  induction heads generalizing best with
  | nil => exact h
  | cons head _ ih => exact ih (ReuseSelection.longer_ne_append h head)

/-- An append continues from the execution frontier. -/
lemma frontier_of_append
    (h : (applyReuseDecision p state backendImagePresent prompt options hashMatches).path =
      .appendAtFrontier) :
    (applyReuseDecision p state backendImagePresent prompt options hashMatches).frontier =
      state.executionFrontier := by
  unfold applyReuseDecision at h ⊢
  split at h
  · simp at h
  · next hreuse =>
    rw [if_neg hreuse]
    unfold decideResidentReuse at h ⊢
    dsimp only at h ⊢
    split at h
    · next hmatches => rw [if_pos hmatches]
    · refine absurd h (foldl_longer_ne_append _ ?_)
      split
      · cases state.rewriteCheckpoint.kind <;> simp [rewriteRestorePath]
      · simp

/-- A lane that carries the checkpoint of a committed sequence can start the plan made for it,
unless the plan resets the lane. Only an append leaves the checkpoint's place to the decision. -/
lemma Startable.of_committed (hcommitted : state.Committed)
    (hplan : plan = finishRequestPlan p view prompt options source
      (applyReuseDecision p state backendImagePresent prompt options hashMatches))
    (hreset : plan.reuse ≠ .fullReset) (hunforked : lane.forkInitialized = false)
    (hrewrite : lane.rewriteCheckpoint.valid = true →
      lane.rewriteCheckpoint = state.rewriteCheckpoint) : Startable p plan lane := by
  subst hplan
  refine ⟨rfl, fun hfull => absurd hfull hreset, fun hpath hvalid => ?_,
    fun hfork => by simp [hunforked] at hfork⟩
  rcases hpath with hfork | hfull | happend
  · simp [hunforked] at hfork
  · exact absurd hfull hreset
  · have hsame := hrewrite hvalid
    rw [hsame] at hvalid ⊢
    refine (hcommitted.checkpoints.rewrite hvalid).trans (le_of_eq ?_)
    exact (frontier_of_append happend).symm.trans (if_neg hreset).symm

lemma finishRequestPlan_base
    (h : (finishRequestPlan p view prompt options source selected).reuse = .fullReset) :
    (finishRequestPlan p view prompt options source selected).reuseBase = 0 :=
  if_pos h

/-- Every plan for a lane is a finished plan. -/
lemma planRequestForLane_finished (p : Program) (lane : Lane) (prompt : Prompt)
    (options : BaseOptions) (hashMatches : ContextCheckpointHead → Bool) :
    ∃ view selected, planRequestForLane p lane prompt options hashMatches =
      finishRequestPlan p view prompt options .vramResident selected := by
  unfold planRequestForLane
  split
  · exact ⟨_, _, rfl⟩
  · exact ⟨_, _, rfl⟩

/-- A lane without checkpoints can start any plan that resets it. -/
lemma Startable.of_reset (hunforked : lane.forkInitialized = false)
    (hrewrite : lane.rewriteCheckpoint.valid = false) :
    Startable p (finishRequestPlan p view prompt options source selected) lane where
  prepareMtp := rfl
  base := finishRequestPlan_base
  rewrite _ hvalid := by simp [hrewrite] at hvalid
  heads hfork := by simp [hunforked] at hfork

/-- A retained lane can start the plan made for it, unless the plan resets the lane. -/
lemma LaneOk.startable (h : LaneOk p lane)
    (hplan : plan = planRequestForLane p lane prompt options hashMatches)
    (hreset : plan.reuse ≠ .fullReset) : Startable p plan lane := by
  have hretained : lane.retained = true := by
    by_contra hne
    rw [planRequestForLane, if_neg hne] at hplan
    exact hreset (by rw [hplan]; rfl)
  rw [planRequestForLane, if_pos hretained] at hplan
  exact .of_committed (h.complete (h.retained.mp hretained)).1 hplan hreset h.unforked fun _ => rfl

def ContextCheckpointHead.restart (head : ContextCheckpointHead) : ReuseSelection :=
  ⟨reusePathForContextCheckpointKind head.kind, head.frontier⟩

/-- The loop finds the first of the longest; a reset stands for no candidate. -/
lemma foldl_longer_eq {heads : List ContextCheckpointHead}
    (hpos : ∀ head ∈ heads, head.frontier ≠ 0) (best : Option ReuseSelection) :
    heads.foldl .longer (best.getD {}) = ((heads.map (·.restart)).foldl
      (List.argAux fun b c => c.frontier < b.frontier) best).getD {} := by
  induction heads generalizing best with
  | nil => rfl
  | cons head heads ih =>
    obtain ⟨hhead, hheads⟩ := List.forall_mem_cons.mp hpos
    rw [List.map_cons, List.foldl_cons, List.foldl_cons, ← ih hheads]
    cases best <;> grind [ReuseSelection.longer, List.argAux, ContextCheckpointHead.restart]

/-- An append wins if it is usable: the prompt agrees with the sequence and the backend can go on.
Otherwise the decision is the longest usable checkpoint, the rewrite checkpoint among equals. -/
theorem resident_reuse_longest :
    let usable (s : ReuseSelection) : Bool := s.frontier ≠ 0 ∧
      prefixMatches prompt.toPreparedPrompt state.ledger state.prefixIdentity s.frontier ∧
      reuseCandidateReady p state backendImagePresent prompt.tokens s.path s.frontier
    let append := ⟨.appendAtFrontier, state.executionFrontier⟩
    let rewrite := state.rewriteCheckpoint
    let rewrites := [⟨rewriteRestorePath rewrite.kind, rewrite.frontier⟩].filter fun s =>
      rewrite.valid && usable s
    let heads := state.contextCheckpoints.filter fun head =>
      head.frontier ≤ prompt.tokens && hashMatches head && usable head.restart
    decideResidentReuse p state backendImagePresent prompt hashMatches =
      if usable append then append
      else ((rewrites ++ heads.map (·.restart)).argmax (·.frontier)).getD {} := by
  intro usable append rewrite rewrites heads
  have hpos : ∀ head ∈ heads, head.frontier ≠ 0 := by grind [ContextCheckpointHead.restart]
  -- the loop starts at the rewrite checkpoint, if that is a candidate
  have hfold := foldl_longer_eq hpos rewrites.head?
  unfold decideResidentReuse
  simp only [List.argmax, List.foldl_append]
  grind [ContextCheckpointHead.restart, List.argAux]

/-! ## Host tiers and forks -/

/-- A free lane that is not retained holds no checkpoints. -/
lemma LaneOk.blank (h : LaneOk p lane) (hbusy : lane.busy = false)
    (hretained : lane.retained = false) :
    lane.lifecycle = .empty ∧ lane.rewriteCheckpoint.valid = false ∧
      lane.contextCheckpoints = [] := by
  have hcomplete : lane.lifecycle ≠ .complete := fun heq => by
    simp [h.retained.mpr heq] at hretained
  have hempty : lane.lifecycle = .empty := by
    unfold Lane.busy at hbusy
    cases hlifecycle : lane.lifecycle <;> simp_all
  exact ⟨hempty, h.empty hempty⟩

/-- A free lane after the eviction of its sequence. -/
structure Vacant (p : Program) (lane : Lane) : Prop where
  ok : LaneOk p lane
  retained : lane.retained = false
  rewrite : lane.rewriteCheckpoint.valid = false
  heads : lane.contextCheckpoints = []

lemma wp_evictRetainedLane_vacant (h : LaneOk p lane) (hbusy : lane.busy = false) :
    wp evictRetainedLane (fun _ => Vacant p) (fun _ _ => True) lane := by
  refine wp_evictRetainedLane (fun _ => ⟨LaneOk.cleared p lane, rfl, rfl, rfl⟩)
    (fun hretained => ?_)
  obtain ⟨-, hrewrite, hheads⟩ := h.blank hbusy hretained
  exact ⟨h, hretained, hrewrite, hheads⟩

/-- A restored entry can start the plan made for it. -/
lemma wp_restoreHostEntry {keepsHead : ContextCheckpointHead → Bool} (hvacant : Vacant p lane)
    (himage : image.Committed)
    (hplan : plan = planHostReuse p image backendImagePresent prompt options hashMatches) :
    wp (restoreHostEntry p image plan keepsHead failure) (fun _ => Startable p plan)
      (fun _ _ => True) lane := by
  obtain ⟨view, hplan⟩ : ∃ view, plan = finishRequestPlan p view prompt options .hostTier
      (applyReuseDecision p image backendImagePresent prompt options hashMatches) := by
    unfold planHostReuse at hplan
    dsimp only at hplan
    split at hplan
    · exact ⟨_, hplan⟩
    · exact ⟨_, hplan⟩
  rw [restoreHostEntry]
  simp only [wp_bind, wp_get, wp_throwIf, implies_true, true_and]
  intro hwinning _
  push Not at hwinning
  have hunpacked : ∀ lane' : Lane, lane' = lane.unpack p image plan keepsHead →
      lane'.forkInitialized = false ∧ (lane'.rewriteCheckpoint.valid = true →
        lane'.rewriteCheckpoint = image.rewriteCheckpoint) := by
    rintro lane' rfl
    refine ⟨hvacant.ok.unforked, fun hvalid => ?_⟩
    by_cases hkeeps : tierRestoreKeepsRewrite plan = true
    · simp [Lane.unpack, hkeeps]
    · simp [Lane.unpack, hkeeps] at hvalid
  rw [orClear, wp_tryCatch]
  simp only [wp_bind, wp_throwIf, wp_modify, wp_deviceWork]
  refine ⟨fun _ => trivial, fun _ => ⟨fun _ => ?_, fun _ _ => trivial⟩⟩
  obtain ⟨hunforked, hrewrite⟩ := hunpacked _ rfl
  split
  · rw [wp_modify, Lane.unpackStaged]
    obtain ⟨rewrite, heq, hsame⟩ := dropRewriteAhead_spec _ plan.reuseBase
    rw [heq]
    refine .of_committed himage hplan hwinning.1 hunforked fun hvalid => ?_
    obtain ⟨rfl, -⟩ := hsame hvalid
    exact hrewrite hvalid
  · exact .of_committed himage hplan hwinning.1 hunforked hrewrite

/-- A forked lane can start the plan made for its source. -/
lemma wp_forkRetainedLane {source : Lane} (hvacant : Vacant p lane)
    (hplan : plan = planRequestForLane p source prompt options hashMatches) :
    wp (forkRetainedLane p source plan failure) (fun _ => Startable p plan) (fun _ _ => True)
      lane := by
  obtain ⟨view, selected, hfinished⟩ :=
    planRequestForLane_finished p source prompt options hashMatches
  rw [hfinished] at hplan
  rw [forkRetainedLane]
  simp only [wp_bind, wp_get, wp_throwIf, implies_true, true_and]
  intro _ _ _
  rw [orClear, wp_tryCatch]
  simp only [wp_bind, wp_throwIf, wp_modify, wp_deviceWork]
  refine ⟨fun _ => trivial, fun _ => ⟨fun _ => ?_, fun _ _ => trivial⟩⟩
  refine ⟨by rw [hplan]; rfl, fun hreset => ?_, fun _ hvalid => ?_, fun _ => hvacant.heads⟩
  · rw [hplan] at hreset ⊢
    exact finishRequestPlan_base hreset
  · have hinvalid : lane.rewriteCheckpoint.valid = false := hvacant.rewrite
    exact absurd hvalid (by simp [Lane.forkFrom, hinvalid])

/-- What a host tier stores of a retained lane is a committed sequence. -/
lemma ramCaptureSource_committed {mode : CacheCaptureMode} (h : LaneOk p lane)
    (hcapture : ramCaptureSource p mode lane = .ok image) :
    image.Committed := by
  obtain ⟨hretained, hcapture⟩ := refuseIf_bind_iff.mp hcapture
  push Not at hretained
  have hcommitted := (h.complete (h.retained.mp hretained.2)).1
  split_ifs at hcapture with hcut
  · obtain ⟨identity, hidentity, hcapture⟩ := ok_bind_iff.mp hcapture
    obtain rfl := ok_pure_iff.mp hcapture
    have hcuts := hcut.2
    simp only [Lane.captureCutsAtRewrite, decide_eq_true_eq] at hcuts
    have hsize : identity.size = lane.rewriteCheckpoint.frontier + 1 := by
      cases htruncate : lane.prefixIdentity.truncate (lane.rewriteCheckpoint.frontier + 1) with
      | error e => rw [htruncate] at hidentity; cases hidentity
      | ok cut =>
        rw [htruncate] at hidentity
        obtain rfl := Except.ok.inj hidentity
        exact ResidentPrefixIdentity.size_truncate htruncate
    refine ⟨?_, hsize, rfl, rfl, fun hvalid => by simp at hvalid, fun head hhead => ?_⟩
    · show (lane.ledger.take _).length = lane.rewriteCheckpoint.frontier + 1
      rw [List.length_take]
      omega
    · simpa using (List.mem_filter.mp hhead).2
  · obtain rfl := ok_pure_iff.mp hcapture
    exact hcommitted

/-! ## Rounds and resolutions -/

lemma wp_decodeOrdinaryRow {token : BitVec 32} (hbackend : p.options.backend = .none)
    (h : LaneOk p lane) (hactive : lane.lifecycle = .active) :
    wp (decodeOrdinaryRow token failure) (fun _ => LaneOk p) (fun _ _ => True) lane := by
  obtain ⟨hcommitted, -⟩ := h.active hactive
  rw [decodeOrdinaryRow]
  simp only [wp_bind, wp_get, wp_deviceWork, wp_modify, wp_identityCall, implies_true, and_true]
  intro _ identity hidentity
  refine LaneOk.of_phase rfl (h.not_retained (by simp [hactive])) h.unforked
    ⟨hbackend, hcommitted.ledgerFrontier, ?_⟩
  exact
    { ledger := by simp [Continuation.movedTo, hcommitted.ledger]
      identity := by
        show identity.size = lane.executionFrontier + 1 + 1
        rw [ResidentPrefixIdentity.size_appendGenerated hidentity, hcommitted.identity]
      ledgerFrontier := rfl
      text := rfl
      checkpoints :=
        ⟨fun hvalid => (hcommitted.checkpoints.rewrite hvalid).trans (Nat.le_succ _),
          fun head hhead => (hcommitted.checkpoints.heads head hhead).trans (Nat.le_succ _)⟩ }

lemma wp_decodeSpeculativeRow {budget count : ℕ} (hbackend : p.options.backend ≠ .none)
    (h : LaneOk p lane) (hactive : lane.lifecycle = .active) :
    wp (decodeSpeculativeRow p budget count failure) (fun _ => LaneOk p) (fun _ _ => True)
      lane := by
  obtain ⟨hcommitted, hcurrent⟩ := h.active hactive
  rw [decodeSpeculativeRow]
  simp only [wp_bind, wp_get, wp_throwIf, wp_deviceWork, implies_true, and_true, true_and]
  intro hmetadata _
  push Not at hmetadata
  refine LaneOk.of_phase rfl (h.not_retained (by simp [hactive])) h.unforked
    ⟨hbackend, { hcommitted with checkpoints := { hcommitted.checkpoints with } }, ?_, rfl,
      hcommitted.ledgerFrontier, hmetadata.2.1⟩
  unfold Continuation.BackendCurrent at hcurrent ⊢
  split at hcurrent
  · trivial
  · exact hcurrent
  · next hdflash =>
    simp only [hdflash, if_true]
    omega

/-- A settled round leaves a decoding lane, or a retained one. -/
lemma LaneOk.settle {lane' : Lane} (h : LaneOk p lane) (hlane : lane.lifecycle ≠ .complete)
    (hretained : lane'.retained = lane.retained)
    (hunforked : lane'.forkInitialized = lane.forkInitialized) (hcommitted : lane'.Committed)
    (hcurrent : lane'.BackendCurrent p) : LaneOk p (lane'.settle terminal) := by
  have hnot : lane'.retained = false := hretained.trans (h.not_retained hlane)
  cases terminal with
  | false =>
    exact LaneOk.of_phase rfl (by simp [Lane.settle, hnot]) (hunforked.trans h.unforked)
      ⟨hcommitted, hcurrent⟩
  | true =>
    exact LaneOk.of_phase rfl (by simp [Lane.settle]) (hunforked.trans h.unforked)
      ⟨hcommitted, hcurrent.retained⟩

/-- The round's own frontier is the one it offers. -/
lemma Offered.resolvedFrontiers (h : Offered p lane)
    (hkind : lane.pending.kind = .begin ∨ lane.pending.kind = .ordinary) :
    lane.resolvedFrontiers.Committed ∧ lane.resolvedFrontiers.BackendCurrent p := by
  unfold Offered at h
  unfold Lane.resolvedFrontiers
  rcases hkind with hkind | hkind <;> rw [hkind] at h ⊢
  · exact h
  · obtain ⟨hbackend, hbase, hcommitted⟩ := h
    rw [hbase, Nat.add_right_comm]
    refine ⟨hcommitted, ?_⟩
    unfold Continuation.BackendCurrent
    rw [hbackend]
    trivial

/-- A round whose frontiers have moved still offers them. -/
lemma Offered.of_resolvedFrontiers (h : Offered p lane)
    (hkind : lane.pending.kind = .begin ∨ lane.pending.kind = .ordinary) :
    Offered p lane.resolvedFrontiers := by
  unfold Offered at h
  unfold Offered Lane.resolvedFrontiers
  rcases hkind with hkind | hkind <;> simp only [hkind] at h ⊢
  · exact h
  · exact h

/-- Only the frontiers move. -/
lemma resolvedFrontiers_eq (lane : Lane) : ∃ execution ledger, lane.resolvedFrontiers =
    { lane with executionFrontier := execution, ledgerFrontier := ledger } := by
  unfold Lane.resolvedFrontiers
  split <;> exact ⟨_, _, rfl⟩

/-- A round that cannot be trimmed after its frontiers moved is still pending, with the same
offer. -/
lemma wp_resolveNonSpeculativePending {acceptedTokens : ℕ} (h : LaneOk p lane) :
    wp (resolveNonSpeculativePending acceptedTokens terminal failure) (fun _ => LaneOk p)
      (fun _ => LaneOk p) lane := by
  rw [resolveNonSpeculativePending]
  simp only [wp_bind, wp_get, wp_throwIf, wp_modify, wp_deviceWork]
  refine ⟨fun _ => h, fun hpending => ⟨fun _ => h, fun hsingle => ?_⟩⟩
  push Not at hpending hsingle
  have hoffered := h.pending hpending
  have hkind : lane.pending.kind = .begin ∨ lane.pending.kind = .ordinary := by
    by_contra hneither
    push Not at hneither
    exact hsingle.1 hneither.1 |> hneither.2
  obtain ⟨hcommitted, hcurrent⟩ := hoffered.resolvedFrontiers hkind
  have hmoved := hoffered.of_resolvedFrontiers hkind
  obtain ⟨execution, ledger, heq⟩ := resolvedFrontiers_eq lane
  rw [heq] at hcommitted hcurrent hmoved ⊢
  have hstuck : LaneOk p { lane with executionFrontier := execution, ledgerFrontier := ledger } :=
    LaneOk.of_phase hpending (h.not_retained (by simp [hpending])) h.unforked hmoved
  refine ⟨fun _ => hstuck, fun _ => ⟨fun _ => ?_, fun _ _ => hstuck⟩⟩
  exact h.settle (by simp [hpending]) rfl rfl hcommitted hcurrent

lemma wp_resolvePrefillLane (h : LaneOk p lane) :
    wp (resolvePrefillLane terminal failure) (fun _ => LaneOk p) (fun _ => LaneOk p) lane := by
  rw [resolvePrefillLane, wp_bind, wp_get, wp_bind, wp_throwIf]
  exact ⟨fun _ => h, fun _ => wp_resolveNonSpeculativePending h⟩

lemma wp_resolveOrdinaryRow (h : LaneOk p lane) :
    wp (resolveOrdinaryRow row) (fun _ => LaneOk p) (fun _ => LaneOk p) lane := by
  rw [resolveOrdinaryRow, wp_bind, wp_get, wp_bind, wp_throwIf]
  refine ⟨fun _ => h, fun _ => ?_⟩
  split
  · rw [wp_bind, wp_throwIf]
    exact ⟨fun _ => h, fun _ => wp_clearLane (LaneOk.cleared p lane)⟩
  · split
    · exact h
    · exact wp_resolveNonSpeculativePending h

/-- A committed sequence with KV is retained as it is. -/
lemma wp_retainCommittedSequence (hunforked : lane.forkInitialized = false)
    (hcommitted : lane.Committed) (hretained : lane.BackendRetained p) (hE : ∀ e, E e lane) :
    wp retainCommittedSequence (fun _ => LaneOk p) E lane := by
  rw [retainCommittedSequence, wp_bind, wp_get, wp_bind, wp_throwIf]
  exact ⟨fun _ => hE _, fun _ => LaneOk.of_phase rfl rfl hunforked ⟨hcommitted, hretained⟩⟩

lemma wp_retainReusableLane (h : LaneOk p lane) :
    wp retainReusableLane (fun _ => LaneOk p) (fun _ => LaneOk p) lane := by
  rw [retainReusableLane, wp_bind, wp_get]
  split
  · next hactive =>
    split
    · exact h
    · obtain ⟨hcommitted, hcurrent⟩ := h.active hactive
      rw [wp_bind]
      exact wp_retainCommittedSequence h.unforked hcommitted hcurrent.retained fun _ => h
  · exact h

/-- What the checks on a speculative row say of its resolution. -/
lemma requireSpeculativeRow_spec (h : requireSpeculativeRow p row lane = .ok ()) :
    lane.lifecycle = .pending ∧ lane.pending.kind = .speculative ∧
      (¬row.cancelled = true → ¬row.rejected = true →
        row.acceptedTokens ≤ lane.pending.produced) := by
  obtain ⟨hpending, h⟩ := refuseIf_bind_iff.mp h
  obtain ⟨-, h⟩ := refuseIf_bind_iff.mp h
  have hcommitted := refuseIf_iff.mp h
  push Not at hpending hcommitted
  exact ⟨hpending.1, hpending.2, fun hc hr =>
    (hcommitted.2.2 (by simpa using hc) (by simpa using hr)).2⟩

/-- A speculative row that commits an accepted part of its offer. -/
lemma commitTokens_committed (hcommitted : lane.Committed)
    (hbaseE : lane.pending.baseE = lane.executionFrontier)
    (hbaseS : lane.pending.baseS = lane.executionFrontier + 1)
    (hidentity : lane.prefixIdentity.appendGenerated row.acceptedTokens lane.ropeDelta =
      .ok identity) : (lane.commitTokens p row identity).Committed where
  ledger := by
    simp only [Lane.commitTokens, List.length_append, List.length_map, List.length_range,
      hcommitted.ledger, hbaseE]
    omega
  identity := by
    show identity.size = lane.pending.baseE + row.acceptedTokens + 1
    rw [ResidentPrefixIdentity.size_appendGenerated hidentity, hcommitted.identity]
    omega
  ledgerFrontier := by
    show lane.pending.baseS + row.acceptedTokens = lane.pending.baseE + row.acceptedTokens + 1
    omega
  text := rfl
  checkpoints := by
    have hle : lane.executionFrontier ≤ lane.pending.baseE + row.acceptedTokens := by omega
    exact ⟨(hcommitted.checkpoints.mono hle).rewrite, (hcommitted.checkpoints.mono hle).heads⟩

lemma commitTokens_current (hbackend : p.options.backend ≠ .none)
    (haccepted : row.acceptedTokens ≤ speculativeWidth p) :
    (lane.commitTokens p row identity).BackendCurrent p := by
  unfold Continuation.BackendCurrent
  split
  · next hnone => exact absurd hnone hbackend
  · next hmtp => simp [Lane.commitTokens, hmtp]
  · next hdflash =>
    rw [speculativeWidth, if_pos hdflash] at haccepted
    simp only [Lane.commitTokens, hdflash, reduceCtorEq, if_false]
    split <;> omega

lemma wp_commitSpeculativeRow (h : LaneOk p lane)
    (hrow : requireSpeculativeRow p row lane = .ok ()) :
    wp (commitSpeculativeRow p row) (fun _ => LaneOk p) (fun _ _ => True) lane := by
  obtain ⟨hpending, hkind, haccepted⟩ := requireSpeculativeRow_spec hrow
  have hoffered := h.pending hpending
  unfold Offered at hoffered
  rw [hkind] at hoffered
  obtain ⟨hbackend, hcommitted, hcurrent, hbaseE, hbaseS, hproduced⟩ := hoffered
  have hunretained := h.not_retained (by simp [hpending])
  unfold commitSpeculativeRow
  split
  · rw [wp_bind, wp_modify, wp_bind, wp_deviceWork]
    refine ⟨fun _ => ?_, fun _ _ => trivial⟩
    apply wp_retainCommittedSequence (E := fun _ _ => True)
    · exact h.unforked
    · exact { hcommitted with checkpoints := { hcommitted.checkpoints with } }
    · exact hcurrent.retained
    · exact fun _ => trivial
  · next hcancelled =>
    split
    · simp only [wp_bind, wp_deviceWork, implies_true, and_true]
      intro _
      exact LaneOk.of_phase rfl hunretained h.unforked
        ⟨{ hcommitted with checkpoints := { hcommitted.checkpoints with } }, hcurrent⟩
    · next hrejected =>
      simp only [wp_bind, wp_get, wp_identityCall, wp_deviceWork, wp_modify, implies_true,
        and_true]
      intro identity hidentity _
      exact h.settle (by simp [hpending]) rfl rfl
        (commitTokens_committed hcommitted hbaseE hbaseS hidentity)
        (commitTokens_current hbackend ((haccepted hcancelled hrejected).trans hproduced))

/-! ## Reverting a cancelled prefill -/

/-- A revert goes to a frontier inside the prompt; without a staged head it is that of the rewrite
checkpoint. -/
lemma revertTarget_spec {staged : Bool} (h : lane.revertTarget = some (frontier, staged)) :
    frontier ≠ 0 ∧ frontier ≤ lane.ledger.length ∧
      (staged = false → lane.rewriteCheckpoint.frontier = frontier) := by
  unfold Lane.revertTarget at h
  rcases Option.or_eq_some_iff.mp h with hbase | ⟨-, hrewrite⟩
  · obtain ⟨prefill, -, hbase⟩ := Option.bind_eq_some_iff.mp hbase
    split_ifs at hbase with hbounds hat hhead
    · obtain ⟨rfl, rfl⟩ := Prod.mk.inj (Option.some.inj hbase)
      simp only [decide_eq_true_eq] at hbounds
      exact ⟨hbounds.1, hbounds.2.1, fun _ => hat.2⟩
    · obtain ⟨rfl, rfl⟩ := Prod.mk.inj (Option.some.inj hbase)
      simp only [decide_eq_true_eq] at hbounds
      exact ⟨hbounds.1, hbounds.2.1, fun hstaged => by simp at hstaged⟩
  · split_ifs at hrewrite with hok
    obtain ⟨rfl, rfl⟩ := Prod.mk.inj (Option.some.inj hrewrite)
    simp only [decide_eq_true_eq] at hok
    exact ⟨hok.2.1, hok.2.2.1, fun _ => rfl⟩

/-- The state behind a revert: the ledger is untouched, no rewrite checkpoint lies beyond the
frontier, and the DFlash context ends there. -/
structure Reverting (p : Program) (frontier : ℕ) (lane lane' : Lane) : Prop where
  ledger : lane'.ledger = lane.ledger
  unforked : lane'.forkInitialized = lane.forkInitialized
  rewrite : lane'.rewriteCheckpoint.valid = true →
    lane'.rewriteCheckpoint.frontier ≤ frontier
  dflash : p.options.backend = .dflash → lane'.dflashContextFrontier = frontier

lemma wp_revertState {staged : Bool} (hunpacked : lane.tierUnpackedContextBase = 0)
    (htarget : lane.revertTarget = some (frontier, staged)) :
    wp (revertState p frontier staged) (fun _ => Reverting p frontier lane) (fun _ _ => True)
      lane := by
  obtain ⟨hfrontier, -, hrewrite⟩ := revertTarget_spec htarget
  unfold revertState
  split
  · rw [wp_bind]
    refine wp_imp wp_restoreContextCheckpointState fun _ lane' hrestored => ?_
    obtain ⟨hkept, hledger, -, -, hdflash⟩ := hrestored
    obtain ⟨rewrite, heq, hvalid⟩ := dropRewriteAhead_spec lane' frontier
    rw [wp_modify, heq]
    exact ⟨hledger, hkept.unforked, fun h => (hvalid h).2,
      hdflash (by rw [hunpacked]; exact hfrontier.symm)⟩
  · next hstaged =>
    refine ⟨rfl, rfl, fun _ => (hrewrite (by simpa using hstaged)).le, fun hbackend => ?_⟩
    exact if_pos hbackend

lemma length_revertLedger {ledger : List (BitVec 32)} (h : frontier ≤ ledger.length) :
    (revertLedger ledger frontier).length = frontier + 1 := by
  unfold revertLedger
  split
  · simp only [resize, List.length_append, List.length_take, List.length_replicate]
    omega
  · simp only [List.length_append, List.length_singleton]
    omega

lemma size_revertIdentity (h : revertIdentity lane frontier = .ok identity) :
    identity.size = frontier + 1 := by
  unfold revertIdentity at h
  split at h
  · exact ResidentPrefixIdentity.size_truncate h
  · obtain ⟨cut, hcut, h⟩ := ok_bind_iff.mp h
    rw [ResidentPrefixIdentity.size_appendGenerated h, ResidentPrefixIdentity.size_truncate hcut]

lemma wp_revertTo {staged : Bool} (hunforked : lane.forkInitialized = false)
    (hunpacked : lane.tierUnpackedContextBase = 0)
    (htarget : lane.revertTarget = some (frontier, staged)) :
    wp (revertTo p frontier staged failure) (fun _ => LaneOk p) (fun _ _ => True) lane := by
  obtain ⟨hfrontier, hledger, -⟩ := revertTarget_spec htarget
  rw [revertTo, wp_bind]
  refine wp_imp (wp_revertState hunpacked htarget) fun _ lane' hrevert => ?_
  simp only [wp_bind, wp_get, wp_identityCall, wp_modify, wp_deviceWork, implies_true, and_true]
  intro identity hidentity _
  apply wp_retainCommittedSequence (E := fun _ _ => True)
  · exact hrevert.unforked.trans hunforked
  · refine ⟨?_, size_revertIdentity hidentity, rfl, rfl, hrevert.rewrite, fun head hhead => ?_⟩
    · show (revertLedger lane'.ledger frontier).length = frontier + 1
      rw [hrevert.ledger]
      exact length_revertLedger hledger
    · show head.frontier ≤ frontier
      simpa using (List.mem_filter.mp hhead).2
  · unfold Continuation.BackendRetained Continuation.BackendCurrent
    cases hbackend : p.options.backend with
    | none => trivial
    | mtp =>
      refine .inr ?_
      show (if p.options.backend = .mtp then frontier - 1 else _) + 1 = frontier
      rw [if_pos hbackend]
      omega
    | dflash =>
      show lane'.dflashContextFrontier ≤ frontier ∧
        frontier ≤ lane'.dflashContextFrontier + p.dflashVerifyWidth
      rw [hrevert.dflash hbackend]
      omega
  · exact fun _ => trivial

lemma wp_revertCancelledPrefillLane (h : LaneOk p lane) :
    wp (revertCancelledPrefillLane p failure) (fun _ => LaneOk p) (fun _ => LaneOk p) lane := by
  rw [revertCancelledPrefillLane, wp_bind, wp_get]
  split
  · exact h
  · next hprefilling =>
    push Not at hprefilling
    split
    · exact h
    · next frontier staged htarget =>
      obtain ⟨prefill, -, hprefill⟩ := h.prefilling hprefilling.1
      rw [wp_tryCatch, wp_bind]
      refine wp_mono (wp_revertTo h.unforked hprefill.unpacked htarget) (fun _ _ hok => hok)
        (fun _ lane' _ => ?_)
      rw [wp_bind]
      exact wp_clearLane (LaneOk.cleared p lane')

lemma wp_markTurnClosed (h : LaneOk p lane) :
    wp markTurnClosed (fun _ => LaneOk p) (fun _ => LaneOk p) lane := by
  rw [markTurnClosed, wp_modify]
  split
  · next hretained =>
    have hcomplete := h.retained.mp hretained
    exact LaneOk.of_phase hcomplete hretained h.unforked (h.complete hcomplete)
  · exact h

end

end NInfer.Sequence
