import NInfer.Foundation.Fallible
import NInfer.Prefill.Schedule

/-!
# Request plans

`plan_request_base` fixes what a request may use (output tokens, KV pages) and
`finish_request_plan` what its prefill has to do from a reuse base (`request_plan_impl.h`).  Both
project the service work of the request: prefill steps at the Shared width, one unit for each output
token after the first, and an allowance for each recovery retry.

A finished plan is a `Job` (`RequestPlan.job`), so its projection is the number of steps of a walk.
-/

namespace NInfer.Prefill

/-- `VisionItemControl`, as far as the plan reads it: the first and the last Text column of an
item. -/
structure VisionItem where
  first : ℕ
  last : ℕ
  ordered : first ≤ last

/-- `PreparedPromptData`, as far as the plan reads it. -/
structure PreparedPrompt where
  shape : PromptShape
  visionItems : List VisionItem := []
  rewriteCheckpoint : Option ℕ := none
  generationRecovery : Bool := false
  /-- Turns are rendered, and their frontiers stored, in token order. -/
  sorted : shape.turnClosureFrontiers.Pairwise (· ≤ ·)

lemma sorted_nil : ([] : List ℕ).Pairwise (· ≤ ·) := .nil

/-- `ResolvedExecutionOptions`, as far as the plan reads it. -/
structure ExecutionOptions where
  requestedOutputTokens : ℕ
  pLess : Bool := false
  cacheWrite : Bool := true

/-- `AdmissionResources`; a plan always asks for one lane. -/
structure AdmissionResources where
  activeLanes : ℕ := 1
  mainKvPages : ℕ
  backendKvPages : ℕ
  deriving DecidableEq

/-- `admission_resources_fit`. -/
def admissionResourcesFit (used capacity : AdmissionResources) : Bool :=
  used.activeLanes ≤ capacity.activeLanes ∧ used.mainKvPages ≤ capacity.mainKvPages ∧
    used.backendKvPages ≤ capacity.backendKvPages

/-- `kPagedKVPageSize`. -/
def kPagedKVPageSize : ℕ := 64

/-- `pages_for_tokens`. -/
def pagesForTokens (tokens : ℕ) : ℕ := 1 + (tokens - 1) / kPagedKVPageSize

/-- `GenerationRecoveryContext::maximum_attempts`. -/
def maximumAttempts : ℕ := 2

/-- `PrefillPace`. -/
inductive PrefillPace where
  | shared
  | exclusive
  deriving DecidableEq

/-- `prefill_step_tokens`. -/
def prefillStepTokens (p : Program) : PrefillPace → ℕ
  | .shared => if p.mixedForward ≠ 0 then p.mixedForward else p.prefillChunk
  | .exclusive => p.prefillChunk

/-- `projected_service_work`. -/
def projectedServiceWork (effectiveOutputTokens : ℕ) (prompt : PromptShape)
    (reuseBase stepTokens : ℕ) (visionUses : List VisionUseSpan) (rewrite : Option ℕ) : ℕ :=
  projectedPrefillWork prompt reuseBase stepTokens visionUses rewrite + (effectiveOutputTokens - 1)

/-- The allowance for recovery retries, which both plans add. -/
def recoveryWork (p : Program) (prompt : PreparedPrompt) (options : ExecutionOptions)
    (reservedTokens : ℕ) : ℕ :=
  if prompt.generationRecovery ∧ options.pLess then
    maximumAttempts * (prefillChunkCount reservedTokens (prefillStepTokens p .shared) + 2)
  else 0

/-- The loop of `plan_request_base` over the vision items. -/
def coldVisionUses (p : Program) (promptTokens : ℕ) :
    List VisionItem → ℕ → Except String (List VisionUseSpan)
  | [], _ => pure []
  | item :: items, previousEnd => do
    let start := if p.options.backend = .mtp ∧ item.first ≠ 0 then item.first - 1 else item.first
    let stop := item.last + 1
    refuseIf (start < previousEnd) "vision item consumer spans overlap"
    refuseIf (stop > promptTokens) "vision item consumer span exceeds prompt"
    let uses ← coldVisionUses p promptTokens items stop
    pure (⟨start, item.first, stop⟩ :: uses)

/-- `RequestBasePlan`. -/
structure RequestBasePlan where
  promptTokens : ℕ
  effectiveOutputTokens : ℕ
  admission : AdmissionResources
  rewriteCheckpoint : Option ℕ
  serviceWorkQuanta : ℕ
  deriving DecidableEq

/-- `reserved_context_tokens`. -/
def reservedContextTokens (promptTokens effectiveOutputTokens : ℕ) : ℕ :=
  promptTokens + (effectiveOutputTokens - 1)

/-- The KV pages `plan_request_base` entitles a request to. -/
def kvPageEntitlement (p : Program) (reservedTokens : ℕ) : AdmissionResources where
  mainKvPages :=
    pagesForTokens (if p.options.backend = .dflash then
      min p.capacity (reservedTokens + p.dflashVerifyWidth) else reservedTokens)
  backendKvPages :=
    match p.options.backend with
    | .none => 0
    | .mtp => pagesForTokens (min p.capacity (reservedTokens + p.draftWindow - 1))
    | .dflash => if p.target.dflashFullLayers then pagesForTokens reservedTokens else 0

/-- `plan_request_base`.  The checks on token ids, metadata shapes and sampling parameters only
reject requests and are left out. -/
def planRequestBase (p : Program) (prompt : PreparedPrompt) (options : ExecutionOptions) :
    Except String RequestBasePlan := do
  let promptTokens := prompt.shape.tokens
  refuseIf (promptTokens = 0) "prompt must contain tokens"
  refuseIf (promptTokens > p.capacity) "prompt exceeds configured context capacity"
  let effectiveOutputTokens := min options.requestedOutputTokens (p.capacity - promptTokens + 1)
  let reserved := reservedContextTokens promptTokens effectiveOutputTokens
  let uses ← coldVisionUses p promptTokens
    (if prompt.shape.hasMedia then prompt.visionItems else [])
    0
  refuseIf (∃ frontier ∈ prompt.rewriteCheckpoint, frontier = 0 ∨ frontier > promptTokens)
    "rewrite checkpoint frontier must lie at or inside the prompt frontier"
  pure
    { promptTokens, effectiveOutputTokens
      admission := kvPageEntitlement p reserved
      rewriteCheckpoint := prompt.rewriteCheckpoint
      serviceWorkQuanta :=
        projectedServiceWork effectiveOutputTokens prompt.shape 0 (prefillStepTokens p .shared)
          uses prompt.rewriteCheckpoint + recoveryWork p prompt options reserved }

/-- `PrefixReusePath`. -/
inductive PrefixReusePath where
  | fullReset
  | appendAtFrontier
  | restoreTurnCheckpoint
  | restoreResponseCheckpoint
  | restoreContextCheckpoint
  | restoreTurnRollback
  deriving DecidableEq

/-- What the reuse decision and the resident view hand to `finish_request_plan`. -/
structure ReuseDecision where
  path : PrefixReusePath := .fullReset
  frontier : ℕ := 0
  existingCheckpointMatches : Bool := false

/-- `RequestPlan`, as far as prefill reads it. -/
structure RequestPlan where
  base : RequestBasePlan
  prompt : PreparedPrompt
  reuseBase : ℕ
  visionUses : List VisionUseSpan
  rewriteCheckpointCapture : Option ℕ
  serviceWorkQuanta : ℕ

/-- The vision consumers that the prefill from `reuseBase` still meets. -/
def plannedVisionUses (prepareMtp : Bool) (reuseBase : ℕ) (items : List VisionItem) :
    List VisionUseSpan :=
  (items.map fun item =>
    ⟨if prepareMtp ∧ item.first ≠ 0 then item.first - 1 else item.first, item.first,
      item.last + 1⟩).filter (reuseBase < ·.useEnd)

/-- `finish_request_plan`. -/
def finishRequestPlan (p : Program) (prompt : PreparedPrompt) (options : ExecutionOptions)
    (base : RequestBasePlan) (reuse : ReuseDecision) : RequestPlan :=
  let capture :=
    match base.rewriteCheckpoint with
    | none => none
    | some desired =>
      if options.cacheWrite = false then none
      else if reuse.path ≠ .fullReset ∧ reuse.existingCheckpointMatches then none
      else if desired > reuse.frontier then some desired
      else none
  let reuseBase := if reuse.path = .fullReset then 0 else reuse.frontier
  let prepareMtp : Bool := p.options.backend = .mtp
  let visionUses :=
    if prompt.shape.hasMedia then plannedVisionUses prepareMtp reuseBase prompt.visionItems else []
  { base, prompt, reuseBase, visionUses
    rewriteCheckpointCapture := capture
    serviceWorkQuanta :=
      projectedServiceWork base.effectiveOutputTokens prompt.shape reuseBase
        (prefillStepTokens p .shared) visionUses capture +
      recoveryWork p prompt options
        (reservedContextTokens base.promptTokens base.effectiveOutputTokens) }

/-! ## Step widths -/

section Widths

variable (p : Program)

lemma prefillStepTokens_le (pace : PrefillPace) : prefillStepTokens p pace ≤ p.prefillChunk := by
  have hle := p.accepted.mixed_le_chunk
  cases pace with
  | exclusive => exact le_rfl
  | shared =>
    unfold prefillStepTokens Program.mixedForward Program.prefillChunk
    simp only
    split
    · split <;> omega
    · exact le_rfl

lemma prefillStepTokens_pos (pace : PrefillPace) : 0 < prefillStepTokens p pace := by
  have hchunk := p.accepted.chunk_pos
  have hcontext := p.accepted.context_pos
  have hpos : 0 < p.prefillChunk := lt_min hchunk hcontext
  cases pace with
  | exclusive => exact hpos
  | shared =>
    unfold prefillStepTokens
    simp only
    split <;> omega

/-- Steps of either pace keep up with the Shared walk. -/
lemma prefillStepTokens_pace (pace : PrefillPace) :
    prefillStepTokens p pace = prefillStepTokens p .shared ∨
      prefillStepTokens p .shared ≤ prefillStepTokens p pace ∧
        prefillStepTokens p .shared ≤ kIrregularPrefillSplit := by
  cases pace with
  | shared => exact .inl rfl
  | exclusive =>
    by_cases hmixed : p.mixedForward = 0
    · refine .inl ?_
      simp [prefillStepTokens, hmixed]
    · refine .inr ⟨prefillStepTokens_le p .shared, ?_⟩
      have hsplit := p.accepted.mixed_le_split
      have hshared : prefillStepTokens p .shared = p.mixedForward := by
        simp [prefillStepTokens, hmixed]
      rw [hshared, Program.mixedForward]
      split <;> omega

/-- The Shared width is aligned unless the context is shorter than the configured width. -/
lemma prefillStepTokens_aligned :
    prefillStepTokens p .shared % kPrefillChunkAlignment = 0 ∨
      prefillStepTokens p .shared = p.capacity := by
  have hchunk := p.accepted.chunk_aligned
  have hmixed := p.accepted.mixed_aligned
  unfold prefillStepTokens Program.mixedForward Program.prefillChunk Program.capacity
  unfold kPrefillChunkAlignment kMixedForwardAlignment at *
  by_cases hconcurrency : p.options.maxConcurrency > 1
  · simp only [if_pos hconcurrency]
    split <;> omega
  · simp only [if_neg hconcurrency, ne_eq, not_true_eq_false, if_false]
    omega

end Widths

/-! ## Vision consumers -/

/-- The consumer span of an item. -/
def VisionItem.span (mtp : Bool) (item : VisionItem) : VisionUseSpan :=
  ⟨if mtp ∧ item.first ≠ 0 then item.first - 1 else item.first, item.first, item.last + 1⟩

variable {options : ExecutionOptions} {prompt : PreparedPrompt} {base : RequestBasePlan}
    {uses : List VisionUseSpan}

/-- The base plan accepts only items whose consumers are apart. -/
lemma coldVisionUses_placed {p : Program} {promptTokens : ℕ} {items : List VisionItem}
    {previousEnd : ℕ} (h : coldVisionUses p promptTokens items previousEnd = .ok uses) :
    uses = items.map (VisionItem.span (p.options.backend = .mtp)) ∧ Placed uses ∧
      ∀ use ∈ uses, previousEnd ≤ use.useBegin := by
  induction items generalizing previousEnd uses with
  | nil =>
    cases h
    exact ⟨rfl, ⟨fun _ h => absurd h List.not_mem_nil, List.Pairwise.nil⟩,
      fun _ h => absurd h List.not_mem_nil⟩
  | cons item items ih =>
    unfold coldVisionUses at h
    simp only [refuseIf_bind_iff] at h
    obtain ⟨hstart, -, h⟩ := h
    obtain ⟨rest, hrest, h⟩ := ok_bind_iff.mp h
    obtain rfl := ok_pure_iff.mp h
    obtain ⟨rfl, hplaced, hafter⟩ := ih hrest
    have hordered := item.ordered
    refine ⟨by simp [VisionItem.span], ⟨?_, ?_⟩, ?_⟩
    · rintro use (_ | ⟨_, huse⟩)
      · simp only
        split <;> omega
      · exact hplaced.shape use huse
    · exact List.pairwise_cons.mpr ⟨fun use huse => hafter use huse, hplaced.apart⟩
    · rintro use (_ | ⟨_, huse⟩)
      · exact Nat.le_of_not_lt hstart
      · have := hafter use huse
        split at hstart <;> omega

lemma Placed.filter (h : Placed uses) (keep : VisionUseSpan → Bool) :
    Placed (uses.filter keep) :=
  ⟨fun use huse => h.shape use (List.mem_of_mem_filter huse),
    h.apart.sublist List.filter_sublist⟩

/-! ## What a plan promises -/

/-- What `plan_request_base` established. -/
structure RequestBasePlan.Made (p : Program) (prompt : PreparedPrompt) (options : ExecutionOptions)
    (base : RequestBasePlan) : Prop where
  promptTokens : base.promptTokens = prompt.shape.tokens
  pos : 0 < prompt.shape.tokens
  le_capacity : prompt.shape.tokens ≤ p.capacity
  effective : base.effectiveOutputTokens =
    min options.requestedOutputTokens (p.capacity - prompt.shape.tokens + 1)
  admission : base.admission = kvPageEntitlement p
    (reservedContextTokens base.promptTokens base.effectiveOutputTokens)
  rewrite : base.rewriteCheckpoint = prompt.rewriteCheckpoint
  placed : prompt.shape.hasMedia = true →
    Placed (prompt.visionItems.map (VisionItem.span (p.options.backend = .mtp)))

lemma planRequestBase_spec {p : Program} (h : planRequestBase p prompt options = .ok base) :
    base.Made p prompt options := by
  unfold planRequestBase at h
  rw [refuseIf_bind_iff, refuseIf_bind_iff, ok_bind_iff] at h
  obtain ⟨hpos, hcapacity, uses, huses, h⟩ := h
  rw [refuseIf_bind_iff, ok_pure_iff] at h
  obtain ⟨-, rfl⟩ := h
  exact
    { promptTokens := rfl
      pos := Nat.pos_of_ne_zero hpos
      le_capacity := Nat.le_of_not_lt hcapacity
      effective := rfl
      admission := rfl
      rewrite := rfl
      placed := fun hmedia => by
        rw [if_pos hmedia] at huses
        obtain ⟨rfl, hplaced, -⟩ := coldVisionUses_placed huses
        exact hplaced }

lemma finishRequestPlan_placed {p : Program} (h : base.Made p prompt options)
    (reuse : ReuseDecision) :
    Placed (finishRequestPlan p prompt options base reuse).visionUses := by
  unfold finishRequestPlan
  simp only
  split
  · exact (h.placed (by assumption)).filter _
  · exact ⟨fun _ h => absurd h List.not_mem_nil, List.Pairwise.nil⟩

/-- A plan captures the checkpoint that the prompt names, or none. -/
lemma finishRequestPlan_capture {p : Program} {reuse : ReuseDecision} {frontier : ℕ}
    (h : (finishRequestPlan p prompt options base reuse).rewriteCheckpointCapture = some frontier) :
    base.rewriteCheckpoint = some frontier := by
  simp only [finishRequestPlan] at h
  cases hcheckpoint : base.rewriteCheckpoint with
  | none => simp [hcheckpoint] at h
  | some desired =>
    simp only [hcheckpoint] at h
    split at h
    · cases h
    split at h
    · cases h
    split at h
    · exact h
    · cases h

/-- The prefill that a plan describes. -/
def RequestPlan.job (plan : RequestPlan) (placed : Placed plan.visionUses) : Job where
  prompt := plan.prompt.shape
  visionUses := plan.visionUses
  rewriteFrontier := plan.rewriteCheckpointCapture
  placed := placed
  sorted := plan.prompt.sorted

end NInfer.Prefill
