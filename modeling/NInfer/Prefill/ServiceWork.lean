import NInfer.Prefill.Plan

/-!
# Service work

Admission grants a request `service_work_quanta`.  Every prefill step takes one quantum and every
committed decode token takes one (`consume_service_work`); running out throws and takes the whole
engine down.  The run of a request is the run of a small state machine: staged prefill
(`advance_prefill`), decode rounds, and up to two recovery retries, each of which prefills a longer
prompt in the same lane with what is left of the output budget (`start_recovery_attempt`).

`Funded` is the invariant.  A request that prefills holds a quantum for every step that is left and
for every output token after the next, one that decodes holds a quantum for every output token, and
both hold the allowance of the retries still to come.
-/

namespace NInfer.Prefill

/-! ## Staged prefill -/

/-- `RequestControl::Prefill`. -/
structure Staged where
  plan : RequestPlan
  cursor : ℕ

/-- The length of the one chunk that `TextContext::prefill_impl` runs. -/
def prefillImpl (p : Program) (plan : RequestPlan) (cursor nominal : ℕ) : ℕ :=
  let length := min p.prefillChunk nominal
  let length :=
    match plan.rewriteCheckpointCapture with
    | some checkpoint =>
      if checkpoint > cursor ∧ checkpoint ≤ cursor + nominal ∧ length > checkpoint - cursor then
        checkpoint - cursor
      else length
    | none => length
  let length :=
    if plan.prompt.shape.hasMedia then
      capPrefillAtFrontiers cursor length plan.prompt.shape.turnClosureFrontiers
    else length
  if plan.visionUses = [] then length
  else
    (selectVisionPrefillChunk plan.visionUses cursor
      (min (cursor + length) plan.prompt.shape.tokens - cursor)).length

/-- `advance_prefill`: where the step stops, and whether it sampled the first token. -/
def advancePrefill (p : Program) (staged : Staged) (pace : PrefillPace) :
    Except String (Staged × Bool) :=
  let tokens := staged.plan.prompt.shape.tokens
  if staged.cursor < tokens then do
    let nominal := selectPrefillChunk (tokens - staged.cursor) (prefillStepTokens p pace)
    let processed := prefillImpl p staged.plan staged.cursor nominal
    let finalized : Bool := staged.cursor + nominal = tokens ∧ processed = nominal
    refuseIf (processed = 0 ∨ processed > nominal) "ordinary prefill chunk made invalid progress"
    let cursor := staged.cursor + processed
    refuseIf (∃ frontier ∈ staged.plan.rewriteCheckpointCapture,
      staged.cursor < frontier ∧ frontier < cursor)
      "prefill chunk crossed the rewrite checkpoint frontier"
    refuseIf (finalized = false ∧ cursor = tokens)
      "staged prefill reached the prompt without sampling"
    refuseIf (finalized = true ∧ cursor ≠ tokens)
      "staged prefill sampled before the prompt frontier"
    pure (⟨staged.plan, cursor⟩, finalized)
  else pure (staged, true)

/-! ## Requests -/

/-- Where a bound request is. -/
inductive Stage where
  | prefilling (staged : Staged)
  | decodeReady
  | recoveryPending
  | complete

namespace Stage

def isPrefilling : Stage → Bool
  | .prefilling _ => true
  | _ => false

def isDecodeReady : Stage → Bool
  | .decodeReady => true
  | _ => false

def isRecoveryPending : Stage → Bool
  | .recoveryPending => true
  | _ => false

lemma of_isPrefilling {stage : Stage} (h : stage.isPrefilling = true) :
    ∃ staged, stage = .prefilling staged := by
  cases stage with
  | prefilling staged => exact ⟨staged, rfl⟩
  | _ => cases h

lemma of_isDecodeReady {stage : Stage} (h : stage.isDecodeReady = true) : stage = .decodeReady := by
  cases stage with
  | decodeReady => rfl
  | _ => cases h

lemma of_isRecoveryPending {stage : Stage} (h : stage.isRecoveryPending = true) :
    stage = .recoveryPending := by
  cases stage with
  | recoveryPending => rfl
  | _ => cases h

end Stage

/-- `Request`, as far as its service accounting reads it; the last two fields count the steps taken
and the tokens committed. -/
structure Request where
  recoverable : Bool
  options : ExecutionOptions
  admission : AdmissionResources
  stage : Stage
  budget : ℕ
  attempts : ℕ
  remainingServiceWork : ℕ
  prefillSteps : ℕ
  decodeTokens : ℕ

/-- How a round ends, as output policy and repetition detection decide it. -/
inductive Outcome where
  | continues
  | finishes
  | repeats
  | cancelled
  deriving DecidableEq

namespace Request

/-- `consume_service_work`. -/
def consumeServiceWork (r : Request) (work : ℕ) : Except String Request := do
  refuseIf (work = 0 ∨ work > r.remainingServiceWork)
    ("request service projection consumed " ++ toString work ++ " quanta with " ++
      toString r.remainingServiceWork ++ " remaining")
  pure { r with remainingServiceWork := r.remainingServiceWork - work }

/-- `GenerationBudget::commit`, which aborts on an overdraft. -/
def commit (r : Request) (tokens : ℕ) : Except String Request := do
  refuseIf (tokens > r.budget) "abort"
  pure { r with budget := r.budget - tokens }

/-- The end of a round: `preview` finishes a request that used up its budget, and a repetition
starts a retry while retries and budget last (`finish_generation`,
`recover_persistent_reasoning`). -/
def afterRound (r : Request) : Outcome → Request
  | .continues => { r with stage := if r.budget = 0 then .complete else .decodeReady }
  | .repeats =>
    { r with
      stage :=
        if r.recoverable = false ∨ r.attempts ≥ maximumAttempts ∨ r.budget = 0 then .complete
        else .recoveryPending }
  | .finishes => { r with stage := .complete }
  | .cancelled => { r with stage := .complete }

/-- `resolve_prefill_step`. -/
def resolvePrefillStep (r : Request) (staged : Staged) (complete : Bool) (outcome : Outcome) :
    Except String Request := do
  let r ← r.consumeServiceWork 1
  let r := { r with stage := .prefilling staged, prefillSteps := r.prefillSteps + 1 }
  if outcome = .cancelled then pure { r with stage := .complete }
  else if complete = false then pure r
  else do
    let r ← r.commit 1
    pure (r.afterRound outcome)

/-- One row of `run_decode_round`. -/
def decodeRow (r : Request) (accepted : ℕ) (outcome : Outcome) : Except String Request :=
  if outcome = .cancelled then pure { r with stage := .complete }
  else do
    let r ← r.commit accepted
    let r ← r.consumeServiceWork accepted
    pure ({ r with decodeTokens := r.decodeTokens + accepted }.afterRound outcome)

end Request

/-- `splice_recovery_prompt`: text only, to be checkpointed at its end. -/
def splicedPrompt (tokens : ℕ) : PreparedPrompt where
  shape := { tokens }
  rewriteCheckpoint := some tokens
  generationRecovery := true
  sorted := List.Pairwise.nil

/-- `recovery_output_budget_preserved`. -/
def recoveryOutputBudgetPreserved (spliced capacity remaining : ℕ) : Bool :=
  spliced ≤ capacity ∧ remaining ≤ capacity - spliced + 1

/-- `start_recovery_attempt`: the splice, and the reuse decision of the chosen route, if there is
one. -/
def startRecoveryAttempt (p : Program) (r : Request) (spliced : Option ℕ)
    (route : Option ReuseDecision) : Request :=
  let exhausted := { r with stage := .complete }
  match spliced, route with
  | some tokens, some reuse =>
    let options := { r.options with requestedOutputTokens := r.budget }
    if recoveryOutputBudgetPreserved tokens p.capacity r.budget = false then exhausted
    else
      match planRequestBase p (splicedPrompt tokens) options with
      | .error _ => exhausted
      | .ok base =>
        if admissionResourcesFit base.admission r.admission ∧
            base.effectiveOutputTokens = r.budget then
          let plan := finishRequestPlan p (splicedPrompt tokens) options base reuse
          { r with stage := .prefilling ⟨plan, plan.reuseBase⟩, attempts := r.attempts + 1 }
        else exhausted
  | _, _ => exhausted

/-- A request that was planned and bound to a lane.  Requests without output are answered without
being planned. -/
structure Admission (p : Program) where
  prompt : PreparedPrompt
  options : ExecutionOptions
  /-- Generation recovery is on for the engine, and the output of this request is not raw. -/
  recovery : Bool
  base : RequestBasePlan
  reuse : ReuseDecision
  planned : planRequestBase p prompt options = .ok base
  output_pos : 0 < options.requestedOutputTokens
  /-- The reused tokens are a prefix of the prompt. -/
  reuse_le : reuse.frontier ≤ prompt.shape.tokens

namespace Admission

variable {p : Program} (a : Admission p)

def plan : RequestPlan := finishRequestPlan p a.prompt a.options a.base a.reuse

/-- Whether the request has a recovery context. -/
def recoverable : Bool := a.recovery && a.options.pLess && a.prompt.generationRecovery

def reservedTokens : ℕ := reservedContextTokens a.base.promptTokens a.base.effectiveOutputTokens

/-- The request as `admit_planned_request` binds it. -/
def request : Request where
  recoverable := a.recoverable
  options := a.options
  admission := a.base.admission
  stage := .prefilling ⟨a.plan, a.plan.reuseBase⟩
  budget := a.base.effectiveOutputTokens
  attempts := 0
  remainingServiceWork := a.plan.serviceWorkQuanta
  prefillSteps := 0
  decodeTokens := 0

end Admission

/-- What happens to a bound request.  A rejected decode row changes nothing that is counted. -/
inductive Event where
  | prefillStep (pace : PrefillPace) (outcome : Outcome)
  | decodeRow (accepted : ℕ) (outcome : Outcome)
  | startRecovery (spliced : Option ℕ) (route : Option ReuseDecision)
  | cancel

def Event.isRetry : Event → Bool
  | .startRecovery _ _ => true
  | _ => false

/-- When an event can happen: `preview` accepts at most what is left of the budget, and a route
reuses a prefix of the spliced prompt. -/
def Enabled (r : Request) : Event → Prop
  | .prefillStep _ _ => r.stage.isPrefilling
  | .decodeRow accepted _ => r.stage.isDecodeReady ∧ 0 < accepted ∧ accepted ≤ r.budget
  | .startRecovery spliced route =>
    r.stage.isRecoveryPending ∧ ∀ tokens ∈ spliced, ∀ reuse ∈ route, reuse.frontier ≤ tokens
  | .cancel => True

instance (r : Request) : (event : Event) → Decidable (Enabled r event)
  | .prefillStep _ _ => inferInstanceAs (Decidable (_ = true))
  | .decodeRow _ _ => inferInstanceAs (Decidable (_ ∧ _ ∧ _))
  | .startRecovery _ _ => inferInstanceAs (Decidable (_ ∧ _))
  | .cancel => inferInstanceAs (Decidable True)

def step (p : Program) (r : Request) : Event → Except String Request
  | .prefillStep pace outcome =>
    match r.stage with
    | .prefilling staged => do
      let (staged, complete) ← advancePrefill p staged pace
      r.resolvePrefillStep staged complete outcome
    | _ => throw "staged prefill lane has invalid request state"
  | .decodeRow accepted outcome => r.decodeRow accepted outcome
  | .startRecovery spliced route => pure (startRecoveryAttempt p r spliced route)
  | .cancel => pure { r with stage := .complete }

variable {p : Program} {r r' : Request}

/-- A retry prefills a planned prompt that fits the pages of its request. -/
lemma startRecoveryAttempt_prefilling {spliced : Option ℕ} {route : Option ReuseDecision}
    {staged : Staged} (h : (startRecoveryAttempt p r spliced route).stage = .prefilling staged) :
    admissionResourcesFit staged.plan.base.admission r.admission = true ∧
      ∃ prompt options, planRequestBase p prompt options = .ok staged.plan.base := by
  unfold startRecoveryAttempt at h
  split at h
  swap
  · cases h
  rename_i tokens reuse
  simp only at h
  split at h
  · cases h
  split at h
  · cases h
  rename_i base hbase
  split at h
  · rename_i hfit
    cases h
    exact ⟨hfit.1, splicedPrompt tokens, _, hbase⟩
  · cases h

/-- A request that waits for its retry does not go on by itself. -/
lemma not_recoveryPending_of_step {event : Event} (hevent : event.isRetry = false)
    (henabled : Enabled r event) (hstep : step p r event = .ok r')
    (hactive : r'.stage ≠ .complete) : r.stage.isRecoveryPending = false := by
  cases event with
  | prefillStep pace outcome =>
    obtain ⟨staged, hstage⟩ := Stage.of_isPrefilling henabled
    rw [hstage]
    rfl
  | decodeRow accepted outcome =>
    rw [Stage.of_isDecodeReady henabled.1]
    rfl
  | startRecovery spliced route => cases hevent
  | cancel =>
    cases hstep
    exact absurd rfl hactive

/-! ## The resources of a request -/

lemma Request.consumeServiceWork_admission {work : ℕ} (h : r.consumeServiceWork work = .ok r') :
    r'.admission = r.admission := by
  rw [consumeServiceWork, refuseIf_bind_iff] at h
  rw [← ok_pure_iff.mp h.2]

lemma Request.commit_admission {tokens : ℕ} (h : r.commit tokens = .ok r') :
    r'.admission = r.admission := by
  rw [commit, refuseIf_bind_iff] at h
  rw [← ok_pure_iff.mp h.2]

lemma Request.afterRound_admission (r : Request) (outcome : Outcome) :
    (r.afterRound outcome).admission = r.admission := by
  cases outcome <;> rfl

lemma Request.resolvePrefillStep_admission {staged : Staged} {complete : Bool} {outcome : Outcome}
    (h : r.resolvePrefillStep staged complete outcome = .ok r') : r'.admission = r.admission := by
  rw [resolvePrefillStep, ok_bind_iff] at h
  obtain ⟨r₁, hconsumed, h⟩ := h
  have hadmission := consumeServiceWork_admission hconsumed
  split at h
  · rw [← ok_pure_iff.mp h]
    exact hadmission
  split at h
  · rw [← ok_pure_iff.mp h]
    exact hadmission
  · rw [ok_bind_iff] at h
    obtain ⟨r₂, hcommitted, h⟩ := h
    rw [← ok_pure_iff.mp h, afterRound_admission, commit_admission hcommitted]
    exact hadmission

lemma Request.decodeRow_admission {accepted : ℕ} {outcome : Outcome}
    (h : r.decodeRow accepted outcome = .ok r') : r'.admission = r.admission := by
  unfold decodeRow at h
  split at h
  · rw [← ok_pure_iff.mp h]
  · rw [ok_bind_iff] at h
    obtain ⟨r₁, hcommitted, h⟩ := h
    rw [ok_bind_iff] at h
    obtain ⟨r₂, hconsumed, h⟩ := h
    rw [← ok_pure_iff.mp h, afterRound_admission]
    exact (consumeServiceWork_admission hconsumed).trans (commit_admission hcommitted)

lemma startRecoveryAttempt_admission (p : Program) (r : Request) (spliced : Option ℕ)
    (route : Option ReuseDecision) :
    (startRecoveryAttempt p r spliced route).admission = r.admission := by
  unfold startRecoveryAttempt
  split
  swap
  · rfl
  simp only
  split
  · rfl
  split
  · rfl
  split
  · rfl
  · rfl

/-- A request keeps the resources that it was admitted with. -/
lemma step_admission {event : Event} (h : step p r event = .ok r') :
    r'.admission = r.admission := by
  cases event with
  | prefillStep pace outcome =>
    simp only [step] at h
    split at h
    · rw [ok_bind_iff] at h
      obtain ⟨_, -, h⟩ := h
      exact Request.resolvePrefillStep_admission h
    · cases h
  | decodeRow accepted outcome => exact Request.decodeRow_admission h
  | startRecovery spliced route =>
    rw [← ok_pure_iff.mp h]
    exact startRecoveryAttempt_admission ..
  | cancel => rw [← ok_pure_iff.mp h]

/-- The requests that an admission can become. -/
inductive Served {p : Program} (a : Admission p) : Request → Prop
  | admitted : Served a a.request
  | step {r r' : Request} (event : Event) : Served a r → Enabled r event →
      step p r event = .ok r' → Served a r'

/-! ## One prefill step -/

namespace Staged

/-- A step inside a plan that admission made. -/
structure Sound (staged : Staged) : Prop where
  placed : Placed staged.plan.visionUses
  le_tokens : staged.cursor ≤ staged.plan.prompt.shape.tokens

/-- The steps that are left at the Shared width. -/
def units (p : Program) (staged : Staged) : ℕ :=
  projectedPrefillWork staged.plan.prompt.shape staged.cursor (prefillStepTokens p .shared)
    staged.plan.visionUses staged.plan.rewriteCheckpointCapture

end Staged

lemma capPrefillAtFrontiers_le (start length : ℕ) (frontiers : List ℕ) :
    capPrefillAtFrontiers start length frontiers ≤ length := by
  unfold capPrefillAtFrontiers
  split
  · exact le_rfl
  · exact min_le_left ..

/-- Execution cuts a chunk where admission projected the cut. -/
lemma prefillImpl_eq (p : Program) (plan : RequestPlan) {cursor : ℕ} (pace : PrefillPace)
    (hcursor : cursor < plan.prompt.shape.tokens) :
    prefillImpl p plan cursor
        (selectPrefillChunk (plan.prompt.shape.tokens - cursor) (prefillStepTokens p pace)) =
      projectedChunk plan.prompt.shape (prefillStepTokens p pace) plan.visionUses
        plan.rewriteCheckpointCapture cursor := by
  have hwidth := prefillStepTokens_le p pace
  have hmaximum : selectPrefillChunk (plan.prompt.shape.tokens - cursor) (prefillStepTokens p pace)
      ≤ prefillStepTokens p pace := selectPrefillChunk_le_maximum
  have hremaining : selectPrefillChunk (plan.prompt.shape.tokens - cursor)
      (prefillStepTokens p pace) ≤ plan.prompt.shape.tokens - cursor :=
    selectPrefillChunk_le_remaining
  unfold prefillImpl projectedChunk
  generalize selectPrefillChunk (plan.prompt.shape.tokens - cursor) (prefillStepTokens p pace) =
    nominal at *
  rw [Nat.min_eq_right (hmaximum.trans hwidth)]
  have hrewrite : (match plan.rewriteCheckpointCapture with
      | some checkpoint =>
        if checkpoint > cursor ∧ checkpoint ≤ cursor + nominal ∧ nominal > checkpoint - cursor then
          checkpoint - cursor
        else nominal
      | none => nominal) = capAtRewrite cursor nominal plan.rewriteCheckpointCapture := by
    unfold capAtRewrite
    cases plan.rewriteCheckpointCapture with
    | none => rfl
    | some checkpoint =>
      simp only
      split <;> split <;> omega
  have hle : capAtRewrite cursor nominal plan.rewriteCheckpointCapture ≤ nominal := by
    unfold capAtRewrite
    split
    · split <;> omega
    · exact le_rfl
  simp only [hrewrite]
  generalize capAtRewrite cursor nominal plan.rewriteCheckpointCapture = length at hle ⊢
  have hclosure : (if plan.prompt.shape.hasMedia then
      capPrefillAtFrontiers cursor length plan.prompt.shape.turnClosureFrontiers else length)
      ≤ length := by
    split
    · exact capPrefillAtFrontiers_le ..
    · exact le_rfl
  by_cases huses : plan.visionUses = []
  · rw [huses]
    exact (Nat.add_sub_cancel_left ..).symm
  · rw [if_neg huses, Nat.min_eq_left (by omega), Nat.add_sub_cancel_left]

lemma advancePrefill_spec {staged : Staged} (h : staged.Sound) (pace : PrefillPace) :
    ∃ next complete, advancePrefill p staged pace = .ok (next, complete) ∧ next.Sound ∧
      (complete = false → next.units p + 1 ≤ staged.units p) := by
  unfold advancePrefill
  by_cases hcursor : staged.cursor < staged.plan.prompt.shape.tokens
  swap
  · refine ⟨staged, true, ?_, h, fun h => by cases h⟩
    simp only [if_neg hcursor]
    rfl
  have hwidth := prefillStepTokens_pos p pace
  let j := staged.plan.job h.placed
  have hlt : staged.cursor < j.next (prefillStepTokens p pace) staged.cursor :=
    j.lt_next hwidth hcursor
  have hle : j.next (prefillStepTokens p pace) staged.cursor ≤ staged.plan.prompt.shape.tokens :=
    j.next_le_tokens hwidth hcursor
  have hnominal := j.next_le_nominal hwidth hcursor
  have hchunk := prefillImpl_eq p staged.plan pace hcursor
  have hnext : j.next (prefillStepTokens p pace) staged.cursor = staged.cursor +
      prefillImpl p staged.plan staged.cursor (selectPrefillChunk
        (staged.plan.prompt.shape.tokens - staged.cursor) (prefillStepTokens p pace)) := by
    rw [hchunk]
    rfl
  have hremaining : selectPrefillChunk (staged.plan.prompt.shape.tokens - staged.cursor)
      (prefillStepTokens p pace) ≤ staged.plan.prompt.shape.tokens - staged.cursor :=
    selectPrefillChunk_le_remaining
  have hrewrite : ∀ frontier ∈ staged.plan.rewriteCheckpointCapture, staged.cursor < frontier →
      j.next (prefillStepTokens p pace) staged.cursor ≤ frontier :=
    fun frontier hfrontier hlt => j.next_le_rewrite hwidth hcursor hfrontier hlt
  have hunits : j.next (prefillStepTokens p pace) staged.cursor < staged.plan.prompt.shape.tokens →
      j.units (prefillStepTokens p .shared) (j.next (prefillStepTokens p pace) staged.cursor) + 1 ≤
        j.units (prefillStepTokens p .shared) staged.cursor :=
    j.units_next (prefillStepTokens_pos p .shared) (prefillStepTokens_pace p pace) hcursor
  have htokens : j.prompt.tokens = staged.plan.prompt.shape.tokens := rfl
  rw [htokens] at hnominal
  rw [hnext] at hlt hle hrewrite hunits
  simp only [if_pos hcursor]
  generalize selectPrefillChunk (staged.plan.prompt.shape.tokens - staged.cursor)
    (prefillStepTokens p pace) = nominal at *
  generalize prefillImpl p staged.plan staged.cursor nominal = processed at *
  refine ⟨⟨staged.plan, staged.cursor + processed⟩,
    decide (staged.cursor + nominal = staged.plan.prompt.shape.tokens ∧ processed = nominal), ?_,
    ⟨h.placed, hle⟩, fun hfinal => ?_⟩
  · rw [refuseIf_bind_iff, refuseIf_bind_iff, refuseIf_bind_iff, refuseIf_bind_iff]
    refine ⟨by omega, ?_, ?_, ?_, rfl⟩
    · rintro ⟨frontier, hfrontier, hlt, hcross⟩
      exact absurd (hrewrite frontier hfrontier hlt) (Nat.not_le.mpr hcross)
    · rintro ⟨hfinal, hend⟩
      exact of_decide_eq_false hfinal ⟨by omega, by omega⟩
    · rintro ⟨hfinal, hend⟩
      obtain ⟨hcandidate, hwhole⟩ := of_decide_eq_true hfinal
      omega
  · have hnot := of_decide_eq_false hfinal
    exact hunits (by omega)

/-! ## One recovery retry -/

/-- The widest Shared step for which a retry costs at most three steps more than its allowance
counts. -/
def kRecoverableWidth : ℕ := 4 * kIrregularPrefillSplit

/-- Prompts that differ by little take at most three steps more. -/
lemma prefillChunkCount_le_add_three {reserved tokens width : ℕ} (hwidth : 0 < width)
    (hle : width ≤ kRecoverableWidth)
    (haligned : width % kPrefillChunkAlignment = 0 ∨ tokens ≤ width)
    (hreserved : 0 < reserved) (htokens : tokens ≤ reserved + 79) :
    prefillChunkCount tokens width ≤ prefillChunkCount reserved width + 3 := by
  have hlower : reserved ≤ width * prefillChunkCount reserved width :=
    le_mul_prefillChunkCount hwidth
  generalize prefillChunkCount reserved width = count at hlower
  have hcount : 0 < count := Nat.pos_of_ne_zero (fun h => by simp [h] at hlower; omega)
  unfold kRecoverableWidth kIrregularPrefillSplit at hle
  rcases haligned with haligned | hshort
  · have hupper := prefillChunkCount_le_aligned tokens hwidth haligned
    unfold kPrefillChunkAlignment at haligned
    unfold kIrregularPrefillSplit at hupper
    have hmod := Nat.mod_lt tokens hwidth
    have hdiv := Nat.div_add_mod tokens width
    -- Either the prompt fills fewer whole widths, or less than one alignment unit is left over.
    by_cases hfewer : tokens / width < count
    · omega
    · have hfull : width * count ≤ width * (tokens / width) :=
        Nat.mul_le_mul_left _ (Nat.le_of_not_lt hfewer)
      have hquotient : tokens / width < count + 1 := by
        rw [Nat.div_lt_iff_lt_mul hwidth, Nat.add_mul, Nat.mul_comm count]
        omega
      omega
  · by_cases hsplit : kIrregularPrefillSplit ≤ width
    · have hupper := prefillChunkCount_le_split tokens hsplit
      unfold kIrregularPrefillSplit at hupper
      omega
    · have hupper := prefillChunkCount_le_one hshort (Nat.le_of_not_le hsplit)
      omega

/-- A request that fits the pages of another one is not much longer. -/
lemma reserved_le_of_fit {reserved reserved' : ℕ} (hreserved : 0 < reserved)
    (hcapacity : reserved' ≤ p.capacity)
    (hfit : admissionResourcesFit (kvPageEntitlement p reserved') (kvPageEntitlement p reserved)) :
    reserved' ≤ reserved + 79 := by
  have hwidth := p.dflashVerifyWidth_le
  have hpages : (kvPageEntitlement p reserved').mainKvPages ≤
      (kvPageEntitlement p reserved).mainKvPages := by
    simp only [admissionResourcesFit, decide_eq_true_eq] at hfit
    exact hfit.2.1
  simp only [kvPageEntitlement, pagesForTokens, kPagedKVPageSize] at hpages
  split at hpages <;> omega

/-- The steps of a retry that passed its checks. -/
lemma retry_units_le (hwidth : prefillStepTokens p .shared ≤ kRecoverableWidth)
    {tokens budget reserved : ℕ} {options : ExecutionOptions} {base : RequestBasePlan}
    (hbase : base.Made p (splicedPrompt tokens) options) (hbudget : 0 < budget)
    (heffective : base.effectiveOutputTokens = budget)
    (hcapacity : budget ≤ p.capacity - tokens + 1) (hreserved : 0 < reserved)
    (hfit : admissionResourcesFit base.admission (kvPageEntitlement p reserved))
    (reuse : ReuseDecision) (hreuse : reuse.frontier ≤ tokens) :
    let plan := finishRequestPlan p (splicedPrompt tokens) options base reuse
    (⟨plan, plan.reuseBase⟩ : Staged).Sound ∧
      (⟨plan, plan.reuseBase⟩ : Staged).units p ≤
        prefillChunkCount reserved (prefillStepTokens p .shared) + 3 := by
  intro plan
  have hpos := prefillStepTokens_pos p .shared
  have hplaced : Placed plan.visionUses := finishRequestPlan_placed hbase reuse
  have hstart : plan.reuseBase ≤ tokens := by
    show (if reuse.path = .fullReset then 0 else reuse.frontier) ≤ tokens
    split <;> omega
  refine ⟨⟨hplaced, hstart⟩, ?_⟩
  have hle : tokens ≤ p.capacity := hbase.le_capacity
  have htokens : tokens ≤ reserved + 79 := by
    rw [hbase.admission] at hfit
    have := reserved_le_of_fit hreserved ?_ hfit
    · rw [hbase.promptTokens] at this
      exact (Nat.le_add_right ..).trans this
    · rw [hbase.promptTokens, heffective]
      show tokens + (budget - 1) ≤ p.capacity
      omega
  let j := plan.job hplaced
  have hrewrite : ∀ frontier, j.rewriteFrontier = some frontier → frontier = j.prompt.tokens := by
    intro frontier (hcapture : (finishRequestPlan p (splicedPrompt tokens) options base
      reuse).rewriteCheckpointCapture = some frontier)
    have hdesired := (finishRequestPlan_capture hcapture).symm.trans hbase.rewrite
    exact Option.some.inj hdesired
  show j.units (prefillStepTokens p .shared) plan.reuseBase ≤ _
  rcases hstart.eq_or_lt with hend | hlt
  · have : j.units (prefillStepTokens p .shared) plan.reuseBase = 1 := by
      rw [hend]
      exact j.units_tokens
    omega
  · have hcount := j.units_le_prefillChunkCount hpos rfl rfl hrewrite hlt
    have haligned : prefillStepTokens p .shared % kPrefillChunkAlignment = 0 ∨
        tokens - plan.reuseBase ≤ prefillStepTokens p .shared :=
      (prefillStepTokens_aligned p).imp_right (fun h => by omega)
    have hadd := prefillChunkCount_le_add_three hpos hwidth haligned hreserved (by omega)
    exact hcount.trans hadd

/-! ## The invariant -/

namespace Admission

variable {p : Program} (a : Admission p)

lemma made : a.base.Made p a.prompt a.options := planRequestBase_spec a.planned

lemma reservedTokens_pos : 0 < a.reservedTokens := by
  have := a.made.pos
  rw [reservedTokens, reservedContextTokens, a.made.promptTokens]
  omega

/-- The allowance of the retries still to come. -/
def allowance (attempts : ℕ) : ℕ :=
  if a.recoverable then
    (maximumAttempts - attempts) *
      (prefillChunkCount a.reservedTokens (prefillStepTokens p .shared) + 2)
  else 0

/-- A retry turns its allowance into prefill steps; its first token is free. -/
lemma allowance_step {attempts : ℕ} (hrecoverable : a.recoverable = true)
    (hattempts : attempts < maximumAttempts) :
    a.allowance attempts = a.allowance (attempts + 1) +
      (prefillChunkCount a.reservedTokens (prefillStepTokens p .shared) + 2) := by
  unfold allowance
  rw [if_pos hrecoverable, if_pos hrecoverable]
  obtain ⟨left, hleft⟩ := Nat.exists_eq_add_of_lt hattempts
  rw [show maximumAttempts - attempts = left + 1 by omega,
    show maximumAttempts - (attempts + 1) = left by omega, Nat.add_mul, Nat.one_mul]

end Admission

/-- What a stage has to hold back. -/
def StageFunded {p : Program} (a : Admission p) (r : Request) : Prop :=
  match r.stage with
  | .prefilling staged =>
    staged.Sound ∧ 0 < r.budget ∧
      staged.units p + (r.budget - 1) + a.allowance r.attempts ≤ r.remainingServiceWork
  | .decodeReady => 0 < r.budget ∧ r.budget + a.allowance r.attempts ≤ r.remainingServiceWork
  | .recoveryPending =>
    a.recoverable = true ∧ r.attempts < maximumAttempts ∧ 0 < r.budget ∧
      r.budget + a.allowance r.attempts ≤ r.remainingServiceWork
  | .complete => True

/-- The accounting of a request. -/
structure Funded {p : Program} (a : Admission p) (r : Request) : Prop where
  conserved : r.prefillSteps + r.decodeTokens + r.remainingServiceWork = a.plan.serviceWorkQuanta
  admission : r.admission = kvPageEntitlement p a.reservedTokens
  recoverable : r.recoverable = a.recoverable
  stage : StageFunded a r

namespace Funded

variable {p : Program} {a : Admission p} {r : Request}

lemma units_pos {staged : Staged} (h : staged.Sound) : 0 < staged.units p :=
  (staged.plan.job h.placed).units_pos (prefillStepTokens_pos p .shared) h.le_tokens

lemma request : Funded a a.request := by
  have hmade := a.made
  have hplaced : Placed a.plan.visionUses := finishRequestPlan_placed hmade a.reuse
  have hstart : a.plan.reuseBase ≤ a.plan.prompt.shape.tokens := by
    have := a.reuse_le
    show (if a.reuse.path = .fullReset then 0 else a.reuse.frontier) ≤ a.prompt.shape.tokens
    split <;> omega
  have hbudget : 0 < a.base.effectiveOutputTokens := by
    have := a.output_pos
    rw [hmade.effective]
    omega
  constructor
  · exact (Nat.zero_add _)
  · exact hmade.admission
  · rfl
  · refine ⟨⟨hplaced, hstart⟩, hbudget, ?_⟩
    have hallowance : a.allowance 0 ≤ recoveryWork p a.prompt a.options a.reservedTokens := by
      unfold Admission.allowance recoveryWork Admission.recoverable
      split
      · rename_i hrecoverable
        simp only [Bool.and_eq_true] at hrecoverable
        rw [if_pos ⟨hrecoverable.2, hrecoverable.1.2⟩]
        exact le_rfl
      · exact Nat.zero_le _
    exact Nat.add_le_add_left hallowance _

/-- The end of a round keeps what the budget and the allowance need. -/
lemma afterRound (hconserved : r.prefillSteps + r.decodeTokens + r.remainingServiceWork =
      a.plan.serviceWorkQuanta)
    (hadmission : r.admission = kvPageEntitlement p a.reservedTokens)
    (hrecoverable : r.recoverable = a.recoverable)
    (hfunds : r.budget + a.allowance r.attempts ≤ r.remainingServiceWork) (outcome : Outcome) :
    Funded a (r.afterRound outcome) := by
  cases outcome with
  | finishes | cancelled => exact ⟨hconserved, hadmission, hrecoverable, trivial⟩
  | continues =>
    refine ⟨hconserved, hadmission, hrecoverable, ?_⟩
    by_cases hbudget : r.budget = 0
    · simp [StageFunded, Request.afterRound, hbudget]
    · simp only [Request.afterRound, if_neg hbudget]
      exact ⟨Nat.pos_of_ne_zero hbudget, hfunds⟩
  | repeats =>
    refine ⟨hconserved, hadmission, hrecoverable, ?_⟩
    by_cases hexhausted :
        r.recoverable = false ∨ r.attempts ≥ maximumAttempts ∨ r.budget = 0
    · simp only [StageFunded, Request.afterRound, if_pos hexhausted]
    · simp only [StageFunded, Request.afterRound, if_neg hexhausted]
      simp only [not_or, Bool.not_eq_false] at hexhausted
      exact ⟨hrecoverable ▸ hexhausted.1, by omega, by omega, hfunds⟩

lemma consumeServiceWork {work : ℕ} (hpos : 0 < work) (hle : work ≤ r.remainingServiceWork) :
    Succeeds (r.consumeServiceWork work)
      (· = { r with remainingServiceWork := r.remainingServiceWork - work }) :=
  (Succeeds.refuse (by omega)).bind fun _ _ => .pure rfl

lemma commit {tokens : ℕ} (hle : tokens ≤ r.budget) :
    Succeeds (r.commit tokens) (· = { r with budget := r.budget - tokens }) :=
  (Succeeds.refuse (by omega)).bind fun _ _ => .pure rfl

section

variable (h : Funded a r)

include h

lemma prefilling {staged : Staged} (hstage : r.stage = .prefilling staged) :
    staged.Sound ∧ 0 < r.budget ∧
      staged.units p + (r.budget - 1) + a.allowance r.attempts ≤ r.remainingServiceWork := by
  have := h.stage
  rwa [StageFunded, hstage] at this

lemma resolvePrefillStep {staged next : Staged} {complete : Bool}
    (hstage : r.stage = .prefilling staged) (hnext : next.Sound)
    (hless : complete = false → next.units p + 1 ≤ staged.units p) (outcome : Outcome) :
    Succeeds (r.resolvePrefillStep next complete outcome) (Funded a) := by
  obtain ⟨hsound, hbudget, hfunds⟩ := h.prefilling hstage
  have hconserved := h.conserved
  have hunits : 0 < staged.units p := units_pos hsound
  refine (consumeServiceWork Nat.one_pos (by omega)).bind ?_
  rintro _ rfl
  split
  · exact .pure ⟨by simp only; omega, h.admission, h.recoverable, trivial⟩
  split
  · rename_i hincomplete
    have := hless hincomplete
    refine .pure ⟨by simp only; omega, h.admission, h.recoverable, hnext, hbudget, ?_⟩
    simp only
    omega
  · refine Succeeds.bind (commit ?_) ?_
    · exact hbudget
    rintro _ rfl
    refine .pure ?_
    apply afterRound
    · simp only
      omega
    · exact h.admission
    · exact h.recoverable
    · simp only
      omega

lemma decodeRow (hstage : r.stage = .decodeReady) {accepted : ℕ}
    (hpos : 0 < accepted) (hle : accepted ≤ r.budget) (outcome : Outcome) :
    Succeeds (r.decodeRow accepted outcome) (Funded a) := by
  obtain ⟨-, hfunds⟩ :
      0 < r.budget ∧ r.budget + a.allowance r.attempts ≤ r.remainingServiceWork := by
    have := h.stage
    rwa [StageFunded, hstage] at this
  have hconserved := h.conserved
  unfold Request.decodeRow
  split
  · exact .pure ⟨hconserved, h.admission, h.recoverable, trivial⟩
  · refine (commit hle).bind ?_
    rintro _ rfl
    refine (consumeServiceWork hpos (by simp only; omega)).bind ?_
    rintro _ rfl
    refine .pure ?_
    apply afterRound
    · simp only
      omega
    · exact h.admission
    · exact h.recoverable
    · simp only
      omega

lemma exhausted : Funded a { r with stage := .complete } :=
  { h with stage := trivial }

lemma startRecoveryAttempt
    (hwidth : a.recoverable = true → prefillStepTokens p .shared ≤ kRecoverableWidth)
    (hstage : r.stage = .recoveryPending) {spliced : Option ℕ} {route : Option ReuseDecision}
    (hroute : ∀ tokens ∈ spliced, ∀ reuse ∈ route, reuse.frontier ≤ tokens) :
    Funded a (startRecoveryAttempt p r spliced route) := by
  obtain ⟨hrecoverable, hattempts, hbudget, hfunds⟩ : a.recoverable = true ∧
      r.attempts < maximumAttempts ∧ 0 < r.budget ∧
        r.budget + a.allowance r.attempts ≤ r.remainingServiceWork := by
    have := h.stage
    rwa [StageFunded, hstage] at this
  unfold NInfer.Prefill.startRecoveryAttempt
  split
  swap
  · exact h.exhausted
  rename_i tokens reuse
  simp only
  split
  · exact h.exhausted
  rename_i hpreserved
  split
  · exact h.exhausted
  rename_i base hbase
  split
  swap
  · exact h.exhausted
  rename_i hfit
  obtain ⟨hfit, heffective⟩ := hfit
  rw [h.admission] at hfit
  have hcapacity : r.budget ≤ p.capacity - tokens + 1 := by
    simp only [recoveryOutputBudgetPreserved, Bool.not_eq_false, decide_eq_true_eq] at hpreserved
    exact hpreserved.2
  obtain ⟨hsound, hunits⟩ := retry_units_le (hwidth hrecoverable) (planRequestBase_spec hbase)
    hbudget heffective hcapacity a.reservedTokens_pos hfit reuse (hroute tokens rfl reuse rfl)
  refine ⟨h.conserved, h.admission, h.recoverable, hsound, hbudget, ?_⟩
  have := a.allowance_step hrecoverable hattempts
  simp only
  omega

/-- One event neither throws nor overdraws. -/
lemma step (hwidth : a.recoverable = true → prefillStepTokens p .shared ≤ kRecoverableWidth)
    {event : Event} (henabled : Enabled r event) : Succeeds (step p r event) (Funded a) := by
  cases event with
  | prefillStep pace outcome =>
    obtain ⟨staged, hstage⟩ := Stage.of_isPrefilling henabled
    have hsound := (h.prefilling hstage).1
    obtain ⟨next, complete, hadvance, hnext, hless⟩ := advancePrefill_spec (p := p) hsound pace
    simp only [NInfer.Prefill.step, hstage, hadvance]
    exact h.resolvePrefillStep hstage hnext hless outcome
  | decodeRow accepted outcome =>
    obtain ⟨hstage, hpos, hle⟩ := henabled
    exact h.decodeRow (Stage.of_isDecodeReady hstage) hpos hle outcome
  | startRecovery spliced route =>
    obtain ⟨hstage, hroute⟩ := henabled
    exact .pure (h.startRecoveryAttempt hwidth (Stage.of_isRecoveryPending hstage) hroute)
  | cancel => exact .pure h.exhausted

/-- Work in hand covers the rest of the output. -/
lemma max_one_le (hactive : r.stage ≠ .complete) : max 1 r.budget ≤ r.remainingServiceWork := by
  have hstage := h.stage
  unfold StageFunded at hstage
  cases hcase : r.stage with
  | prefilling staged =>
    rw [hcase] at hstage
    obtain ⟨hsound, hbudget, hfunds⟩ := hstage
    have : 0 < staged.units p := units_pos hsound
    omega
  | decodeReady | recoveryPending =>
    rw [hcase] at hstage
    omega
  | complete => exact absurd hcase hactive

end

end Funded

/-! ## Runs on given events -/

/-- Takes the events one after another, as long as they can happen and none throws. -/
def runEvents (p : Program) : Request → List Event → Option Request
  | r, [] => some r
  | r, event :: events =>
    if Enabled r event then
      match step p r event with
      | .ok r => runEvents p r events
      | .error _ => none
    else none

lemma Served.runEvents {a : Admission p} {events : List Event} (h : Served a r)
    (hrun : runEvents p r events = some r') : Served a r' := by
  induction events generalizing r with
  | nil =>
    cases hrun
    exact h
  | cons event events ih =>
    unfold NInfer.Prefill.runEvents at hrun
    split at hrun
    swap
    · cases hrun
    rename_i henabled
    split at hrun
    · rename_i next hnext
      exact ih (.step event h henabled hnext) hrun
    · cases hrun

/-! ## Every run is covered -/

/-- The engine options under which the retry allowance covers a retry: prefill shares its steps
with decoding, or no step is longer than four irregular splits. -/
def RetriesCovered (options : EngineOptions) : Prop :=
  1 < options.maxConcurrency ∧ options.mixedForward ≠ 0 ∨
    min options.prefillChunk options.maxContext ≤ kRecoverableWidth

lemma RetriesCovered.width_le (h : RetriesCovered p.options) :
    prefillStepTokens p .shared ≤ kRecoverableWidth := by
  have hsplit := p.accepted.mixed_le_split
  have hcontext := p.accepted.context_pos
  have hmixed_le : p.mixedForward ≤ kIrregularPrefillSplit := by
    unfold Program.mixedForward
    split <;> omega
  unfold prefillStepTokens kRecoverableWidth kIrregularPrefillSplit at *
  simp only
  split
  · omega
  · rename_i hmixed
    rcases h with ⟨hconcurrency, hforward⟩ | hchunk
    · rw [Program.mixedForward, if_pos hconcurrency] at hmixed
      omega
    · exact hchunk

lemma Admission.width_le {a : Admission p} (h : a.recoverable = false ∨ RetriesCovered p.options) :
    a.recoverable = true → prefillStepTokens p .shared ≤ kRecoverableWidth := by
  intro hrecoverable
  rcases h with hnot | hcovered
  · rw [hrecoverable] at hnot
    cases hnot
  · exact hcovered.width_le

lemma Served.funded {a : Admission p}
    (hwidth : a.recoverable = true → prefillStepTokens p .shared ≤ kRecoverableWidth)
    (h : Served a r) : Funded a r := by
  induction h with
  | admitted => exact Funded.request
  | step event _ henabled hstep ih =>
    obtain ⟨r', hr', hfunded⟩ := ih.step hwidth henabled
    cases hr'.symm.trans hstep
    exact hfunded

/-- The quanta granted at admission cover every run: steps and tokens are accounted for, an active
request keeps a quantum for each token of its budget, and no event throws. -/
theorem served_covered {p : Program} {a : Admission p} {r : Request}
    (hcovered : a.recoverable = false ∨ RetriesCovered p.options) (h : Served a r) :
    r.prefillSteps + r.decodeTokens + r.remainingServiceWork = a.plan.serviceWorkQuanta ∧
      (r.stage ≠ .complete → max 1 r.budget ≤ r.remainingServiceWork) ∧
      ∀ event, Enabled r event → ∃ r', step p r event = .ok r' := by
  have hwidth := Admission.width_le hcovered
  have hfunded := h.funded hwidth
  refine ⟨hfunded.conserved, hfunded.max_one_le, fun event henabled => ?_⟩
  obtain ⟨r', hr', -⟩ := hfunded.step hwidth henabled
  exact ⟨r', hr'⟩

/-- An engine with the default step width. -/
def narrowProgram : Program where
  target := .qwen3627b
  options := { maxContext := 8192 }
  valid := rfl

def narrowAdmission : Admission narrowProgram where
  prompt := { shape := { tokens := 5000 }, generationRecovery := true, sorted := .nil }
  options := { requestedOutputTokens := 60, pLess := true }
  recovery := true
  base := ⟨5000, 60, ⟨1, 80, 0⟩, none, 69⟩
  reuse := {}
  planned := by decide +kernel
  output_pos := by decide
  reuse_le := by decide

theorem served_covered_narrow :
    ∃ r, Served narrowAdmission r ∧ r.stage = .decodeReady ∧ max 1 r.budget ≤
      r.remainingServiceWork := by
  have hrun : ∃ r ∈ runEvents narrowProgram narrowAdmission.request
      [.prefillStep .shared .continues, .prefillStep .exclusive .continues,
        .decodeRow 49 .repeats, .startRecovery (some 5040) (some {}),
        .prefillStep .shared .continues, .prefillStep .shared .continues],
      r.stage.isDecodeReady := by
    decide +kernel
  obtain ⟨r, hr, hstage⟩ := hrun
  have hserved : Served narrowAdmission r := Served.admitted.runEvents hr
  have hready := Stage.of_isDecodeReady hstage
  obtain ⟨-, hfunds, -⟩ := served_covered (.inr (.inr (by decide))) hserved
  exact ⟨r, hserved, hready, hfunds (by rw [hready]; exact Stage.noConfusion)⟩

/-- An engine whose prefill steps are as wide as its context. -/
def wideProgram : Program where
  target := .qwen3627b
  options := { maxContext := 32768, prefillChunk := 32768 }
  valid := rfl

/-- A request that may fill the context and reuses nothing; its rewrite checkpoint is at the opener
of its generation. -/
def wideAdmission : Admission wideProgram where
  prompt :=
    { shape := { tokens := 28100 }, rewriteCheckpoint := some 28098, generationRecovery := true
      sorted := sorted_nil }
  options := { requestedOutputTokens := 4669, pLess := true }
  recovery := true
  base := ⟨28100, 4669, ⟨1, 512, 0⟩, some 28098, 4682⟩
  reuse := {}
  planned := by decide +kernel
  output_pos := by decide
  reuse_le := by decide

/-- The passages repeat after 4352 tokens; then a retry that reuses nothing either, and all its
tokens but one. -/
def wideRetry : List Event :=
  List.replicate 8 (.prefillStep .shared .continues) ++
    List.replicate 4350 (.decodeRow 1 .continues) ++
    [.decodeRow 1 .repeats, .startRecovery (some 28815) (some {})] ++
    List.replicate 8 (.prefillStep .shared .continues) ++
    List.replicate 315 (.decodeRow 1 .continues)

/-- With steps as wide as the context, the last token of a retry has no quantum left: the retry
prefilled its unaligned prompt in eight steps where three were allowed for. -/
theorem wideRetry_overdraws :
    ∃ r, Served wideAdmission r ∧ r.stage = .decodeReady ∧ r.budget = 1 ∧
      r.remainingServiceWork = 0 ∧ Enabled r (.decodeRow 1 .continues) ∧
      step wideProgram r (.decodeRow 1 .continues) =
        .error ("request service projection consumed " ++ toString 1 ++ " quanta with " ++
          toString 0 ++ " remaining") := by
  have hrun : ∃ r ∈ runEvents wideProgram wideAdmission.request wideRetry,
      r.stage.isDecodeReady ∧ r.budget = 1 ∧ r.remainingServiceWork = 0 := by
    decide +kernel
  obtain ⟨r, hr, hstage, hbudget, hremaining⟩ := hrun
  refine ⟨r, Served.admitted.runEvents hr, Stage.of_isDecodeReady hstage, hbudget, hremaining,
    ⟨hstage, by omega, by omega⟩, ?_⟩
  obtain ⟨recoverable, options, admission, stage, budget, attempts, remaining, prefillSteps,
    decodeTokens⟩ := r
  obtain rfl : budget = 1 := hbudget
  obtain rfl : remaining = 0 := hremaining
  rfl

end NInfer.Prefill
