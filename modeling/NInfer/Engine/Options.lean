import Mathlib

/-!
# Engine options and what a program is built from

`validate_target_options` decides which options a target accepts, and `make_sequence_planner_impl`
derives the widths a program runs with (`layouts_impl.h`, `instance.h`, `adaptive_draft.h`).  A
`Program` is a set of accepted options; everything the schedulers read is a function of it.

Options that no modelled function reads (memory tiers, sampling presets, sparse attention, the
device) are left out, and so are the checks on them.
-/

namespace NInfer

/-- The two supported targets. -/
inductive Target where
  | qwen3627b
  | qwen3635bA3b
  deriving DecidableEq

namespace Target

/-- `kNativeContext`. -/
def maximumContext : Target → ℕ
  | _ => 262144

/-- `kMaximumMtpDraftTokens`. -/
def maximumMtpDraftTokens : Target → ℕ
  | _ => 5

/-- `kMaximumDFlashDraftTokens`. -/
def maximumDFlashDraftTokens : Target → ℕ
  | .qwen3627b => 7
  | .qwen3635bA3b => 15

/-- `maximum_adaptive_dflash_draft_tokens`. -/
def maximumAdaptiveDFlashDraftTokens : Target → ℕ
  | .qwen3627b => 7
  | .qwen3635bA3b => 5

/-- `kDFlashTreeVerifyWidth`; zero for a target without a tree route. -/
def dflashTreeVerifyWidth : Target → ℕ
  | .qwen3627b => 12
  | .qwen3635bA3b => 0

/-- `DFlashConfig::full_layers > 0`. -/
def dflashFullLayers : Target → Bool
  | .qwen3627b => false
  | .qwen3635bA3b => true

end Target

inductive SpeculativeBackend where
  | none
  | mtp
  | dflash
  deriving DecidableEq

/-- `EngineOptions`, as far as the schedulers read it. -/
structure EngineOptions where
  maxContext : ℕ
  prefillChunk : ℕ := 4096
  mixedForward : ℕ := 0
  mixedForwardRounds : ℕ := 1
  maxConcurrency : ℕ := 1
  backend : SpeculativeBackend := .none
  draftTokens : ℕ := 0
  dflashVerifyWidth : ℕ := 0
  adaptiveDraft : Bool := false

/-- `kMaximumConcurrency`. -/
def kMaximumConcurrency : ℕ := 6

/-- `kPrefillChunkAlignment`. -/
def kPrefillChunkAlignment : ℕ := 128

/-- `kIrregularPrefillSplit`. -/
def kIrregularPrefillSplit : ℕ := 4096

/-- `kMixedForwardAlignment`. -/
def kMixedForwardAlignment : ℕ := 256

/-- The checks on the speculative options. -/
def validateSpeculative (target : Target) (options : EngineOptions) : Except String Unit :=
  match options.backend with
  | .none =>
    if options.draftTokens ≠ 0 then
      throw "disabled speculative decoding requires draft_tokens=0 and the full proposal head"
    else pure ()
  | .mtp =>
    if options.draftTokens = 0 ∨ options.draftTokens > target.maximumMtpDraftTokens then
      throw "MTP draft window must be in [1,5]"
    else pure ()
  | .dflash =>
    if options.draftTokens = 0 ∨ options.draftTokens > target.maximumDFlashDraftTokens then
      throw
        ("DFlash draft window must be in [1," ++ toString target.maximumDFlashDraftTokens ++ "]")
    else if options.dflashVerifyWidth = 0 then pure ()
    else if target.dflashTreeVerifyWidth = 0 then
      if options.dflashVerifyWidth ≠ options.draftTokens + 1 then
        throw "this DFlash target requires verify width equal to draft_tokens + 1"
      else pure ()
    else if options.dflashVerifyWidth < options.draftTokens + 1 ∨
        options.dflashVerifyWidth > 16 then
      throw "DFlash verify width must be in [draft_tokens + 1, 16]"
    else pure ()

/-- `validate_target_options`. -/
def validateTargetOptions (target : Target) (options : EngineOptions) : Except String Unit :=
  if options.maxContext = 0 ∨ options.maxContext > target.maximumContext then
    throw "max_context exceeds the variant native context capacity"
  else if options.prefillChunk = 0 ∨ options.prefillChunk % kPrefillChunkAlignment ≠ 0 then
    throw "prefill_chunk must be a nonzero multiple of 128"
  else if options.mixedForward % kMixedForwardAlignment ≠ 0 ∨
      options.mixedForward > options.prefillChunk ∨
      options.mixedForward > kIrregularPrefillSplit then
    throw "mixed_forward must be a multiple of 256 and at most min(prefill_chunk, 4096)"
  else if options.mixedForwardRounds = 0 then
    throw "mixed_forward_rounds must be at least 1"
  else if options.maxConcurrency = 0 ∨ options.maxConcurrency > kMaximumConcurrency then
    throw "max_concurrency must be in [1,6]"
  else validateSpeculative target options

/-- A target and options that it accepts. -/
structure Program where
  target : Target
  options : EngineOptions
  valid : validateTargetOptions target options = .ok ()

/-! ## Round shapes -/

/-- `adaptive_draft_ks`: the draft windows a program captures. -/
def adaptiveDraftKs (backend : SpeculativeBackend) (n : ℕ) (adaptive : Bool)
    (dflashMaximumAdaptiveK : ℕ) : List ℕ :=
  if adaptive = false ∨ backend = .none ∨ n = 0 then [n]
  else
    let out :=
      if backend = .mtp then (List.range' 3 3).filter (· ≤ n)
      else if n < 5 then [n]
      else List.range' 3 (min n dflashMaximumAdaptiveK - 2)
    if out = [] then [n] else out

lemma le_of_mem_adaptiveDraftKs {backend : SpeculativeBackend} {n maximumK k : ℕ} {adaptive : Bool}
    (hk : k ∈ adaptiveDraftKs backend n adaptive maximumK) : k ≤ n := by
  have hsingle : ∀ {out : List ℕ}, (∀ k ∈ out, k ≤ n) →
      k ∈ (if out = [] then [n] else out) → k ≤ n := by
    intro out hout hmem
    split at hmem
    · exact (List.mem_singleton.mp hmem).le
    · exact hout k hmem
  unfold adaptiveDraftKs at hk
  split at hk
  · exact (List.mem_singleton.mp hk).le
  · refine hsingle (fun k hk => ?_) hk
    split at hk
    · simpa using (List.mem_filter.mp hk).2
    · split at hk
      · exact (List.mem_singleton.mp hk).le
      · rw [List.mem_range'_1] at hk
        omega

/-- `DFlashRoundShape`. -/
structure DFlashRoundShape where
  k : ℕ
  verifyWidth : ℕ
  maxBatch : ℕ
  arm : ℕ
  deriving DecidableEq

/-- `kAdaptiveTreeArmBase`. -/
def kAdaptiveTreeArmBase : ℕ := 16

/-- `adaptive_tree_arm`. -/
def adaptiveTreeArm (k : ℕ) : ℕ := kAdaptiveTreeArmBase + k

/-- `kDFlashTreeVerifyMaxTokens`. -/
def Target.dflashTreeVerifyMaxTokens : Target → ℕ
  | .qwen3627b => 48
  | .qwen3635bA3b => 0

/-- `dflash_round_shapes`. -/
def dflashRoundShapes (target : Target) (capturedKs : List ℕ)
    (draftWindow overrideWidth maxConcurrency : ℕ) (adaptive : Bool) : List DFlashRoundShape :=
  let chains :=
    if capturedKs = [] then
      [⟨draftWindow, if overrideWidth ≠ 0 then overrideWidth else draftWindow + 1, maxConcurrency,
        draftWindow⟩]
    else
      capturedKs.map fun k =>
        ⟨k, if overrideWidth ≠ 0 ∧ k = draftWindow then overrideWidth else k + 1, maxConcurrency, k⟩
  let maxBatch :=
    min maxConcurrency (target.dflashTreeVerifyMaxTokens / target.dflashTreeVerifyWidth)
  if target.dflashTreeVerifyWidth > 0 ∧ adaptive = true ∧ overrideWidth = 0 ∧
      target.dflashTreeVerifyWidth > draftWindow + 1 ∧ maxBatch > 0 then
    chains ++ [⟨draftWindow, target.dflashTreeVerifyWidth, maxBatch, adaptiveTreeArm draftWindow⟩]
  else chains

/-- `dflash_storage_verify_width`. -/
def dflashStorageVerifyWidth (shapes : List DFlashRoundShape) : ℕ :=
  shapes.foldr (fun shape width => max width shape.verifyWidth) 0

lemma dflashStorageVerifyWidth_le {shapes : List DFlashRoundShape} {width : ℕ}
    (h : ∀ shape ∈ shapes, shape.verifyWidth ≤ width) :
    dflashStorageVerifyWidth shapes ≤ width := by
  induction shapes with
  | nil => exact Nat.zero_le _
  | cons s shapes ih =>
    exact max_le (ih fun s' hs' => h s' (List.mem_cons_of_mem _ hs'))
      (h s List.mem_cons_self)

namespace Program

variable (p : Program)

def capacity : ℕ := p.options.maxContext

def prefillChunk : ℕ := min p.options.prefillChunk p.options.maxContext

def mixedForward : ℕ :=
  if p.options.maxConcurrency > 1 then min p.options.mixedForward p.options.maxContext else 0

def draftWindow : ℕ := p.options.draftTokens

def capturedKs : List ℕ :=
  adaptiveDraftKs p.options.backend p.draftWindow p.options.adaptiveDraft
    p.target.maximumAdaptiveDFlashDraftTokens

def dflashShapes : List DFlashRoundShape :=
  if p.options.backend = .dflash then
    dflashRoundShapes p.target p.capturedKs p.draftWindow p.options.dflashVerifyWidth
      p.options.maxConcurrency p.options.adaptiveDraft
  else []

def dflashVerifyWidth : ℕ := dflashStorageVerifyWidth p.dflashShapes

/-! ## What validation guarantees -/

/-- The accepted widths, read off `validate_target_options`. -/
structure Accepted (target : Target) (options : EngineOptions) : Prop where
  context_pos : 0 < options.maxContext
  context_le : options.maxContext ≤ target.maximumContext
  chunk_pos : 0 < options.prefillChunk
  chunk_aligned : options.prefillChunk % kPrefillChunkAlignment = 0
  mixed_aligned : options.mixedForward % kMixedForwardAlignment = 0
  mixed_le_chunk : options.mixedForward ≤ options.prefillChunk
  mixed_le_split : options.mixedForward ≤ kIrregularPrefillSplit
  concurrency_pos : 0 < options.maxConcurrency
  concurrency_le : options.maxConcurrency ≤ kMaximumConcurrency
  speculative : validateSpeculative target options = .ok ()

lemma accepted : Accepted p.target p.options := by
  have h := p.valid
  unfold validateTargetOptions at h
  split at h
  · cases h
  split at h
  · cases h
  split at h
  · cases h
  split at h
  · cases h
  split at h
  · cases h
  rename_i hcontext hchunk hmixed _ hconcurrency
  exact
    { context_pos := by omega
      context_le := by omega
      chunk_pos := by omega
      chunk_aligned := by omega
      mixed_aligned := by omega
      mixed_le_chunk := by omega
      mixed_le_split := by omega
      concurrency_pos := by omega
      concurrency_le := by omega
      speculative := h }

lemma dflash_draftWindow_le (hbackend : p.options.backend = .dflash) :
    p.draftWindow ≤ p.target.maximumDFlashDraftTokens ∧
      (p.options.dflashVerifyWidth = 0 ∨ p.options.dflashVerifyWidth ≤ 16) := by
  have h := p.accepted.speculative
  have hmax : p.target.maximumDFlashDraftTokens ≤ 15 := by
    cases p.target <;> decide
  unfold validateSpeculative at h
  rw [hbackend] at h
  simp only at h
  unfold draftWindow
  split at h
  · cases h
  split at h
  · exact ⟨by omega, .inl (by assumption)⟩
  split at h
  · split at h
    · cases h
    · exact ⟨by omega, .inr (by omega)⟩
  split at h
  · cases h
  · exact ⟨by omega, .inr (by omega)⟩

/-- Every captured shape packs at most 16 columns. -/
lemma verifyWidth_le {shape : DFlashRoundShape} (hshape : shape ∈ p.dflashShapes) :
    shape.verifyWidth ≤ 16 := by
  unfold dflashShapes at hshape
  split at hshape
  swap
  · cases hshape
  rename_i hbackend
  obtain ⟨hdraft, hoverride⟩ := p.dflash_draftWindow_le hbackend
  have hmax : p.target.maximumDFlashDraftTokens ≤ 15 := by
    cases p.target <;> decide
  have htree : p.target.dflashTreeVerifyWidth ≤ 16 := by
    cases p.target <;> decide
  have hchains : ∀ shape : DFlashRoundShape, shape ∈
      (if p.capturedKs = [] then
        [⟨p.draftWindow,
          if p.options.dflashVerifyWidth ≠ 0 then p.options.dflashVerifyWidth
            else p.draftWindow + 1, p.options.maxConcurrency, p.draftWindow⟩]
      else
        p.capturedKs.map fun k =>
          ⟨k, if p.options.dflashVerifyWidth ≠ 0 ∧ k = p.draftWindow then
              p.options.dflashVerifyWidth else k + 1, p.options.maxConcurrency, k⟩) →
      shape.verifyWidth ≤ 16 := by
    intro shape hmem
    split at hmem
    · rw [List.mem_singleton.mp hmem]
      simp only
      split <;> omega
    · obtain ⟨k, hk, rfl⟩ := List.mem_map.mp hmem
      have := le_of_mem_adaptiveDraftKs hk
      simp only
      split <;> omega
  unfold dflashRoundShapes at hshape
  simp only at hshape
  split at hshape
  · rcases List.mem_append.mp hshape with hmem | hmem
    · exact hchains shape hmem
    · rw [List.mem_singleton.mp hmem]
      exact htree
  · exact hchains shape hshape

lemma dflashVerifyWidth_le : p.dflashVerifyWidth ≤ 16 :=
  dflashStorageVerifyWidth_le fun _ => p.verifyWidth_le

end Program

end NInfer
