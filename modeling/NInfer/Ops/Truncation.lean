import NInfer.Ops.Sampling

/-!
# The truncated law of a column

What a row samples from when it is neither greedy nor p-less: its logits with the penalties taken
off (`sampling_adjusted_logit`), cut to the best candidates, and their softmax cut again by `top_p`
and `min_p` (`sampling_normalize_support`).

The penalties see the counts of the committed tokens and an overlay, the tokens of the round that
are committed but not counted yet.  Only the sum of the two matters (`truncatedLaw_congr`), which is
why a round may leave its tokens uncounted until it ends.
-/

namespace NInfer.Sampling

open InverseCdf

/-- The fields of `SamplingConfig` that a truncated draw reads. -/
structure SamplingConfig (K : Type) where
  temperature : K
  topK : ℤ
  topP : K
  minP : K
  presencePenalty : K
  frequencyPenalty : K
  suppressedTokens : List ℤ

def kMaximumSuppressedTokens : ℕ := 4

def kSamplerCandidateCap : ℕ := 20

/-! ## The best candidates -/

section Candidates

variable {K : Type} [LinearOrder K]

/-- `sampling_better`. -/
def better (c other : ℤ × K) : Prop := c.2 > other.2 ∨ c.2 = other.2 ∧ c.1 < other.1

instance (c other : ℤ × K) : Decidable (better c other) := by
  unfold better
  infer_instance

/-- `sampling_insert_candidate`, on the candidates without the empty slots after them. -/
def insertCandidate (cap : ℕ) (kept : Candidates K) (c : ℤ × K) : Candidates K :=
  (kept.takeWhile (fun other => ¬ better c other) ++
    c :: kept.dropWhile (fun other => ¬ better c other)).take cap

/-- `sampling_candidate_cap`. -/
def candidateCap (config : SamplingConfig K) (vocab : ℕ) : ℕ :=
  let cap := if config.topK > 0 ∧ config.topK < kSamplerCandidateCap then config.topK.toNat
    else kSamplerCandidateCap
  min cap vocab

/-- The best candidates of a column, best first. -/
def topCandidates (config : SamplingConfig K) (vocab : ℕ) (column : Candidates K) : Candidates K :=
  column.foldl (insertCandidate (candidateCap config vocab)) []

variable {kept : Candidates K} {cap : ℕ}

lemma mem_of_mem_insertCandidate {c d : ℤ × K} (h : d ∈ insertCandidate cap kept c) :
    d = c ∨ d ∈ kept := by
  have hmem := List.mem_of_mem_take h
  rw [List.mem_append, List.mem_cons] at hmem
  rcases hmem with hmem | rfl | hmem
  · exact Or.inr (List.takeWhile_sublist _ |>.mem hmem)
  · exact Or.inl rfl
  · exact Or.inr (List.dropWhile_sublist _ |>.mem hmem)

lemma mem_of_mem_foldl_insertCandidate {column kept : Candidates K} {d : ℤ × K}
    (h : d ∈ column.foldl (insertCandidate cap) kept) : d ∈ column ∨ d ∈ kept := by
  induction column generalizing kept with
  | nil => exact Or.inr h
  | cons c rest ih =>
    rcases ih h with hrest | hkept
    · exact Or.inl (List.mem_cons_of_mem c hrest)
    · rcases mem_of_mem_insertCandidate hkept with rfl | hold
      · exact Or.inl List.mem_cons_self
      · exact Or.inr hold

lemma insertCandidate_ne_nil (hcap : 0 < cap) (kept : Candidates K) (c : ℤ × K) :
    insertCandidate cap kept c ≠ [] := by
  simp [insertCandidate, List.take_eq_nil_iff, hcap.ne']

lemma foldl_insertCandidate_ne_nil (hcap : 0 < cap) (column : Candidates K) (h : kept ≠ []) :
    column.foldl (insertCandidate cap) kept ≠ [] := by
  induction column generalizing kept with
  | nil => exact h
  | cons c _ ih => exact ih (insertCandidate_ne_nil hcap kept c)

lemma topCandidates_ne_nil {config : SamplingConfig K} {vocab : ℕ} (hvocab : 0 < vocab)
    {column : Candidates K} (h : column ≠ []) : topCandidates config vocab column ≠ [] := by
  have hcap : 0 < candidateCap config vocab := by
    refine lt_min ?_ hvocab
    split
    · omega
    · decide
  obtain ⟨c, rest, rfl⟩ := List.exists_cons_of_ne_nil h
  exact foldl_insertCandidate_ne_nil hcap rest (insertCandidate_ne_nil hcap [] c)

end Candidates

/-! ## The device functions -/

section Device

variable {K : Type} [Field K] [LinearOrder K]

/-- `sampling_token_suppressed`; `allowed` is the column's part of the bitset, if there is one. -/
def tokenSuppressed (config : SamplingConfig K) (allowed : Option (ℤ → Bool)) (v : ℤ) : Bool :=
  allowed.any (fun words => !words v) ||
    (config.suppressedTokens.take kMaximumSuppressedTokens).contains v

/-- The occurrences that the penalties see. -/
def penaltyCount (counts : Option (ℤ → ℕ)) (overlay : List ℤ) (v : ℤ) : ℕ :=
  counts.elim 0 (fun counts => counts v) + overlay.count v

/-- `sampling_adjusted_logit`. -/
def adjustedLogit (config : SamplingConfig K) (counts : Option (ℤ → ℕ)) (overlay : List ℤ) (raw : K)
    (v : ℤ) : K :=
  if config.presencePenalty = 0 ∧ config.frequencyPenalty = 0 then raw
  else
    let cnt := penaltyCount counts overlay v
    let x := if cnt > 0 then raw - config.presencePenalty else raw
    if config.frequencyPenalty ≠ 0 then x - config.frequencyPenalty * cnt else x

/-- The tokens of the vocabulary that are not suppressed, with their adjusted logits. -/
def eligible (config : SamplingConfig K) (vocab : ℕ) (allowed : Option (ℤ → Bool))
    (counts : Option (ℤ → ℕ)) (overlay : List ℤ) (logits : ℤ → K) : Candidates K :=
  (((List.range vocab).map Int.ofNat).filter fun v => !tokenSuppressed config allowed v).map
    fun v => (v, adjustedLogit config counts overlay (logits v) v)

/-- The loop that cuts the support by `min_p` and `top_p`. -/
def supportLength (minPThresh : K) (topPActive : Bool) (topPTarget : K) : List K → K → ℕ → ℕ
  | [], _, support => support
  | e :: rest, cum, support =>
    if minPThresh ≥ 0 ∧ e < minPThresh then support
    else if topPActive ∧ cum + e ≥ topPTarget then support + 1
    else supportLength minPThresh topPActive topPTarget rest (cum + e) (support + 1)

/-- `sampling_normalize_support`.  `exp` stands for the device's exponential.  A column without a
candidate has no support: the device reads a stale one there, and `SamplingConfig` asks for an
eligible token in every column that is reached. -/
def normalizeSupport (exp : K → K) (config : SamplingConfig K) : Candidates K → Candidates K
  | [] => []
  | best :: others =>
    let invTemp := 1 / config.temperature
    let m := best.2 * invTemp
    let e := (best :: others).map fun c => (c.1, exp (c.2 * invTemp - m))
    let minPThresh := if config.minP > 0 then config.minP * exp (best.2 * invTemp - m) else -1
    let support := max 1 (supportLength minPThresh (config.topP < 1) (config.topP * total e)
      (e.map Prod.snd) 0 0)
    let inv := 1 / total (e.take support)
    (e.take support).map fun c => (c.1, c.2 * inv)

/-- The law of a column: what `sampling_build_truncated_small`,
`sampling_build_truncated_block_fast` and the kernels of the multi-block route leave of its logits.
-/
def truncatedLaw (exp : K → K) (config : SamplingConfig K) (vocab : ℕ) (allowed : Option (ℤ → Bool))
    (counts : Option (ℤ → ℕ)) (overlay : List ℤ) (logits : ℤ → K) : Candidates K :=
  normalizeSupport exp config
    (topCandidates config vocab (eligible config vocab allowed counts overlay logits))

end Device

/-! ## What the penalties see -/

section Penalties

variable {K : Type} [Field K] [LinearOrder K]

variable {counts counts' : Option (ℤ → ℕ)} {overlay overlay' : List ℤ}

lemma adjustedLogit_congr (config : SamplingConfig K)
    (h : config.presencePenalty = 0 ∧ config.frequencyPenalty = 0 ∨
      ∀ v, penaltyCount counts overlay v = penaltyCount counts' overlay' v) (raw : K) (v : ℤ) :
    adjustedLogit config counts overlay raw v = adjustedLogit config counts' overlay' raw v := by
  unfold adjustedLogit
  rcases h with h | h
  · rw [if_pos h, if_pos h]
  · rw [h v]

/-- The law depends on the counts and the overlay only through what the penalties see. -/
lemma truncatedLaw_congr (exp : K → K) (config : SamplingConfig K) (vocab : ℕ)
    (allowed : Option (ℤ → Bool))
    (h : config.presencePenalty = 0 ∧ config.frequencyPenalty = 0 ∨
      ∀ v, penaltyCount counts overlay v = penaltyCount counts' overlay' v) (logits : ℤ → K) :
    truncatedLaw exp config vocab allowed counts overlay logits =
      truncatedLaw exp config vocab allowed counts' overlay' logits := by
  simp only [truncatedLaw, eligible, adjustedLogit_congr config h]

end Penalties

/-! ## The picked token is an eligible one -/

section Eligible

variable {K : Type} [Field K] [LinearOrder K]

variable {kept : Candidates K}

lemma normalizeSupport_ne_nil (exp : K → K) (config : SamplingConfig K) (h : kept ≠ []) :
    normalizeSupport exp config kept ≠ [] := by
  obtain ⟨best, others, rfl⟩ := List.exists_cons_of_ne_nil h
  simp [normalizeSupport]

lemma mem_normalizeSupport {exp : K → K} {config : SamplingConfig K} {v : ℤ}
    (h : v ∈ (normalizeSupport exp config kept).map Prod.fst) : v ∈ kept.map Prod.fst := by
  match kept with
  | [] => exact h
  | best :: others =>
    obtain ⟨c, hc, rfl⟩ := List.mem_map.mp h
    obtain ⟨e, he, rfl⟩ := List.mem_map.mp hc
    obtain ⟨d, hd, rfl⟩ := List.mem_map.mp (List.mem_of_mem_take he)
    exact List.mem_map.mpr ⟨d, hd, rfl⟩

lemma pickFromSupport_mem {support : Candidates K} (h : support ≠ []) (exclude : ℤ) (u : K) :
    pickFromSupport support exclude u ∈ support.map Prod.fst := by
  simp only [pickFromSupport]
  split
  case isTrue =>
    obtain ⟨c, rest, rfl⟩ := List.exists_cons_of_ne_nil h
    exact List.mem_map.mpr ⟨c, List.mem_cons_self, rfl⟩
  case isFalse hmass =>
    have hkept : (support.filter fun c => c.1 ≠ exclude) ≠ [] := by
      intro hnone
      rw [hnone] at hmass
      exact hmass le_rfl
    obtain ⟨c, hc, hpick⟩ := List.mem_map.mp (scan_mem _ 0 hkept (-1))
    rw [← hpick]
    exact List.mem_map.mpr ⟨c, List.mem_of_mem_filter hc, rfl⟩

/-- Where some token is eligible, any uniform picks a token of the vocabulary. -/
lemma pickFromSupport_truncatedLaw (exp : K → K) (config : SamplingConfig K) {vocab : ℕ}
    {allowed : Option (ℤ → Bool)} (h : ∃ v < vocab, tokenSuppressed config allowed (v : ℕ) = false)
    (counts : Option (ℤ → ℕ)) (overlay : List ℤ) (logits : ℤ → K) (u : K) :
    0 ≤ pickFromSupport (truncatedLaw exp config vocab allowed counts overlay logits) (-1) u ∧
      pickFromSupport (truncatedLaw exp config vocab allowed counts overlay logits) (-1) u <
        vocab := by
  obtain ⟨v, hv, hfree⟩ := h
  have hcolumn : eligible config vocab allowed counts overlay logits ≠ [] := by
    apply List.ne_nil_of_mem (a := ((v : ℤ), adjustedLogit config counts overlay (logits v) v))
    refine List.mem_map.mpr ⟨v, ?_, rfl⟩
    rw [List.mem_filter, hfree]
    exact ⟨List.mem_map.mpr ⟨v, List.mem_range.mpr hv, rfl⟩, rfl⟩
  have hsupport : truncatedLaw exp config vocab allowed counts overlay logits ≠ [] :=
    normalizeSupport_ne_nil exp config (topCandidates_ne_nil (by omega) hcolumn)
  have hvocab : ∀ t ∈ (truncatedLaw exp config vocab allowed counts overlay logits).map Prod.fst,
      0 ≤ t ∧ t < vocab := by
    intro t ht
    obtain ⟨c, hc, rfl⟩ := List.mem_map.mp (mem_normalizeSupport ht)
    obtain hc | hc := mem_of_mem_foldl_insertCandidate hc
    · obtain ⟨t, hfilter, rfl⟩ := List.mem_map.mp hc
      obtain ⟨n, hn, rfl⟩ := List.mem_map.mp (List.mem_filter.mp hfilter).1
      exact ⟨Int.natCast_nonneg n, Int.ofNat_lt.mpr (List.mem_range.mp hn)⟩
    · exact absurd hc List.not_mem_nil
  exact hvocab _ (pickFromSupport_mem hsupport (-1) u)

end Eligible

end NInfer.Sampling
