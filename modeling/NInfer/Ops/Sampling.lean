import NInfer.Foundation.InverseCdf
import NInfer.Foundation.Residual

/-!
# Picking a token

The device functions that pick a token from a truncated law (`sampling_device.cuh`), read in exact
arithmetic.  A law is a list of candidates with their probabilities; a shortlist is the law that a
draft was drawn from, and an empty shortlist stands for a draft that was not drawn at all (a null
selector).

The definitions are generic in the ordered field, so that they can be run.  For the reals and a
uniform draw, the second half says what each picker's law is: `lintegral_pickFromSupport` and
`mass_mul_lintegral_pickFromPMinusQ`.
-/

namespace NInfer.Sampling

open InverseCdf Draws MeasureTheory
open scoped ENNReal
open ENNReal (ofReal ofReal_one ofReal_zero)

/-! ## The device functions -/

section Device

variable {K : Type} [Field K] [LinearOrder K]

/-- Token ids with weights. -/
abbrev Candidates (K : Type) := List (ℤ × K)

/-- `cand_idx[0]`. -/
def firstCandidate (support : Candidates K) : ℤ := (support.map Prod.fst).headD 0

/-- `sampling_clamp_token`. -/
def clampToken (token fallback : ℤ) (vocab : ℕ) : ℤ :=
  if token ≥ 0 ∧ token < vocab then token
  else if fallback ≥ 0 ∧ fallback < vocab then fallback
  else 0

/-- `sampling_pick_from_support`. -/
def pickFromSupport (support : Candidates K) (exclude : ℤ) (u : K) : ℤ :=
  let kept := support.filter fun c => c.1 ≠ exclude
  let mass := total kept
  if mass ≤ 0 then firstCandidate support
  else scan (u * mass) kept 0 (-1)

/-- `sampling_selector_q`. -/
def selectorQ (shortlist : Candidates K) (token : ℤ) : K :=
  if shortlist.isEmpty then 1 else weightOf shortlist token

/-- The weights of `p - q` on the target's candidates. -/
def residualWeights (support shortlist : Candidates K) : Candidates K :=
  support.map fun c => (c.1, max 0 (c.2 - selectorQ shortlist c.1))

/-- `sampling_pick_from_p_minus_q`. -/
def pickFromPMinusQ (support shortlist : Candidates K) (draftId : ℤ) (u : K) : ℤ :=
  if shortlist.isEmpty then pickFromSupport support draftId u
  else
    let residual := residualWeights support shortlist
    let mass := total residual
    if mass ≤ 0 then pickFromSupport support (-1) u
    else scan (u * mass) (residual.filter fun c => 0 < c.2) 0 (firstCandidate support)

/-- `sampling_p_less_q_at`. -/
def pLessQAt (token draftId : ℤ) (shortlist : Candidates K) : K :=
  if shortlist.isEmpty then (if token = draftId then 1 else 0) else selectorQ shortlist token

end Device

/-! ## Laws -/

/-- A probability law on distinct candidates. -/
structure IsLaw (law : Candidates ℝ) : Prop where
  distinct : (law.map Prod.fst).Nodup
  nonneg : ∀ c ∈ law, 0 ≤ c.2
  one : total law = 1

/-- A law on the vocabulary. -/
structure IsTargetLaw (vocab : ℕ) (law : Candidates ℝ) : Prop extends IsLaw law where
  inVocab : ∀ c ∈ law, 0 ≤ c.1 ∧ c.1 < vocab

variable {law support shortlist : Candidates ℝ}

/-- At the draft itself both give the same. -/
lemma selectorQ_eq_pLessQAt (token : ℤ) (shortlist : Candidates ℝ) :
    selectorQ shortlist token = pLessQAt token token shortlist := by
  unfold selectorQ pLessQAt
  split
  · rw [if_pos rfl]
  · rw [selectorQ]
    split
    · contradiction
    · rfl

lemma IsLaw.ne_nil (h : IsLaw law) : law.isEmpty = false := by
  cases law with
  | nil => simpa using h.one
  | cons c rest => rfl

lemma IsLaw.tsum_weightOf (h : IsLaw law) : (tsum fun t => ofReal (weightOf law t)) = 1 := by
  rw [← sum_eq_tsum_weightOf h.distinct (fun _ r => ofReal r) (by simp),
    ← ofReal_total h.nonneg, h.one, ofReal_one]

lemma IsLaw.weightOf_le_one (h : IsLaw law) (t : ℤ) : weightOf law t ≤ 1 := by
  have hle := ENNReal.le_tsum (f := fun t => ofReal (weightOf law t)) t
  rw [h.tsum_weightOf, ENNReal.ofReal_le_one] at hle
  exact hle

/-- The mass that `pickFromPMinusQ` draws from. -/
noncomputable def residualMass (support shortlist : Candidates ℝ) (draftId : ℤ) : ℝ≥0∞ :=
  tsum fun t => ofReal (max 0 (weightOf support t - pLessQAt t draftId shortlist))

lemma measurableSet_pickFromSupport (support : Candidates ℝ) (exclude t : ℤ) :
    MeasurableSet {x | pickFromSupport support exclude x = t} := by
  unfold pickFromSupport
  by_cases h : total (support.filter fun c => c.1 ≠ exclude) ≤ 0
  · simp only [h, if_true]
    exact MeasurableSet.const _
  · simp only [h, if_false]
    exact measurableSet_scan ..

lemma measurableSet_pickFromPMinusQ (support shortlist : Candidates ℝ) (draftId t : ℤ) :
    MeasurableSet {x | pickFromPMinusQ support shortlist draftId x = t} := by
  unfold pickFromPMinusQ
  by_cases hempty : shortlist.isEmpty = true
  · simp only [hempty, if_true]
    exact measurableSet_pickFromSupport ..
  · by_cases h : total (residualWeights support shortlist) ≤ 0
    · simp only [hempty, h, if_true]
      exact measurableSet_pickFromSupport ..
    · simp only [hempty, if_false, h]
      exact measurableSet_scan ..

/-- The mass that is left without the excluded token, times the mean of the pick. -/
lemma total_mul_lintegral_pickFromSupport (h : IsLaw support) (exclude : ℤ) (G : ℤ → ℝ≥0∞) :
    ofReal (total (support.filter fun c => c.1 ≠ exclude)) *
        ∫⁻ x, G (pickFromSupport support exclude x) ∂unit =
      tsum fun t => if t = exclude then 0 else ofReal (weightOf support t) * G t := by
  have hnonneg : ∀ c ∈ support.filter fun c => c.1 ≠ exclude, 0 ≤ c.2 :=
    fun c hc => h.nonneg c (List.mem_of_mem_filter hc)
  have hpick : 0 < total (support.filter fun c => c.1 ≠ exclude) → ∀ x ∈ Set.Ico (0 : ℝ) 1,
      pickFromSupport support exclude x =
        scan (x * total (support.filter fun c => c.1 ≠ exclude))
          (support.filter fun c => c.1 ≠ exclude) 0 (-1) :=
    fun hpos x _ => if_neg (not_le.mpr hpos)
  rw [total_mul_lintegral hnonneg hpick, sum_map_filter,
    ← sum_eq_tsum_weightOf h.distinct
      (fun t r => if t = exclude then 0 else ofReal r * G t) (by simp)]
  congr 1
  apply List.map_congr_left
  intro c _
  by_cases hc : c.1 = exclude
  · simp [hc]
  · simp [hc]

/-- The pick from the whole support has the support's law. -/
lemma lintegral_pickFromSupport {vocab : ℕ} (h : IsTargetLaw vocab support) (G : ℤ → ℝ≥0∞) :
    ∫⁻ x, G (pickFromSupport support (-1) x) ∂unit =
      tsum fun t => ofReal (weightOf support t) * G t := by
  have hkept : support.filter (fun c => c.1 ≠ -1) = support := by
    rw [List.filter_eq_self]
    intro c hc
    have := (h.inVocab c hc).1
    simp only [decide_eq_true_eq]
    omega
  have hmean := total_mul_lintegral_pickFromSupport h.toIsLaw (-1) G
  rw [hkept, h.one, ofReal_one, one_mul] at hmean
  rw [hmean]
  refine tsum_congr fun t => ?_
  split
  case isTrue ht =>
    rw [ht, weightOf_of_not_mem, ofReal_zero, zero_mul]
    intro hmem
    obtain ⟨c, hc, hneg⟩ := List.mem_map.mp hmem
    have := (h.inVocab c hc).1
    omega
  case isFalse => rfl

/-- The draft excluded from the support is the residual of a draft that was not drawn. -/
lemma ofReal_residual_of_isEmpty (h : IsLaw support) (hempty : shortlist.isEmpty = true)
    (draftId t : ℤ) :
    ofReal (max 0 (weightOf support t - pLessQAt t draftId shortlist)) =
      if t = draftId then 0 else ofReal (weightOf support t) := by
  rw [pLessQAt, if_pos hempty]
  by_cases ht : t = draftId
  · rw [if_pos ht, if_pos ht, max_eq_left, ofReal_zero]
    linarith [h.weightOf_le_one t]
  · rw [if_neg ht, if_neg ht, sub_zero, max_eq_right (weightOf_nonneg h.nonneg t)]

lemma total_filter_pos {weights : Candidates ℝ} (hnonneg : ∀ c ∈ weights, 0 ≤ c.2) :
    total (weights.filter fun c => 0 < c.2) = total weights := by
  rw [total, sum_map_filter, total]
  congr 1
  apply List.map_congr_left
  intro c hc
  rcases (hnonneg c hc).eq_or_lt with hzero | hpos
  · simp [← hzero]
  · simp [hpos]

lemma residualWeights_nonneg (support shortlist : Candidates ℝ) :
    ∀ c ∈ residualWeights support shortlist, 0 ≤ c.2 := by
  intro c hc
  obtain ⟨d, -, rfl⟩ := List.mem_map.mp hc
  exact le_max_left _ _

/-- The mean of the pick from the residual of a shortlist. -/
lemma total_mul_lintegral_residualWeights (h : IsLaw support) (hq : IsLaw shortlist) (draftId : ℤ)
    (G : ℤ → ℝ≥0∞) :
    ofReal (total (residualWeights support shortlist)) *
        ∫⁻ x, G (pickFromPMinusQ support shortlist draftId x) ∂unit =
      tsum fun t => ofReal (max 0 (weightOf support t - pLessQAt t draftId shortlist)) * G t := by
  have hresidual := residualWeights_nonneg support shortlist
  have hempty : ¬ shortlist.isEmpty = true := by simp [hq.ne_nil]
  have hselector : ∀ t, pLessQAt t draftId shortlist = selectorQ shortlist t :=
    fun t => if_neg hempty
  have hpick : 0 < total ((residualWeights support shortlist).filter fun c => 0 < c.2) →
      ∀ x ∈ Set.Ico (0 : ℝ) 1, pickFromPMinusQ support shortlist draftId x =
        scan (x * total ((residualWeights support shortlist).filter fun c => 0 < c.2))
          ((residualWeights support shortlist).filter fun c => 0 < c.2) 0
          (firstCandidate support) := by
    intro hpos x _
    rw [total_filter_pos hresidual] at hpos ⊢
    rw [pickFromPMinusQ, if_neg hempty]
    exact if_neg (not_le.mpr hpos)
  rw [← total_filter_pos hresidual,
    total_mul_lintegral (fun c hc => hresidual c (List.mem_of_mem_filter hc)) hpick, sum_map_filter,
    ← sum_eq_tsum_weightOf h.distinct
      (fun t r => ofReal (max 0 (r - pLessQAt t draftId shortlist)) * G t),
    residualWeights, List.map_map]
  · congr 1
    apply List.map_congr_left
    intro c _
    rw [hselector, Function.comp_apply]
    rcases (le_max_left 0 (c.2 - selectorQ shortlist c.1)).eq_or_lt with hzero | hpos
    · simp [← hzero]
    · simp [hpos]
  · intro t
    have hnonneg : 0 ≤ selectorQ shortlist t := by
      rw [selectorQ, if_neg hempty]
      exact weightOf_nonneg hq.nonneg t
    rw [hselector, max_eq_left (by linarith), ofReal_zero, zero_mul]

/-- The residual mass times the mean of the pick. -/
theorem residualMass_mul_lintegral (h : IsLaw support)
    (hq : shortlist.isEmpty = true ∨ IsLaw shortlist) (draftId : ℤ) (G : ℤ → ℝ≥0∞) :
    residualMass support shortlist draftId *
        ∫⁻ x, G (pickFromPMinusQ support shortlist draftId x) ∂unit =
      tsum fun t => ofReal (max 0 (weightOf support t - pLessQAt t draftId shortlist)) * G t := by
  have hmean : ∃ mass, ∀ G : ℤ → ℝ≥0∞, ofReal mass *
      ∫⁻ x, G (pickFromPMinusQ support shortlist draftId x) ∂unit =
        tsum fun t => ofReal (max 0 (weightOf support t - pLessQAt t draftId shortlist)) * G t := by
    rcases hq with hempty | hlaw
    · refine ⟨total (support.filter fun c => c.1 ≠ draftId), fun G => ?_⟩
      have hpick : ∀ x, pickFromPMinusQ support shortlist draftId x =
          pickFromSupport support draftId x := fun x => if_pos hempty
      simp only [hpick, total_mul_lintegral_pickFromSupport h, ite_mul, zero_mul,
        ofReal_residual_of_isEmpty h hempty]
    · exact ⟨_, total_mul_lintegral_residualWeights h hlaw draftId⟩
  -- The mass itself is the mean of the constant one.
  obtain ⟨mass, hmass⟩ := hmean
  have hone := hmass fun _ => 1
  simp only [lintegral_const, measure_univ, mul_one] at hone
  rw [residualMass, ← hone, hmass]

end NInfer.Sampling
