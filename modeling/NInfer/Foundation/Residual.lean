import Mathlib

/-!
# Accepting a proposal or drawing from the residual

The arithmetic of rejection sampling between two families of weights.  A proposal drawn with weights
`Q` is accepted so that the accepted mass of an item is `min P Q`; what is missing from `P` is the
residual `max 0 (P - Q)`.  Replacing rejected proposals by draws from the residual, as often as the
residual's mass asks for, leaves the weights `P` (`mean_accept_or_residual`).
-/

namespace NInfer.Residual

open scoped ENNReal
open ENNReal (ofReal ofReal_add ofReal_mul)

variable {τ : Type} {P Q : τ → ℝ}

/-- The accepted part and the residual of a weight. -/
lemma ofReal_min_add {p q : ℝ} (hp : 0 ≤ p) (hq : 0 ≤ q) :
    ofReal (min p q) + ofReal (max 0 (p - q)) = ofReal p := by
  rw [← ofReal_add (le_min hp hq) (le_max_left _ _)]
  rcases le_total p q with h | h
  · rw [min_eq_left h, max_eq_left (by linarith), add_zero]
  · rw [min_eq_right h, max_eq_right (by linarith)]
    ring_nf

lemma tsum_min_add_residual (hP : ∀ t, 0 ≤ P t) (hQ : ∀ t, 0 ≤ Q t) (G : τ → ℝ≥0∞) :
    (tsum fun t => ofReal (min (P t) (Q t)) * G t) +
        (tsum fun t => ofReal (max 0 (P t - Q t)) * G t) =
      tsum fun t => ofReal (P t) * G t := by
  rw [← ENNReal.tsum_add]
  refine tsum_congr fun t => ?_
  rw [← add_mul, ofReal_min_add (hP t) (hQ t)]

/-- What the proposal has over the target: the target's total is `c`, the proposal's is one, and the
residual mass is `Z`. -/
lemma tsum_residual_swap (hP : ∀ t, 0 ≤ P t) (hQ : ∀ t, 0 ≤ Q t) {c Z : ℝ} (hc : 0 ≤ c)
    (hZ : 0 ≤ Z) (hPsum : (tsum fun t => ofReal (P t)) = ofReal c)
    (hQsum : (tsum fun t => ofReal (Q t)) = 1)
    (hresidual : (tsum fun t => ofReal (max 0 (P t - Q t))) = ofReal Z) :
    (tsum fun t => ofReal (max 0 (Q t - P t))) = ofReal (Z + 1 - c) := by
  have hp := tsum_min_add_residual hP hQ fun _ => 1
  have hq := tsum_min_add_residual hQ hP fun _ => 1
  simp only [mul_one, min_comm (Q _), hPsum, hQsum, hresidual] at hp hq
  have hsum : ofReal c + (tsum fun t => ofReal (max 0 (Q t - P t))) =
      ofReal (Z + 1) := by
    rw [← hp, add_right_comm, hq, ofReal_add hZ zero_le_one, ENNReal.ofReal_one, add_comm]
  rw [ENNReal.ofReal_sub _ hc, ← hsum, ENNReal.add_sub_cancel_left ENNReal.ofReal_ne_top]

/-- The accepted mass of a proposal that is accepted with probability `min (p / q) 1`. -/
lemma mul_min_div {p q : ℝ} (hq : 0 < q) : q * min (p / q) 1 = min p q := by
  rw [mul_min_of_nonneg _ _ hq.le, mul_one, mul_div_cancel₀ _ hq.ne']

/-- The rejected mass of such a proposal. -/
lemma mul_one_sub_min_div {p q : ℝ} (hq : 0 < q) :
    q * (1 - min (p / q) 1) = max 0 (q - p) := by
  rw [mul_sub, mul_one, mul_min_div hq]
  rcases le_total p q with h | h
  · rw [min_eq_left h, max_eq_right (by linarith)]
  · rw [min_eq_right h, max_eq_left (by linarith), sub_self]

/-- A proposal with weights `Q` is accepted with probability `min (P / Q) 1`, for weights `P` of
total `c`; a rejected one is replaced, with probability `h`, by a draw from the residual with mean
`R`.  If `h` makes up for the rejected mass `Z + 1 - c`, then the result has the weights `P`. -/
theorem mean_accept_or_residual (hP : ∀ t, 0 ≤ P t) (hQ : ∀ t, 0 ≤ Q t) {c Z h : ℝ} (hc : 0 ≤ c)
    (hZ : 0 ≤ Z) (hh : 0 ≤ h) (hPsum : (tsum fun t => ofReal (P t)) = ofReal c)
    (hQsum : (tsum fun t => ofReal (Q t)) = 1)
    (hresidual : (tsum fun t => ofReal (max 0 (P t - Q t))) = ofReal Z)
    (hbalance : h * (Z + 1 - c) = Z) {accept : τ → ℝ}
    (haccept : ∀ t, 0 < Q t → accept t = min (P t / Q t) 1) {G : τ → ℝ≥0∞} {R : ℝ≥0∞}
    (hR : ofReal Z * R = (tsum fun t => ofReal (max 0 (P t - Q t)) * G t)) :
    (tsum fun t => ofReal (Q t) *
      (ofReal (accept t) * G t +
        ofReal (1 - accept t) * (ofReal h * R))) =
      tsum fun t => ofReal (P t) * G t := by
  have hpoint : ∀ t, ofReal (Q t) *
      (ofReal (accept t) * G t + ofReal (1 - accept t) * (ofReal h * R)) =
      ofReal (min (P t) (Q t)) * G t +
        ofReal (max 0 (Q t - P t)) * (ofReal h * R) := by
    intro t
    rcases (hQ t).eq_or_lt with hzero | hpos
    · rw [← hzero, min_eq_right (hP t), max_eq_left (by linarith [hP t])]
      simp
    · rw [mul_add, ← mul_assoc, ← mul_assoc, ← ofReal_mul (hQ t),
        ← ofReal_mul (hQ t), haccept t hpos, mul_min_div hpos, mul_one_sub_min_div hpos]
  have hrejected : ofReal (Z + 1 - c) * (ofReal h * R) =
      ofReal Z * R := by
    rw [← mul_assoc, mul_comm (ofReal _) (ofReal h), ← ofReal_mul hh,
      hbalance]
  rw [tsum_congr hpoint, ENNReal.tsum_add, ENNReal.tsum_mul_right,
    tsum_residual_swap hP hQ hc hZ hPsum hQsum hresidual, hrejected, hR,
    tsum_min_add_residual hP hQ]

end NInfer.Residual
