import NInfer.Foundation.Draws

/-!
# Sampling a string one token at a time

`tokens` draws each token from the tokens before it, with a key of its own.  A family `P` of weights
gives the law of the next token after each string; `mean P n w` is the mean over the next `n` tokens
after `w`, and `joint P w x` is the product of the conditionals along `x`.  If the sampler draws
from `P`, then so does the program (`expect_tokens`), and every string of at most `n` tokens comes
out with its joint weight (`mean_take`).
-/

namespace NInfer.Autoregressive

open MeasureTheory Draws Set
open scoped ENNReal
open ENNReal (ofReal)

variable {τ κ K : Type}

/-- The next `n` tokens after `w`; the token after `w` uses draw number `w.length`. -/
def tokens (sample : List τ → K → τ) (key : ℕ → κ) (u : κ → K) : ℕ → List τ → List τ
  | 0, _ => []
  | n + 1, w =>
    sample w (u (key w.length)) ::
      tokens sample key u n (w ++ [sample w (u (key w.length))])

@[simp] lemma length_tokens (sample : List τ → K → τ) (key : ℕ → κ) (u : κ → K) (n : ℕ)
    (w : List τ) : (tokens sample key u n w).length = n := by
  induction n generalizing w with
  | zero => rfl
  | succ n ih => rw [tokens, List.length_cons, ih]

lemma forall_mem_tokens {P : τ → Prop} {sample : List τ → K → τ} (h : ∀ w x, P (sample w x))
    (key : ℕ → κ) (u : κ → K) (n : ℕ) (w : List τ) : ∀ t ∈ tokens sample key u n w, P t := by
  induction n generalizing w with
  | zero => exact fun t ht => absurd ht List.not_mem_nil
  | succ n ih =>
    intro t ht
    rcases List.mem_cons.mp ht with rfl | hrest
    · exact h w _
    · exact ih _ t hrest

/-- Tokens can be taken in turns. -/
lemma tokens_add (sample : List τ → K → τ) (key : ℕ → κ) (u : κ → K) (n m : ℕ) (w : List τ) :
    tokens sample key u (n + m) w =
      tokens sample key u n w ++ tokens sample key u m (w ++ tokens sample key u n w) := by
  induction n generalizing w with
  | zero => simp [tokens]
  | succ n ih =>
    rw [Nat.succ_add, tokens, ih, tokens, List.cons_append, List.append_assoc,
      List.singleton_append]

/-- The mean over the next `n` tokens after `w`. -/
noncomputable def mean (P : List τ → τ → ℝ) : ℕ → List τ → (List τ → ℝ≥0∞) → ℝ≥0∞
  | 0, _, g => g []
  | n + 1, w, g => tsum fun t => ofReal (P w t) * mean P n (w ++ [t]) fun y => g (t :: y)

/-- The product of the conditionals of the tokens of a string that follows `w`. -/
noncomputable def joint (P : List τ → τ → ℝ) : List τ → List τ → ℝ≥0∞
  | _, [] => 1
  | w, t :: x => ofReal (P w t) * joint P (w ++ [t]) x

/-- `sample` draws the next token from `P`. -/
structure Samples (P : List τ → τ → ℝ) (sample : List τ → ℝ → τ) : Prop where
  measurable : ∀ w t, MeasurableSet {x | sample w x = t}
  law : ∀ w t, unit {x | sample w x = t} = ofReal (P w t)

variable {P : List τ → τ → ℝ} {sample : List τ → ℝ → τ} {key : ℕ → κ}

lemma mean_const (hP : ∀ w, (tsum fun t => ofReal (P w t)) = 1) (n : ℕ) (w : List τ) (c : ℝ≥0∞) :
    mean P n w (fun _ => c) = c := by
  induction n generalizing w with
  | zero => rfl
  | succ n ih =>
    simp only [mean, ih]
    rw [ENNReal.tsum_mul_right, hP, one_mul]

/-- A string of at most `n` tokens comes out with the product of its conditionals. -/
theorem mean_take [DecidableEq τ] (hP : ∀ w, (tsum fun t => ofReal (P w t)) = 1) {n : ℕ}
    (w : List τ) {x : List τ} (hx : x.length ≤ n) :
    mean P n w (fun y => if y.take x.length = x then 1 else 0) = joint P w x := by
  induction n generalizing w x with
  | zero =>
    have hnil : x = [] := List.eq_nil_of_length_eq_zero (by omega)
    simp [hnil, mean, joint]
  | succ n ih =>
    cases x with
    | nil => simp [joint, mean_const hP]
    | cons s x =>
      rw [List.length_cons] at hx
      rw [mean, joint, tsum_eq_single s]
      · congr 1
        rw [← ih (w ++ [s]) (by omega)]
        congr 1
        simp
      · intro t ht
        simp [ht, mean_const hP]

variable [Countable τ]

lemma Samples.lintegral (h : Samples P sample) (w : List τ) (G : τ → ℝ≥0∞) :
    ∫⁻ x, G (sample w x) ∂unit = tsum fun t => ofReal (P w t) * G t := by
  rw [lintegral_eq_tsum (h.measurable w) fun t _ => G t]
  refine tsum_congr fun t => ?_
  rw [setLIntegral_const, h.law, mul_comm]

/-- A sampler whose means are those of `P` draws from `P`. -/
lemma samples_of_lintegral (hmeas : ∀ w t, MeasurableSet {x | sample w x = t})
    (h : ∀ w (G : τ → ℝ≥0∞), ∫⁻ x, G (sample w x) ∂unit = (tsum fun t => ofReal (P w t) * G t)) :
    Samples P sample := by
  classical
  refine ⟨hmeas, fun w t => ?_⟩
  have hmean := h w fun s => if s = t then 1 else 0
  rw [lintegral_eq_tsum (hmeas w) fun s _ => if s = t then 1 else 0, tsum_eq_single t,
    tsum_eq_single t] at hmean
  · simpa using hmean
  · intro s hs
    simp [hs]
  · intro s hs
    simp [hs]

lemma reads_tokens (h : Samples P sample) {S : Set κ} (n : ℕ) (w : List τ)
    (hS : ∀ j, w.length ≤ j → key j ∈ S) : Reads S fun u => tokens sample key u n w := by
  induction n generalizing w with
  | zero => exact reads_const S []
  | succ n ih =>
    have hdraw : Reads S fun u : κ → ℝ => sample w (u (key w.length)) :=
      reads_draw (h.measurable w) (hS _ (le_refl _))
    refine hdraw.seq (Y := fun t u => t :: tokens sample key u n (w ++ [t])) fun t => ?_
    refine Reads.map (ih (w ++ [t]) fun j hj => hS j ?_) (List.cons t)
    rw [List.length_append, List.length_singleton] at hj
    omega

/-- The program's mean is the law's. -/
theorem expect_tokens (h : Samples P sample) (hkey : Function.Injective key) (n : ℕ) (w : List τ)
    (g : List τ → ℝ≥0∞) :
    expect (fun u => tokens sample key u n w) g = mean P n w g := by
  induction n generalizing w g with
  | zero => exact expect_const [] g
  | succ n ih =>
    have hlater : ∀ t : τ, Reads {k | ∃ j, w.length < j ∧ k = key j}
        fun u => t :: tokens sample key u n (w ++ [t]) := by
      intro t
      refine Reads.map (reads_tokens h n (w ++ [t]) ?_) (List.cons t)
      intro j hj
      rw [List.length_append, List.length_singleton] at hj
      exact ⟨j, hj, rfl⟩
    have hfresh : Disjoint {key w.length} {k | ∃ j, w.length < j ∧ k = key j} := by
      rw [Set.disjoint_singleton_left]
      rintro ⟨j, hj, heq⟩
      exact absurd (hkey heq) hj.ne
    have hstage := expect_seq hfresh (reads_draw (h.measurable w) (Set.mem_singleton _)) hlater g
    have hmean : ∀ t : τ, expect (fun u => t :: tokens sample key u n (w ++ [t])) g =
        mean P n (w ++ [t]) fun y => g (t :: y) := fun t => ih (w ++ [t]) fun y => g (t :: y)
    simp only [tokens, hstage, hmean]
    rw [expect_draw (h.measurable w), mean]
    exact h.lintegral w fun t => mean P n (w ++ [t]) fun y => g (t :: y)

end NInfer.Autoregressive
