import Mathlib

/-!
# How often a loop runs

`iterations cond body μ s` is the number of times `while (cond(s)) { s = body(s); }` runs its body
from `s`.  The measure `μ` bounds the recursion; if the body decreases it, the bound is never met
and the two equations of the loop hold (`iterations_step`, `iterations_stop`).

Recursions with fuel in general do not depend on it once it reaches a measure: `fuel_eq`.

Two loops are compared step by step: `iterations_le` says that a loop that stays behind another one
runs at least as often, and `iterations_eq` that two loops that stay related run equally often.
One loop is bounded by what an iteration does to a quantity: `iterations_le_potential` from above,
`le_mul_iterations` from below.

A loop without an end makes progress if it never loses what it has gained and gains something over
and over: `exists_of_fair_descent`.
-/

namespace NInfer

variable {σ τ : Type}

/-- Fuel above the measure `μ` changes nothing, if the recursive calls get by with one unit less. -/
lemma fuel_eq {f : ℕ → σ → τ} {μ : σ → ℕ} (hzero : ∀ s, μ s = 0 → f 1 s = f 0 s)
    (hsucc : ∀ fuel, (∀ t, μ t ≤ fuel → f (fuel + 1) t = f fuel t) →
      ∀ s, μ s ≤ fuel + 1 → f (fuel + 2) s = f (fuel + 1) s) {fuel : ℕ} {s : σ}
    (hfuel : μ s ≤ fuel) : f fuel s = f (μ s) s := by
  have key : ∀ fuel s, μ s ≤ fuel → f (fuel + 1) s = f fuel s := by
    intro fuel
    induction fuel with
    | zero => exact fun s hs => hzero s (Nat.le_zero.mp hs)
    | succ fuel ih => exact hsucc fuel ih
  induction hfuel with
  | refl => rfl
  | step hle ih => rw [key _ s hle, ih]

/-- The number of iterations among the first `fuel`. -/
def iterationsWithin (cond : σ → Prop) [DecidablePred cond] (body : σ → σ) : ℕ → σ → ℕ
  | 0, _ => 0
  | fuel + 1, s => if cond s then iterationsWithin cond body fuel (body s) + 1 else 0

/-- The number of iterations of a loop whose body decreases `μ`. -/
def iterations (cond : σ → Prop) [DecidablePred cond] (body : σ → σ) (μ : σ → ℕ) (s : σ) : ℕ :=
  iterationsWithin cond body (μ s) s

section

variable {cond : σ → Prop} [DecidablePred cond] {body : σ → σ} {μ : σ → ℕ}

/-- Any fuel above the measure counts the same. -/
lemma iterationsWithin_of_le (hμ : ∀ s, cond s → μ (body s) < μ s) {fuel : ℕ} {s : σ}
    (hfuel : μ s ≤ fuel) : iterationsWithin cond body fuel s = iterations cond body μ s := by
  refine fuel_eq (fun s hs => ?_) (fun fuel ih s hs => ?_) hfuel
  · have hstop : ¬cond s := fun h => by
      have := hμ s h
      omega
    simp only [iterationsWithin, hstop, if_false]
  · by_cases h : cond s
    · have := hμ s h
      rw [iterationsWithin, if_pos h, ih (body s) (by omega), iterationsWithin, if_pos h]
    · simp only [iterationsWithin, h, if_false]

lemma iterations_stop {s : σ} (hs : ¬cond s) : iterations cond body μ s = 0 := by
  unfold iterations
  cases μ s with
  | zero => rfl
  | succ n => rw [iterationsWithin, if_neg hs]

section

variable (hμ : ∀ s, cond s → μ (body s) < μ s)

include hμ

lemma iterations_step {s : σ} (hs : cond s) :
    iterations cond body μ s = iterations cond body μ (body s) + 1 := by
  obtain ⟨n, hn⟩ : ∃ n, μ s = n + 1 := Nat.exists_eq_succ_of_ne_zero (by have := hμ s hs; omega)
  have hlt := hμ s hs
  rw [iterations, hn, iterationsWithin, if_pos hs, iterationsWithin_of_le hμ (by omega)]

/-- A loop that stays behind another one runs at least as often.  `R s t` reads "`t` is at least as
far as `s`". -/
lemma iterations_le {cond' : τ → Prop} [DecidablePred cond'] {body' : τ → τ} {μ' : τ → ℕ}
    (hμ' : ∀ t, cond' t → μ' (body' t) < μ' t)
    {R : σ → τ → Prop} (hcond : ∀ s t, R s t → cond' t → cond s)
    (hbody : ∀ s t, R s t → cond' t → R (body s) (body' t)) {s : σ} {t : τ} (h : R s t) :
    iterations cond' body' μ' t ≤ iterations cond body μ s := by
  induction hn : μ' t using Nat.strongRecOn generalizing s t with
  | _ n ih =>
    by_cases ht : cond' t
    · have hs := hcond s t h ht
      have hlt := hμ' t ht
      rw [iterations_step hμ hs, iterations_step hμ' ht]
      exact Nat.succ_le_succ (ih _ (hn ▸ hlt) (hbody s t h ht) rfl)
    · rw [iterations_stop ht]
      exact Nat.zero_le _

/-- A potential that every iteration lowers bounds the number of iterations. -/
lemma iterations_le_potential {P : σ → ℕ}
    (hP : ∀ s, cond s → P (body s) + 1 ≤ P s) (s : σ) : iterations cond body μ s ≤ P s := by
  induction hn : μ s using Nat.strongRecOn generalizing s with
  | _ n ih =>
    by_cases hs : cond s
    · have := ih _ (hn ▸ hμ s hs) (body s) rfl
      have := hP s hs
      rw [iterations_step hμ hs]
      omega
    · rw [iterations_stop hs]
      exact Nat.zero_le _

/-- A quantity that an iteration lowers by at most `c`, and that is used up when the loop stops. -/
lemma le_mul_iterations {Q : σ → ℕ} {c : ℕ}
    (hstop : ∀ s, ¬cond s → Q s = 0) (hQ : ∀ s, cond s → Q s ≤ Q (body s) + c) (s : σ) :
    Q s ≤ c * iterations cond body μ s := by
  induction hn : μ s using Nat.strongRecOn generalizing s with
  | _ n ih =>
    by_cases hs : cond s
    · have := ih _ (hn ▸ hμ s hs) (body s) rfl
      have := hQ s hs
      rw [iterations_step hμ hs, Nat.mul_add]
      omega
    · rw [hstop s hs]
      exact Nat.zero_le _

/-- Two loops that stay related run equally often. -/
lemma iterations_eq {cond' : τ → Prop} [DecidablePred cond'] {body' : τ → τ} {μ' : τ → ℕ}
    (hμ' : ∀ t, cond' t → μ' (body' t) < μ' t)
    {R : σ → τ → Prop} (hcond : ∀ s t, R s t → (cond s ↔ cond' t))
    (hbody : ∀ s t, R s t → cond s → R (body s) (body' t)) {s : σ} {t : τ} (h : R s t) :
    iterations cond body μ s = iterations cond' body' μ' t := by
  refine Nat.le_antisymm ?_ ?_
  · exact iterations_le (R := fun t s => R s t) hμ' hμ (fun t s h hs => (hcond s t h).mp hs)
      (fun t s h hs => hbody s t h hs) h
  · exact iterations_le hμ hμ' (fun s t h ht => (hcond s t h).mpr ht)
      (fun s t h ht => hbody s t h ((hcond s t h).mpr ht)) h

end

end

/-! ## Endless runs -/

/-- A quantity that never grows and shrinks infinitely often cannot last. -/
lemma exists_of_fair_descent {Q F : ℕ → Prop} {μ : ℕ → ℕ}
    (hstep : ∀ i, ¬Q i → ¬Q (i + 1) → μ (i + 1) ≤ μ i ∧ (F i → μ (i + 1) < μ i))
    (hfair : ∀ i, ∃ j, i ≤ j ∧ F j) : ∃ i, Q i := by
  by_contra hnever
  push Not at hnever
  have hmono : ∀ i d, μ (i + d) ≤ μ i := by
    intro i d
    induction d with
    | zero => exact Nat.le_refl _
    | succ d ih => exact Nat.le_trans (hstep (i + d) (hnever _) (hnever _)).1 ih
  -- From any point on, the quantity drops below any value it has had.
  have hdrop : ∀ m i, μ i ≤ m → False := by
    intro m
    induction m with
    | zero =>
      intro i hi
      obtain ⟨j, hij, hj⟩ := hfair i
      obtain ⟨d, rfl⟩ := Nat.exists_eq_add_of_le hij
      have hless := (hstep (i + d) (hnever _) (hnever _)).2 hj
      have hle := hmono i d
      omega
    | succ m ih =>
      intro i hi
      obtain ⟨j, hij, hj⟩ := hfair i
      obtain ⟨d, rfl⟩ := Nat.exists_eq_add_of_le hij
      have hless := (hstep (i + d) (hnever _) (hnever _)).2 hj
      have hle := hmono i d
      exact ih (i + d + 1) (by omega)
  exact hdrop (μ 0) 0 (Nat.le_refl _)

end NInfer
