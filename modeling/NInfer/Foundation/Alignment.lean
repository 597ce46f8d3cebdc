import Mathlib

/-!
# Rounding an address up to a power of two

`alignUp x a` is the expression `(x + (a - 1)) & ~(a - 1)`.  Naturals have no complement, and
`y & ~m` is written as `y - (y & m)`, which is the same number for every width that holds `y`.

For a power of two the result is the least multiple of `a` that is not below `x` (`le_alignUp`,
`dvd_alignUp`, `alignUp_le_iff`), so it commutes with an offset that is itself a multiple
(`alignUp_add`).  The last fact is what lets a planner that starts at zero predict an allocator
that starts at an address.
-/

namespace NInfer

/-- `a != 0 && (a & (a - 1)) == 0`. -/
def IsPowerOfTwo (a : ℕ) : Prop := a ≠ 0 ∧ a &&& (a - 1) = 0

instance (a : ℕ) : Decidable (IsPowerOfTwo a) := inferInstanceAs (Decidable (_ ∧ _))

lemma isPowerOfTwo_iff {a : ℕ} : IsPowerOfTwo a ↔ ∃ k, a = 2 ^ k := by
  constructor
  · rintro ⟨hne, hand⟩
    exact (Nat.and_sub_one_eq_zero_iff_isPowerOfTwo hne).mp hand
  · rintro ⟨k, rfl⟩
    have hne : 2 ^ k ≠ 0 := (Nat.two_pow_pos k).ne'
    exact ⟨hne, (Nat.and_sub_one_eq_zero_iff_isPowerOfTwo hne).mpr ⟨k, rfl⟩⟩

/-- `(x + mask) & ~mask` with `mask = a - 1`. -/
def alignUp (x a : ℕ) : ℕ := x + (a - 1) - ((x + (a - 1)) &&& (a - 1))

section

variable {a x y : ℕ} (ha : IsPowerOfTwo a)

include ha

lemma IsPowerOfTwo.pos : 0 < a := Nat.pos_of_ne_zero ha.1

/-- The masked bits are the remainder. -/
lemma alignUp_eq (x : ℕ) : alignUp x a = x + (a - 1) - (x + (a - 1)) % a := by
  obtain ⟨k, rfl⟩ := isPowerOfTwo_iff.mp ha
  rw [alignUp, Nat.and_two_pow_sub_one_eq_mod]

lemma dvd_alignUp (x : ℕ) : a ∣ alignUp x a := by
  rw [alignUp_eq ha]
  exact Nat.dvd_sub_mod _

lemma le_alignUp (x : ℕ) : x ≤ alignUp x a := by
  have hmod := Nat.mod_lt (x + (a - 1)) ha.pos
  rw [alignUp_eq ha]
  omega

lemma alignUp_lt_add (x : ℕ) : alignUp x a < x + a := by
  have := ha.pos
  rw [alignUp_eq ha]
  omega

/-- The aligned address is the least multiple from `x` on. -/
lemma alignUp_le_iff (hy : a ∣ y) : alignUp x a ≤ y ↔ x ≤ y := by
  refine ⟨(le_alignUp ha x).trans, fun hxy => ?_⟩
  by_contra hlt
  -- Between two multiples there is at least one step of `a`.
  have hstep : a ≤ alignUp x a - y :=
    Nat.le_of_dvd (by omega) (Nat.dvd_sub (dvd_alignUp ha x) hy)
  have := alignUp_lt_add ha x
  omega

/-- A number that is itself a multiple is passed only by rounding past it. -/
lemma le_alignUp_of_lt (hy : a ∣ y) (hlt : y < x + a) : y ≤ alignUp x a := by
  by_contra hgt
  have hstep : a ≤ y - alignUp x a := Nat.le_of_dvd (by omega) (Nat.dvd_sub hy (dvd_alignUp ha x))
  have := le_alignUp ha x
  omega

/-- Rounding commutes with an offset that is itself aligned. -/
lemma alignUp_add (hy : a ∣ y) (x : ℕ) : alignUp (y + x) a = y + alignUp x a := by
  refine Nat.le_antisymm ?_ ?_
  · refine (alignUp_le_iff ha (Nat.dvd_add hy (dvd_alignUp ha x))).mpr ?_
    have := le_alignUp ha x
    omega
  · have hy_le : y ≤ alignUp (y + x) a := (Nat.le_add_right y x).trans (le_alignUp ha _)
    have hdvd : a ∣ alignUp (y + x) a - y := Nat.dvd_sub (dvd_alignUp ha _) hy
    have hx : x ≤ alignUp (y + x) a - y := by
      have := le_alignUp ha (y + x)
      omega
    have := (alignUp_le_iff ha hdvd).mpr hx
    omega

end

end NInfer
