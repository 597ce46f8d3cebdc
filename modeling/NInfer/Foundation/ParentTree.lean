import Mathlib

/-!
# Trees as parent arrays

A tree on the columns `0, …, n - 1` stored as an array of parents: column `0` is the root, and every
other column comes after its parent.  `upPath` is the loop that follows parents from a node to the
root, with a bound on its length; `rootPath` is the path that it finds, in the order from the root.
Because parents come first, the walk from column `c` has at most `c + 1` nodes, so any bound above
`c` gives the same path (`upPath_eq`) and paths extend those of the parents
(`rootPath_of_parent`).
-/

namespace NInfer

/-- `parent` is a tree on `0, …, n - 1` in topological order. -/
structure ParentTree (n : ℕ) (parent : ℕ → ℤ) : Prop where
  root : parent 0 = -1
  precedes : ∀ c, 0 < c → c < n → 0 ≤ parent c ∧ parent c < c

namespace ParentTree

/-- `for (m = node; m >= 0 && depth < fuel; m = parent[m]) path[depth++] = m`. -/
def upPath (parent : ℕ → ℤ) : ℕ → ℤ → List ℕ
  | 0, _ => []
  | fuel + 1, node => if node < 0 then [] else node.toNat :: upPath parent fuel (parent node.toNat)

/-- The columns from the root to `c`. -/
def rootPath (parent : ℕ → ℤ) (c : ℕ) : List ℕ := (upPath parent (c + 1) c).reverse

variable {n : ℕ} {parent : ℕ → ℤ}

lemma upPath_succ (fuel c : ℕ) :
    upPath parent (fuel + 1) (c : ℤ) = c :: upPath parent fuel (parent c) := by
  rw [upPath, if_neg (by omega), Int.toNat_natCast]

lemma upPath_neg {node : ℤ} (h : node < 0) (fuel : ℕ) : upPath parent fuel node = [] := by
  cases fuel with
  | zero => rfl
  | succ fuel => rw [upPath, if_pos h]

section

variable (h : ParentTree n parent)

include h

/-- Induction along the parents. -/
lemma induction {P : ℕ → Prop} (root : P 0)
    (step : ∀ c q, 0 < c → c < n → parent c = (q : ℕ) → q < c → P q → P c) {c : ℕ} (hc : c < n) :
    P c := by
  induction c using Nat.strongRecOn with
  | ind c ih =>
    rcases Nat.eq_zero_or_pos c with rfl | hpos
    · exact root
    · obtain ⟨hparent, hlt⟩ := h.precedes c hpos hc
      obtain ⟨q, hq⟩ := Int.eq_ofNat_of_zero_le hparent
      exact step c q hpos hc hq (by omega) (ih q (by omega) (by omega))

/-- A walk that is long enough does not depend on its bound. -/
lemma upPath_eq {c : ℕ} (hc : c < n) :
    ∀ fuel fuel', c < fuel → c < fuel' → upPath parent fuel c = upPath parent fuel' c := by
  refine h.induction (P := fun c => ∀ fuel fuel', c < fuel → c < fuel' →
    upPath parent fuel c = upPath parent fuel' c) ?_ ?_ hc
  · rintro (_ | fuel) (_ | fuel') hfuel hfuel'
    · rfl
    · omega
    · omega
    · have hstop : parent 0 < 0 := by rw [h.root]; omega
      rw [upPath_succ, upPath_succ, upPath_neg hstop, upPath_neg hstop]
  · rintro c q hpos - hq hlt ih (_ | fuel) (_ | fuel') hfuel hfuel'
    · rfl
    · omega
    · omega
    · rw [upPath_succ, upPath_succ, hq, ih fuel fuel' (by omega) (by omega)]

lemma length_upPath_le {c : ℕ} (hc : c < n) : ∀ fuel, (upPath parent fuel c).length ≤ c + 1 := by
  refine h.induction (P := fun c => ∀ fuel, (upPath parent fuel c).length ≤ c + 1) ?_ ?_ hc
  · rintro (_ | fuel)
    · simp [upPath]
    · have hstop : parent 0 < 0 := by rw [h.root]; omega
      rw [upPath_succ, upPath_neg hstop]
      simp
  · rintro c q - - hq hlt ih (_ | fuel)
    · simp [upPath]
    · rw [upPath_succ, hq, List.length_cons]
      have := ih fuel
      omega

lemma rootPath_zero : rootPath parent 0 = [0] := by
  have hstop : parent 0 < 0 := by rw [h.root]; omega
  rw [rootPath, upPath_succ, upPath_neg hstop, List.reverse_singleton]

/-- A path is its parent's path and the column itself. -/
lemma rootPath_of_parent {c q : ℕ} (hpos : 0 < c) (hc : c < n)
    (hq : parent c = q) : rootPath parent c = rootPath parent q ++ [c] := by
  have hlt := (h.precedes c hpos hc).2
  rw [rootPath, upPath_succ, hq, List.reverse_cons, rootPath,
    h.upPath_eq (by omega : q < n) c (q + 1) (by omega) (Nat.lt_succ_self q)]

/-- A path starts at the root. -/
lemma rootPath_eq_cons {c : ℕ} (hc : c < n) : ∃ rest, rootPath parent c = 0 :: rest := by
  refine h.induction (P := fun c => ∃ rest, rootPath parent c = 0 :: rest) ?_ ?_ hc
  · exact ⟨[], h.rootPath_zero⟩
  · rintro c q hpos hc hq - ⟨rest, hrest⟩
    exact ⟨rest ++ [c], by rw [h.rootPath_of_parent hpos hc hq, hrest, List.cons_append]⟩

lemma le_of_mem_rootPath {c : ℕ} (hc : c < n) : ∀ j ∈ rootPath parent c, j ≤ c := by
  refine h.induction (P := fun c => ∀ j ∈ rootPath parent c, j ≤ c) ?_ ?_ hc
  · intro j hj
    rw [h.rootPath_zero, List.mem_singleton] at hj
    omega
  · intro c q hpos hc hq hlt ih j hj
    rw [h.rootPath_of_parent hpos hc hq, List.mem_append, List.mem_singleton] at hj
    rcases hj with hj | rfl
    · have := ih j hj
      omega
    · exact Nat.le_refl _

end

end ParentTree

end NInfer
