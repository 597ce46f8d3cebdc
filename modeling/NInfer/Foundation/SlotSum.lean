import Mathlib

/-!
# Totals over a table of slots

Bookkeeping invariants say that a counter, a free list or an index equals a total taken over all
the objects in some table.  `slotSum f l` is that total, for any quantity `f` valued in a
commutative monoid: a count, a byte size, or a multiset of resources.  An operation that rewrites
one slot changes the total by exactly the difference of the slot's two values (`slotSum_set`),
stated without subtraction so that it holds for multisets as well as for numbers.
-/

namespace NInfer

variable {α M : Type}

/-- The total of `f` over the slots of a table. -/
def slotSum [AddCommMonoid M] (f : α → M) (l : List α) : M := (l.map f).sum

section AddCommMonoid

variable [AddCommMonoid M] (f : α → M)

@[simp] lemma slotSum_nil : slotSum f [] = 0 := rfl

@[simp] lemma slotSum_cons (x : α) (l : List α) :
    slotSum f (x :: l) = f x + slotSum f l := by
  simp [slotSum]

@[simp] lemma slotSum_append (l₁ l₂ : List α) :
    slotSum f (l₁ ++ l₂) = slotSum f l₁ + slotSum f l₂ := by
  simp [slotSum]

/-- Rewriting one slot exchanges its old value for its new one. -/
lemma slotSum_set {l : List α} {i : ℕ} {x : α} (hx : l[i]? = some x) (y : α) :
    slotSum f (l.set i y) + f x = slotSum f l + f y := by
  induction l generalizing i with
  | nil => simp at hx
  | cons z l ih =>
    cases i with
    | zero =>
      obtain rfl : z = x := by simpa using hx
      simp only [List.set_cons_zero, slotSum_cons]
      abel
    | succ i =>
      have hrest : slotSum f (l.set i y) + f x = slotSum f l + f y := ih (by simpa using hx)
      rw [List.set_cons_succ, slotSum_cons, slotSum_cons, add_assoc, hrest, add_assoc]

lemma slotSum_eq_zero {l : List α} (h : ∀ x ∈ l, f x = 0) : slotSum f l = 0 := by
  induction l with
  | nil => rfl
  | cons x l ih =>
    rw [slotSum_cons, h x List.mem_cons_self, zero_add]
    exact ih fun y hy => h y (List.mem_cons_of_mem _ hy)

end AddCommMonoid

/-- One slot's share is at most the total. -/
lemma le_slotSum (f : α → ℕ) {l : List α} {x : α} (hx : x ∈ l) : f x ≤ slotSum f l :=
  List.single_le_sum (fun _ _ => Nat.zero_le _) _ (List.mem_map_of_mem hx)

lemma slotSum_le_slotSum {f g : α → ℕ} {l : List α} (h : ∀ x ∈ l, f x ≤ g x) :
    slotSum f l ≤ slotSum g l :=
  List.sum_le_sum h

end NInfer
