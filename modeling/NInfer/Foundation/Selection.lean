import Mathlib

/-!
# Loops that keep the best candidate

`for (x : xs) { consider(x); }` with an optional result: `consider` may replace what is selected,
but never drops it.  `foldl_isSome_iff` says when such a loop ends with a selection,
`foldl_selected` what is known about it.
-/

namespace NInfer

variable {α β : Type} {consider : Option β → α → Option β}

/-- A selection is made exactly if a candidate qualifies. -/
lemma foldl_isSome_iff {Q : α → Prop}
    (h : ∀ selected x, (consider selected x).isSome ↔ selected.isSome ∨ Q x)
    (xs : List α) (selected : Option β) :
    (xs.foldl consider selected).isSome ↔ selected.isSome ∨ ∃ x ∈ xs, Q x := by
  induction xs generalizing selected with
  | nil => simp
  | cons x xs ih =>
    rw [List.foldl_cons, ih, h]
    simp [or_assoc]

/-- What holds of every candidate that is taken holds of the selection. -/
lemma foldl_selected {P : β → Prop} {xs : List α}
    (h : ∀ selected, (∀ b ∈ selected, P b) → ∀ x ∈ xs, ∀ b ∈ consider selected x, P b)
    {selected : Option β} (hselected : ∀ b ∈ selected, P b) :
    ∀ b ∈ xs.foldl consider selected, P b := by
  induction xs generalizing selected with
  | nil => exact hselected
  | cons x xs ih =>
    apply ih
    · intro selected hselected y hy
      exact h selected hselected y (List.mem_cons_of_mem _ hy)
    · exact h selected hselected x List.mem_cons_self

end NInfer
