import Mathlib

/-!
# Gathering in place

Several rows move the cells of a window to its front: row `r` copies the cell at index `path r i`
to index `i`, for `i = 0, 1, …` up to its count, in one memory and in this order.  Rows do not wait
for each other, so a run is a list of row names in the order in which the rows take their steps.

A copy overwrites a cell that a later copy may want.  It does not if every row goes forward only
(`i ≤ path r i`) and all cells of all windows are different: then, whatever the order, a run leaves
in each front cell what its source held at the start and changes nothing else (`reached_run`).
-/

namespace NInfer.InPlaceGather

variable {ρ σ γ : Type}

/-- What the rows have to do: how many cells each one moves, from which indices, and which cell an
index of its window is. -/
structure Plan (ρ σ : Type) where
  count : ρ → ℕ
  path : ρ → ℕ → ℕ
  cell : ρ → ℕ → σ

/-- The memory, and how many steps each row has taken. -/
structure State (ρ σ γ : Type) where
  memory : σ → γ
  taken : ρ → ℕ

/-- A memory before any step. -/
def start (memory : σ → γ) : State ρ σ γ := ⟨memory, fun _ => 0⟩

variable [DecidableEq ρ] [DecidableEq σ]

/-- The next step of row `r`, if it has one. -/
def step (plan : Plan ρ σ) (s : State ρ σ γ) (r : ρ) : State ρ σ γ :=
  let i := s.taken r
  if i < plan.count r then
    { memory :=
        if plan.path r i ≠ i then
          Function.update s.memory (plan.cell r i) (s.memory (plan.cell r (plan.path r i)))
        else s.memory
      taken := Function.update s.taken r (i + 1) }
  else s

def run (plan : Plan ρ σ) (schedule : List ρ) (memory : σ → γ) : State ρ σ γ :=
  schedule.foldl (step plan) (start memory)

/-- Rows go forward only, in windows whose cells are all different. -/
structure Plan.Forward (plan : Plan ρ σ) : Prop where
  forward : ∀ r i, i < plan.count r → i ≤ plan.path r i
  apart : ∀ r i r' i', i < plan.count r → i' < plan.count r' →
    ∀ j ∈ [i, plan.path r i], ∀ j' ∈ [i', plan.path r' i'],
      plan.cell r j = plan.cell r' j' → r = r' ∧ j = j'

/-- A state on the way: the steps taken have moved what the memory held at the start. -/
structure Reached (plan : Plan ρ σ) (memory : σ → γ) (s : State ρ σ γ) : Prop where
  bound : ∀ r, s.taken r ≤ plan.count r
  moved : ∀ r i, i < s.taken r → s.memory (plan.cell r i) = memory (plan.cell r (plan.path r i))
  frame : ∀ c, (∀ r i, i < s.taken r → c ≠ plan.cell r i) → s.memory c = memory c

variable {plan : Plan ρ σ} {memory : σ → γ} {s : State ρ σ γ}

omit [DecidableEq ρ] [DecidableEq σ] in
/-- A source that a row has still to read holds what it held at the start. -/
lemma Reached.source (h : Reached plan memory s) (hplan : plan.Forward) {r : ρ}
    (hr : s.taken r < plan.count r) :
    s.memory (plan.cell r (plan.path r (s.taken r)))
      = memory (plan.cell r (plan.path r (s.taken r))) := by
  refine h.frame _ fun r' i' hi' heq => ?_
  obtain ⟨rfl, hsame⟩ := hplan.apart r _ r' i' hr (Nat.lt_of_lt_of_le hi' (h.bound r')) _
    (List.mem_cons_of_mem _ List.mem_cons_self) i' List.mem_cons_self heq
  have := hplan.forward r _ hr
  omega

lemma Reached.step (h : Reached plan memory s) (hplan : plan.Forward) (r : ρ) :
    Reached plan memory (step plan s r) := by
  unfold InPlaceGather.step
  by_cases hr : s.taken r < plan.count r
  swap
  · rw [if_neg hr]
    exact h
  rw [if_pos hr]
  have hsource := h.source hplan hr
  -- Whether it is copied or already there, the front cell then holds its source.
  have hmemory : ∀ c, (if plan.path r (s.taken r) ≠ s.taken r then
      Function.update s.memory (plan.cell r (s.taken r))
        (s.memory (plan.cell r (plan.path r (s.taken r)))) else s.memory) c
      = if c = plan.cell r (s.taken r) then memory (plan.cell r (plan.path r (s.taken r)))
        else s.memory c := by
    intro c
    by_cases hpath : plan.path r (s.taken r) = s.taken r
    · rw [if_neg (not_not.mpr hpath)]
      split_ifs with hc
      · rw [hc, ← hsource, hpath]
      · rfl
    · rw [if_pos hpath, Function.update_apply, hsource]
  have htaken : ∀ r' i', i' < Function.update s.taken r (s.taken r + 1) r' →
      (r' = r ∧ i' = s.taken r) ∨ i' < s.taken r' := by
    intro r' i' hi'
    rw [Function.update_apply] at hi'
    split_ifs at hi' with hrow
    · subst hrow
      exact (Nat.lt_succ_iff_lt_or_eq.mp hi').symm.imp (⟨rfl, ·⟩) id
    · exact .inr hi'
  refine ⟨fun r' => ?_, fun r' i' hi' => ?_, fun c hc => ?_⟩
  · dsimp only
    rw [Function.update_apply]
    split_ifs with hrow
    · rw [hrow]
      exact hr
    · exact h.bound r'
  · dsimp only
    rw [hmemory]
    rcases htaken r' i' hi' with ⟨rfl, rfl⟩ | hbefore
    · rw [if_pos rfl]
    · rw [if_neg, h.moved r' i' hbefore]
      intro heq
      obtain ⟨rfl, rfl⟩ := hplan.apart r' i' r _ (Nat.lt_of_lt_of_le hbefore (h.bound r')) hr i'
        List.mem_cons_self _ List.mem_cons_self heq
      omega
  · dsimp only at hc ⊢
    rw [hmemory, if_neg (hc r _ (by rw [Function.update_self]; omega))]
    refine h.frame c fun r' i' hi' => hc r' i' ?_
    rw [Function.update_apply]
    split_ifs with hrow
    · rw [← hrow]
      omega
    · exact hi'

lemma reached_run (hplan : plan.Forward) (schedule : List ρ) (memory : σ → γ) :
    Reached plan memory (run plan schedule memory) := by
  suffices h : ∀ s, Reached plan memory s → Reached plan memory (schedule.foldl (step plan) s) from
    h _ ⟨fun _ => Nat.zero_le _, fun _ _ h => absurd h (Nat.not_lt_zero _), fun _ _ => rfl⟩
  induction schedule with
  | nil => exact fun _ hs => hs
  | cons r _ ih => exact fun s hs => ih _ (hs.step hplan r)

/-- Every row comes up often enough to take all its steps. -/
def Complete (plan : Plan ρ σ) (schedule : List ρ) : Prop :=
  ∀ r, plan.count r ≤ schedule.count r

/-- A row takes a step whenever it comes up, until it has taken all of them. -/
lemma run_taken (schedule : List ρ) (memory : σ → γ) (r : ρ) :
    (run plan schedule memory).taken r = min (plan.count r) (schedule.count r) := by
  suffices h : ∀ s : State ρ σ γ, s.taken r ≤ plan.count r →
      (schedule.foldl (step plan) s).taken r
        = min (plan.count r) (s.taken r + schedule.count r) by
    exact (h (start memory) (Nat.zero_le _)).trans (by simp [start])
  induction schedule with
  | nil =>
    intro s hs
    exact (Nat.min_eq_right hs).symm
  | cons r' schedule ih =>
    intro s hs
    have hstep : (step plan s r').taken r
        = if r' = r ∧ s.taken r < plan.count r then s.taken r + 1 else s.taken r := by
      by_cases hr : r' = r
      · subst hr
        unfold step
        by_cases hlt : s.taken r' < plan.count r' <;> simp [hlt]
      · unfold step
        by_cases hlt : s.taken r' < plan.count r' <;>
          simp [hlt, hr, Function.update_of_ne (Ne.symm hr)]
    rw [List.foldl_cons, ih _ (by rw [hstep]; split_ifs <;> omega), hstep, List.count_cons]
    by_cases hr : r' = r
    · simp only [hr, true_and, beq_self_eq_true, if_true]
      split_ifs <;> omega
    · simp [hr]

/-- A plan that moves nothing leaves the memory as it is. -/
lemma run_identity (hpath : ∀ r i, i < plan.count r → plan.path r i = i) (schedule : List ρ)
    (memory : σ → γ) : (run plan schedule memory).memory = memory := by
  suffices h : ∀ s : State ρ σ γ, (schedule.foldl (step plan) s).memory = s.memory from h _
  induction schedule with
  | nil => exact fun _ => rfl
  | cons r schedule ih =>
    intro s
    rw [List.foldl_cons, ih, step]
    by_cases hr : s.taken r < plan.count r
    · rw [if_pos hr]
      exact if_neg (not_not.mpr (hpath r _ hr))
    · rw [if_neg hr]

end NInfer.InPlaceGather
