import NInfer.Foundation.Fallible

/-!
# Programs that allocate inside scopes

A scoped allocator hands out results in a last-in first-out discipline: opening a scope remembers
its mark, and closing the scope rewinds it to the mark, which gives up everything handed out since.
`Allocator` is what such an allocator offers and `Allocator.run` executes a program of scopes and
requests on it; `Running` is the allocator with the results handed out so far, those that no closed
scope has given up, and the open scopes.

If every result lies between the marks before and after its request (`Lawful`), the results that are
live at one time do not overlap (`Nested.apart`), whatever the program.  One allocator `Simulates`
another if it answers each request the other one answers, on related states; then it executes every
program the other one executes (`Simulates.run`).  A resource that only the simulating allocator
checks is the predicate `Within`: it holds along a run if it holds at its end.
-/

namespace NInfer

variable {ε ρ α β σ τ : Type}

/-- An allocator with states `σ` that answers requests `ρ` with results `α`. -/
structure Allocator (ε ρ α σ : Type) where
  alloc : σ → ρ → Except ε (α × σ)
  mark : σ → ℕ
  rewind : σ → ℕ → σ

inductive ScopedOp (ρ : Type) where
  | openScope
  | closeScope
  | alloc (request : ρ)

/-- An allocator in the middle of a program.  Each open scope keeps its mark and the results that
were live when it was opened. -/
structure Running (α σ : Type) where
  state : σ
  results : List α := []
  live : List α := []
  scopes : List (ℕ × List α) := []

namespace Allocator

variable (A : Allocator ε ρ α σ)

/-- One operation.  Closing a scope that was never opened does nothing. -/
def step (r : Running α σ) : ScopedOp ρ → Except ε (Running α σ)
  | .openScope => return { r with scopes := (A.mark r.state, r.live) :: r.scopes }
  | .closeScope =>
    match r.scopes with
    | [] => return r
    | (mark, live) :: scopes => return { r with state := A.rewind r.state mark, live, scopes }
  | .alloc request => do
    let (a, state) ← A.alloc r.state request
    return { r with state, results := r.results ++ [a], live := a :: r.live }

def runFrom (r : Running α σ) (program : List (ScopedOp ρ)) : Except ε (Running α σ) :=
  program.foldlM A.step r

def run (s : σ) (program : List (ScopedOp ρ)) : Except ε (Running α σ) :=
  A.runFrom { state := s } program

variable {A} {r r' : Running α σ}

variable {program : List (ScopedOp ρ)} {op : ScopedOp ρ}

/-- What a successful operation did. -/
lemma step_cases (h : A.step r op = .ok r') :
    r' = { r with scopes := (A.mark r.state, r.live) :: r.scopes } ∨
      (r.scopes = [] ∧ r' = r) ∨
      (∃ mark live scopes, r.scopes = (mark, live) :: scopes ∧
        r' = { r with state := A.rewind r.state mark, live, scopes }) ∨
      ∃ request a state, op = .alloc request ∧ A.alloc r.state request = .ok (a, state) ∧
        r' = { r with state, results := r.results ++ [a], live := a :: r.live } := by
  cases op with
  | openScope => exact .inl (ok_pure_iff.mp h).symm
  | closeScope =>
    rw [step] at h
    rcases hscopes : r.scopes with _ | ⟨⟨mark, live⟩, scopes⟩
    · rw [hscopes] at h
      exact .inr (.inl ⟨rfl, (ok_pure_iff.mp h).symm⟩)
    · rw [hscopes] at h
      exact .inr (.inr (.inl ⟨mark, live, scopes, rfl, (ok_pure_iff.mp h).symm⟩))
  | alloc request =>
    obtain ⟨⟨a, state⟩, halloc, hr⟩ := ok_bind_iff.mp h
    exact .inr (.inr (.inr ⟨request, a, state, rfl, halloc, (ok_pure_iff.mp hr).symm⟩))

lemma runFrom_cons_iff :
    A.runFrom r (op :: program) = .ok r' ↔
      ∃ r₁, A.step r op = .ok r₁ ∧ A.runFrom r₁ program = .ok r' :=
  ok_bind_iff

lemma runFrom_append_iff {first rest : List (ScopedOp ρ)} :
    A.runFrom r (first ++ rest) = .ok r' ↔
      ∃ r₁, A.runFrom r first = .ok r₁ ∧ A.runFrom r₁ rest = .ok r' := by
  unfold runFrom
  rw [List.foldlM_append]
  exact ok_bind_iff

/-! ## Results that are live together -/

/-- Each result lies between the marks before and after its request. -/
structure Lawful (A : Allocator ε ρ α σ) (start stop : α → ℕ) : Prop where
  le_start : ∀ {s q a s'}, A.alloc s q = .ok (a, s') → A.mark s ≤ start a
  stop_le : ∀ {s q a s'}, A.alloc s q = .ok (a, s') → stop a ≤ A.mark s'
  start_le_stop : ∀ a, start a ≤ stop a
  mark_rewind : ∀ s mark, mark ≤ A.mark s → A.mark (A.rewind s mark) = mark

/-- The live results end before `mark`, the older ones before the newer ones start. -/
structure Below (start stop : α → ℕ) (mark : ℕ) (live : List α) : Prop where
  stop_le : ∀ a ∈ live, stop a ≤ mark
  apart : live.Pairwise fun newer older => stop older ≤ start newer

/-- The open scopes, from the innermost outwards: each was opened at a mark not above the current
one and remembers results below that mark. -/
def ScopesBelow (start stop : α → ℕ) : ℕ → List (ℕ × List α) → Prop
  | _, [] => True
  | top, (mark, live) :: scopes =>
    mark ≤ top ∧ Below start stop mark live ∧ ScopesBelow start stop mark scopes

structure Nested (A : Allocator ε ρ α σ) (start stop : α → ℕ) (r : Running α σ) : Prop where
  live : Below start stop (A.mark r.state) r.live
  scopes : ScopesBelow start stop (A.mark r.state) r.scopes

variable {start stop : α → ℕ}

lemma ScopesBelow.mono {top top' : ℕ} {scopes : List (ℕ × List α)}
    (h : ScopesBelow start stop top scopes) (hle : top ≤ top') :
    ScopesBelow start stop top' scopes := by
  cases scopes with
  | nil => trivial
  | cons scope scopes => exact ⟨h.1.trans hle, h.2⟩

lemma Nested.init (A : Allocator ε ρ α σ) (s : σ) : Nested A start stop { state := s } :=
  ⟨⟨fun _ h => (by cases h), .nil⟩, trivial⟩

lemma Lawful.step (hA : Lawful A start stop) (hr : Nested A start stop r)
    (hstep : A.step r op = .ok r') : Nested A start stop r' := by
  rcases step_cases hstep with rfl | ⟨-, rfl⟩ | ⟨mark, live, scopes, hscopes, rfl⟩ |
    ⟨request, a, state, -, halloc, rfl⟩
  · exact ⟨hr.live, le_rfl, hr.live, hr.scopes⟩
  · exact hr
  · have hbelow := hr.scopes
    rw [hscopes] at hbelow
    obtain ⟨hle, hlive, hrest⟩ := hbelow
    have hmark := hA.mark_rewind r.state mark hle
    exact ⟨by rwa [hmark], by rwa [hmark]⟩
  · have hstart := hA.le_start halloc
    have hstop := hA.stop_le halloc
    have hle : A.mark r.state ≤ A.mark state := hstart.trans ((hA.start_le_stop a).trans hstop)
    refine ⟨⟨fun b hb => ?_, List.pairwise_cons.mpr ⟨fun b hb => ?_, hr.live.apart⟩⟩,
      hr.scopes.mono hle⟩
    · rcases List.mem_cons.mp hb with rfl | hb
      · exact hstop
      · exact (hr.live.stop_le b hb).trans hle
    · exact (hr.live.stop_le b hb).trans hstart

lemma Lawful.runFrom (hA : Lawful A start stop) (hr : Nested A start stop r)
    (hrun : A.runFrom r program = .ok r') :
    Nested A start stop r' := by
  induction program generalizing r with
  | nil => exact ok_pure_iff.mp hrun ▸ hr
  | cons op program ih =>
    obtain ⟨r₁, hstep, hrest⟩ := runFrom_cons_iff.mp hrun
    exact ih (hA.step hr hstep) hrest

/-! ## Simulation -/

/-- `B` answers, on related states, every request `Wanted` that `A` answers and that leaves `A`
`Within` its bounds. -/
structure Simulates (A : Allocator ε ρ α σ) (B : Allocator ε ρ β τ) (R : σ → τ → Prop) (f : α → β)
    (Within : σ → Prop) (Wanted : ρ → Prop) : Prop where
  mark : ∀ {s t}, R s t → B.mark t = A.mark s
  rewind : ∀ {s t mark}, R s t → mark ≤ A.mark s → R (A.rewind s mark) (B.rewind t mark)
  alloc : ∀ {s t q a s'}, R s t → Wanted q → A.alloc s q = .ok (a, s') → Within s' →
    ∃ t', B.alloc t q = .ok (f a, t') ∧ R s' t'
  within_of_alloc : ∀ {s q a s'}, A.alloc s q = .ok (a, s') → Within s' → Within s
  within_of_rewind : ∀ {s mark}, Within (A.rewind s mark) → Within s

/-- The same program position on both allocators. -/
structure Related (R : σ → τ → Prop) (f : α → β) (r : Running α σ) (r' : Running β τ) : Prop where
  state : R r.state r'.state
  results : r'.results = r.results.map f
  live : r'.live = r.live.map f
  scopes : r'.scopes = r.scopes.map fun scope => (scope.1, scope.2.map f)

variable {B : Allocator ε ρ β τ} {R : σ → τ → Prop} {f : α → β} {Within : σ → Prop}
  {Wanted : ρ → Prop}

namespace Simulates

variable {program : List (ScopedOp ρ)} {r₁ : Running α σ}

lemma step (hAB : Simulates A B R f Within Wanted) {r' : Running β τ} {op : ScopedOp ρ}
    (hr : Nested A start stop r) (hrel : Related R f r r') (hwanted : ∀ q, op = .alloc q → Wanted q)
    (hstep : A.step r op = .ok r₁) (hwithin : Within r₁.state) :
    ∃ r₁', B.step r' op = .ok r₁' ∧ Related R f r₁ r₁' := by
  cases op with
  | openScope =>
    obtain rfl := ok_pure_iff.mp hstep
    refine ⟨_, rfl, hrel.state, hrel.results, hrel.live, ?_⟩
    rw [hAB.mark hrel.state, hrel.live, hrel.scopes, List.map_cons]
  | closeScope =>
    have hscopes' := hrel.scopes
    rcases hscopes : r.scopes with _ | ⟨⟨mark, live⟩, scopes⟩
    · rw [hscopes, List.map_nil] at hscopes'
      rw [Allocator.step, hscopes] at hstep
      obtain rfl := ok_pure_iff.mp hstep
      exact ⟨r', by rw [Allocator.step, hscopes']; rfl, hrel⟩
    · rw [hscopes, List.map_cons] at hscopes'
      rw [Allocator.step, hscopes] at hstep
      obtain rfl := ok_pure_iff.mp hstep
      have hle : mark ≤ A.mark r.state := by
        have hbelow := hr.scopes
        rw [hscopes] at hbelow
        exact hbelow.1
      refine ⟨{ r' with
        state := B.rewind r'.state mark
        live := live.map f
        scopes := scopes.map fun scope => (scope.1, scope.2.map f) }, ?_,
        hAB.rewind hrel.state hle, hrel.results, rfl, rfl⟩
      rw [Allocator.step, hscopes']
      rfl
  | alloc request =>
    obtain ⟨⟨a, state⟩, halloc, hr₁⟩ := ok_bind_iff.mp hstep
    obtain rfl := ok_pure_iff.mp hr₁
    obtain ⟨t', halloc', hR⟩ := hAB.alloc hrel.state (hwanted request rfl) halloc hwithin
    refine ⟨_, ok_bind_iff.mpr ⟨(f a, t'), halloc', rfl⟩, hR, ?_, ?_, hrel.scopes⟩
    · rw [hrel.results, List.map_append, List.map_singleton]
    · rw [hrel.live, List.map_cons]

/-- The bounds hold along a run that ends within them. -/
lemma within_of_runFrom (hAB : Simulates A B R f Within Wanted)
    (hrun : A.runFrom r program = .ok r') (hwithin : Within r'.state) : Within r.state := by
  induction program generalizing r with
  | nil => exact ok_pure_iff.mp hrun ▸ hwithin
  | cons op program ih =>
    obtain ⟨r₁, hstep, hrest⟩ := runFrom_cons_iff.mp hrun
    have hr₁ := ih hrest
    rcases step_cases hstep with rfl | ⟨-, rfl⟩ | ⟨mark, live, scopes, -, rfl⟩ |
      ⟨request, a, state, -, halloc, rfl⟩
    · exact hr₁
    · exact hr₁
    · exact hAB.within_of_rewind hr₁
    · exact hAB.within_of_alloc halloc hr₁

lemma runFrom (hAB : Simulates A B R f Within Wanted) (hA : Lawful A start stop) {r' : Running β τ}
    (hr : Nested A start stop r) (hrel : Related R f r r')
    (hwanted : ∀ q, .alloc q ∈ program → Wanted q) (hrun : A.runFrom r program = .ok r₁)
    (hwithin : Within r₁.state) : ∃ r₁', B.runFrom r' program = .ok r₁' ∧ Related R f r₁ r₁' := by
  induction program generalizing r r' with
  | nil => exact ⟨r', rfl, ok_pure_iff.mp hrun ▸ hrel⟩
  | cons op program ih =>
    obtain ⟨r₂, hstep, hrest⟩ := runFrom_cons_iff.mp hrun
    obtain ⟨r₂', hstep', hrel₂⟩ := hAB.step hr hrel
      (fun q hq => hwanted q (hq ▸ List.mem_cons_self)) hstep (hAB.within_of_runFrom hrest hwithin)
    obtain ⟨r₁', hrest', hrel₁⟩ := ih (hA.step hr hstep) hrel₂
      (fun q hq => hwanted q (List.mem_cons_of_mem _ hq)) hrest
    exact ⟨r₁', runFrom_cons_iff.mpr ⟨r₂', hstep', hrest'⟩, hrel₁⟩

end Simulates

end Allocator

end NInfer
