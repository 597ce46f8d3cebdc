import NInfer.Foundation.Loop

/-!
# Merging adjacent pairs by rank

A list of symbols is rewritten by merging neighbours.  `pair a b` is the rank of the pair and the
symbol that replaces it, if it may be merged.  Each step merges the pair of lowest rank, and of
several occurrences the leftmost one, until no pair is left that can be merged; `merged` is the list
in the end.

`step_of_lowest` is what a program that merges in this order has to show: the pair it takes is
lowest among all that could be merged.  `merged_map` carries the rewriting over to other symbols.
-/

namespace NInfer.PairMerging

variable {σ τ : Type}

/-- A pair that can be merged: its rank, the position of its left symbol, and the symbol that takes
its place. -/
structure Merge (σ : Type) where
  rank : ℕ
  position : ℕ
  result : σ

/-- The lowest-ranked pair, the leftmost one if there are several. -/
def lowest (pair : σ → σ → Option (ℕ × σ)) : List σ → Option (Merge σ)
  | a :: b :: l =>
    let later := (lowest pair (b :: l)).map fun m => { m with position := m.position + 1 }
    match pair a b with
    | none => later
    | some (rank, result) =>
      match later with
      | none => some ⟨rank, 0, result⟩
      | some m => if m.rank < rank then some m else some ⟨rank, 0, result⟩
  | _ => none

/-- The list after a merge. -/
def mergeAt (l : List σ) (m : Merge σ) : List σ :=
  l.take m.position ++ m.result :: l.drop (m.position + 2)

def step (pair : σ → σ → Option (ℕ × σ)) (l : List σ) : Option (List σ) :=
  (lowest pair l).map (mergeAt l)

/-- At most `fuel` steps. -/
def mergedWithin (pair : σ → σ → Option (ℕ × σ)) : ℕ → List σ → List σ
  | 0, l => l
  | fuel + 1, l =>
    match step pair l with
    | none => l
    | some l' => mergedWithin pair fuel l'

/-- The list when nothing can be merged any more; a list of `n` symbols is merged less than `n`
times. -/
def merged (pair : σ → σ → Option (ℕ × σ)) (l : List σ) : List σ := mergedWithin pair l.length l

variable {pair : σ → σ → Option (ℕ × σ)} {l l' as bs : List σ} {a b r : σ} {m : Merge σ} {k : ℕ}

/-! ## The lowest pair -/

/-- A pair of the list that can be merged. -/
def Mergeable (pair : σ → σ → Option (ℕ × σ)) (l : List σ) (m : Merge σ) : Prop :=
  ∃ as a b bs, l = as ++ a :: b :: bs ∧ as.length = m.position ∧ pair a b = some (m.rank, m.result)

/-- `m` goes before `m'`. -/
def Merge.Before (m m' : Merge σ) : Prop :=
  m.rank < m'.rank ∨ m.rank = m'.rank ∧ m.position ≤ m'.position

lemma mergeable_cons_cons :
    Mergeable pair (a :: b :: l) m ↔
      (m.position = 0 ∧ pair a b = some (m.rank, m.result)) ∨
        ∃ m', Mergeable pair (b :: l) m' ∧ m = { m' with position := m'.position + 1 } := by
  constructor
  · rintro ⟨as, c, d, bs, hl, hposition, hpair⟩
    match as with
    | [] =>
      obtain ⟨rfl, rfl, rfl⟩ := hl
      exact .inl ⟨hposition.symm, hpair⟩
    | e :: as =>
      rw [List.cons_append, List.cons.injEq] at hl
      refine .inr ⟨⟨m.rank, as.length, m.result⟩, ⟨as, c, d, bs, hl.2, rfl, hpair⟩, ?_⟩
      rw [List.length_cons] at hposition
      rw [hposition]
  · rintro (⟨hzero, hpair⟩ | ⟨m', ⟨as, c, d, bs, hl, hposition, hpair⟩, rfl⟩)
    · exact ⟨[], a, b, l, rfl, hzero.symm, hpair⟩
    · exact ⟨a :: as, c, d, bs, by rw [hl, List.cons_append], by rw [List.length_cons, hposition],
        hpair⟩

lemma not_mergeable_of_length (h : l.length < 2) : ¬Mergeable pair l m := by
  rintro ⟨as, a, b, bs, rfl, -⟩
  rw [List.length_append, List.length_cons, List.length_cons] at h
  omega

/-- `lowest` finds a pair that goes before all others. -/
lemma lowest_spec (pair : σ → σ → Option (ℕ × σ)) (l : List σ) :
    match lowest pair l with
    | none => ∀ m, ¬Mergeable pair l m
    | some m => Mergeable pair l m ∧ ∀ m', Mergeable pair l m' → m.Before m' := by
  match l with
  | [] | [_] => exact fun m => not_mergeable_of_length (by simp)
  | a :: b :: l =>
    have ih := lowest_spec pair (b :: l)
    rw [lowest]
    rcases hlater : lowest pair (b :: l) with _ | m
    · -- Nothing can be merged later.
      rw [hlater] at ih
      rcases hpair : pair a b with _ | ⟨rank, result⟩
      · intro m hm
        rcases mergeable_cons_cons.mp hm with ⟨-, hm⟩ | ⟨m', hm', -⟩
        · rw [hpair] at hm
          exact absurd hm (by simp)
        · exact ih m' hm'
      · refine ⟨mergeable_cons_cons.mpr (.inl ⟨rfl, hpair⟩), fun m' hm' => ?_⟩
        rcases mergeable_cons_cons.mp hm' with ⟨-, hm⟩ | ⟨m'', hm'', -⟩
        · rw [hpair] at hm
          exact .inr ⟨(Prod.mk.inj (Option.some.inj hm)).1, Nat.zero_le _⟩
        · exact absurd hm'' (ih m'')
    · rw [hlater] at ih
      obtain ⟨hm, hbefore⟩ := ih
      have hshift : Mergeable pair (a :: b :: l) { m with position := m.position + 1 } :=
        mergeable_cons_cons.mpr (.inr ⟨m, hm, rfl⟩)
      have hlaters : ∀ m', Mergeable pair (b :: l) m' →
          ({ m with position := m.position + 1 } : Merge σ).Before
            { m' with position := m'.position + 1 } := by
        intro m' hm'
        rcases hbefore m' hm' with hlt | ⟨heq, hle⟩
        · exact .inl hlt
        · exact .inr ⟨heq, Nat.succ_le_succ hle⟩
      rcases hpair : pair a b with _ | ⟨rank, result⟩
      · refine ⟨hshift, fun m' hm' => ?_⟩
        rcases mergeable_cons_cons.mp hm' with ⟨-, hfirst⟩ | ⟨m'', hm'', rfl⟩
        · rw [hpair] at hfirst
          exact absurd hfirst (by simp)
        · exact hlaters m'' hm''
      · simp only [Option.map_some]
        by_cases hrank : m.rank < rank
        · rw [if_pos hrank]
          refine ⟨hshift, fun m' hm' => ?_⟩
          rcases mergeable_cons_cons.mp hm' with ⟨-, hfirst⟩ | ⟨m'', hm'', rfl⟩
          · rw [hpair] at hfirst
            refine .inl ?_
            rwa [← (Prod.mk.inj (Option.some.inj hfirst)).1]
          · exact hlaters m'' hm''
        · rw [if_neg hrank]
          refine ⟨mergeable_cons_cons.mpr (.inl ⟨rfl, hpair⟩), fun m' hm' => ?_⟩
          rcases mergeable_cons_cons.mp hm' with ⟨-, hfirst⟩ | ⟨m'', hm'', rfl⟩
          · rw [hpair] at hfirst
            exact .inr ⟨(Prod.mk.inj (Option.some.inj hfirst)).1, Nat.zero_le _⟩
          · -- A later pair of the same rank is further to the right.
            rcases hbefore m'' hm'' with hlt | ⟨heq, -⟩
            · exact .inl (Nat.lt_of_le_of_lt (Nat.le_of_not_lt hrank) hlt)
            · rcases Nat.lt_or_eq_of_le (Nat.le_of_not_lt hrank) with hlt | heq'
              · exact .inl (by show rank < m''.rank; omega)
              · exact .inr ⟨by show rank = m''.rank; omega, Nat.zero_le _⟩

lemma mergeable_unique {m' : Merge σ} (hm : Mergeable pair l m) (hm' : Mergeable pair l m')
    (h : m.position = m'.position) : m = m' := by
  obtain ⟨as, a, b, bs, rfl, hposition, hpair⟩ := hm
  obtain ⟨as', a', b', bs', hl, hposition', hpair'⟩ := hm'
  obtain ⟨-, hrest⟩ := List.append_inj hl (by omega)
  obtain ⟨rfl, rfl, -⟩ := hrest
  rw [hpair] at hpair'
  rcases m with ⟨rank, position, result⟩
  rcases m' with ⟨rank', position', result'⟩
  simp_all

/-- A pair that goes before all others is the one that is merged. -/
lemma step_of_lowest (hl : l = as ++ a :: b :: bs) (hpair : pair a b = some (k, r))
    (hbefore : ∀ m, Mergeable pair l m → (⟨k, as.length, r⟩ : Merge σ).Before m) :
    step pair l = some (as ++ r :: bs) := by
  have hmergeable : Mergeable pair l ⟨k, as.length, r⟩ := ⟨as, a, b, bs, hl, rfl, hpair⟩
  have hspec := lowest_spec pair l
  rcases hlowest : lowest pair l with _ | m
  · rw [hlowest] at hspec
    exact absurd hmergeable (hspec _)
  · rw [hlowest] at hspec
    obtain ⟨hm, hfirst⟩ := hspec
    have hposition : m.position = as.length := by
      rcases hfirst _ hmergeable with hlt | ⟨heq, hle⟩
      · rcases hbefore m hm with hlt' | ⟨heq', -⟩
        · exact absurd hlt (Nat.not_lt_of_lt hlt')
        · exact absurd heq' (Nat.ne_of_gt hlt)
      · rcases hbefore m hm with hlt' | ⟨-, hle'⟩
        · exact absurd heq (Nat.ne_of_gt hlt')
        · exact Nat.le_antisymm hle hle'
    obtain rfl := mergeable_unique hm hmergeable hposition
    rw [step, hlowest, Option.map_some, mergeAt, hl]
    simp

lemma step_eq_none (h : ∀ m, ¬Mergeable pair l m) : step pair l = none := by
  have hspec := lowest_spec pair l
  rcases hlowest : lowest pair l with _ | m
  · rw [step, hlowest]
    rfl
  · rw [hlowest] at hspec
    exact absurd hspec.1 (h m)

/-- What a step does. -/
lemma step_eq_some (h : step pair l = some l') :
    ∃ as a b bs k r, l = as ++ a :: b :: bs ∧ pair a b = some (k, r) ∧ l' = as ++ r :: bs := by
  have hspec := lowest_spec pair l
  obtain ⟨m, hlowest, rfl⟩ := Option.map_eq_some_iff.mp h
  rw [hlowest] at hspec
  obtain ⟨⟨as, a, b, bs, rfl, hposition, hpair⟩, -⟩ := hspec
  refine ⟨as, a, b, bs, m.rank, m.result, rfl, hpair, ?_⟩
  rw [mergeAt, ← hposition]
  simp

/-! ## All merges -/

lemma length_of_step (h : step pair l = some l') : l.length = l'.length + 1 := by
  obtain ⟨as, a, b, bs, k, r, rfl, -, rfl⟩ := step_eq_some h
  simp only [List.length_append, List.length_cons]
  omega

lemma mergedWithin_of_le {fuel : ℕ} (h : l.length ≤ fuel) :
    mergedWithin pair fuel l = merged pair l := by
  refine fuel_eq (fun l hl => ?_) (fun fuel ih l hl => ?_) h
  · obtain rfl := List.length_eq_zero_iff.mp hl
    rfl
  · rw [mergedWithin, mergedWithin]
    rcases hstep : step pair l with _ | l'
    · rfl
    · have := length_of_step hstep
      exact ih l' (by omega)

lemma merged_of_step (h : step pair l = some l') : merged pair l = merged pair l' := by
  have hlength := length_of_step h
  rw [merged, hlength, mergedWithin, h]
  exact mergedWithin_of_le (Nat.le_refl _)

lemma merged_of_none (h : step pair l = none) : merged pair l = l := by
  rw [merged]
  match l.length with
  | 0 => rfl
  | n + 1 => rw [mergedWithin, h]

/-- What each merge keeps holds in the end. -/
lemma merged_induction {P : List σ → Prop} (hstep : ∀ l l', step pair l = some l' → P l → P l')
    (hl : P l) : P (merged pair l) := by
  have key : ∀ fuel l, P l → P (mergedWithin pair fuel l) := by
    intro fuel
    induction fuel with
    | zero => exact fun l hl => hl
    | succ fuel ih =>
      intro l hl
      rw [mergedWithin]
      rcases h : step pair l with _ | l'
      · exact hl
      · exact ih l' (hstep l l' h hl)
  exact key _ l hl

/-! ## Other symbols -/

lemma lowest_map {pair' : τ → τ → Option (ℕ × τ)} {f : σ → τ} {l : List σ}
    (hpair : ∀ a ∈ l, ∀ b ∈ l, pair' (f a) (f b) = (pair a b).map fun m => (m.1, f m.2)) :
    lowest pair' (l.map f) =
      (lowest pair l).map fun m => ⟨m.rank, m.position, f m.result⟩ := by
  match l with
  | [] => rfl
  | [a] => rfl
  | a :: b :: l =>
    have ih := lowest_map (l := b :: l) fun c hc d hd =>
      hpair c (List.mem_cons_of_mem _ hc) d (List.mem_cons_of_mem _ hd)
    rw [List.map_cons] at ih
    rw [List.map_cons, List.map_cons, lowest, lowest, ih,
      hpair a List.mem_cons_self b (List.mem_cons_of_mem _ List.mem_cons_self)]
    rcases pair a b with _ | ⟨rank, result⟩
    · simp [Function.comp_def]
    · rcases lowest pair (b :: l) with _ | m
      · rfl
      · simp only [Option.map_some]
        split_ifs <;> rfl

/-- Symbols that are renamed merge the same way, if pairs of them do. -/
lemma merged_map {pair' : τ → τ → Option (ℕ × τ)} {f : σ → τ} {S : σ → Prop}
    (hpair : ∀ a b, S a → S b → pair' (f a) (f b) = (pair a b).map fun m => (m.1, f m.2))
    (hclosed : ∀ a b k r, S a → S b → pair a b = some (k, r) → S r)
    (hl : ∀ a ∈ l, S a) : merged pair' (l.map f) = (merged pair l).map f := by
  have hstep : ∀ l : List σ, (∀ a ∈ l, S a) →
      step pair' (l.map f) = (step pair l).map (List.map f) := by
    intro l hl
    rw [step, lowest_map fun a ha b hb => hpair a b (hl a ha) (hl b hb), step, Option.map_map,
      Option.map_map]
    refine Option.map_congr fun m _ => ?_
    simp [mergeAt, List.map_take, List.map_drop]
  have key : ∀ fuel (l : List σ), (∀ a ∈ l, S a) →
      mergedWithin pair' fuel (l.map f) = (mergedWithin pair fuel l).map f := by
    intro fuel
    induction fuel with
    | zero => exact fun l _ => rfl
    | succ fuel ih =>
      intro l hl
      rw [mergedWithin, mergedWithin, hstep l hl]
      rcases h : step pair l with _ | l'
      · rfl
      · refine ih l' ?_
        obtain ⟨as, a, b, bs, k, r, rfl, hmerge, rfl⟩ := step_eq_some h
        simp only [List.mem_append, List.mem_cons] at hl ⊢
        rintro c (hc | rfl | hc)
        · exact hl c (.inl hc)
        · exact hclosed a b k c (hl a (.inr (.inl rfl))) (hl b (.inr (.inr (.inl rfl)))) hmerge
        · exact hl c (.inr (.inr (.inr hc)))
  rw [merged, List.length_map, key _ l hl, merged]

end NInfer.PairMerging
