import NInfer.Foundation.Chunks

/-!
# Backtracking patterns

Regular expressions as a backtracking engine runs them: alternatives are tried in their order, a
repetition first tries to go on, and a later failure comes back to the last choice.  `lengths a l`
lists the lengths of all matches of `a` at the front of `l`, the one that the engine prefers first,
so that `firstMatch` is the match it reports.  `findAll` is the search over a whole input: each
match is looked for from the end of the one before, at the leftmost place that has one.

The rules below say what the first match of a composed pattern is.  Under a repetition of a class of
letters the engine offers every length from the whole run down to zero
(`lengths_star_one`).  A pattern that matches at the front of every input cuts the input up
(`findAll_eq_chunks`).
-/

namespace NInfer

variable {α : Type}

/-- The number of letters at the front that have a property. -/
def runLength (p : α → Bool) (l : List α) : ℕ := (l.takeWhile p).length

@[simp] lemma runLength_nil (p : α → Bool) : runLength p [] = 0 := rfl

lemma runLength_cons_of_pos {p : α → Bool} {c : α} (h : p c = true) (l : List α) :
    runLength p (c :: l) = runLength p l + 1 := by
  simp [runLength, h]

lemma runLength_cons_of_neg {p : α → Bool} {c : α} (h : p c = false) (l : List α) :
    runLength p (c :: l) = 0 := by
  simp [runLength, h]

lemma runLength_le_length (p : α → Bool) (l : List α) : runLength p l ≤ l.length :=
  (List.takeWhile_sublist p).length_le

/-- The letters of the run have the property. -/
lemma of_lt_runLength {p : α → Bool} {l : List α} {i : ℕ} {c : α} (hi : i < runLength p l)
    (hc : l[i]? = some c) : p c = true := by
  induction l generalizing i with
  | nil => simp at hc
  | cons d l ih =>
    by_cases hd : p d = true
    · match i with
      | 0 => simpa [← Option.some.inj hc] using hd
      | i + 1 =>
        rw [runLength_cons_of_pos hd] at hi
        exact ih (Nat.lt_of_succ_lt_succ hi) (by simpa using hc)
    · rw [runLength_cons_of_neg (by simpa using hd)] at hi
      exact absurd hi (Nat.not_lt_zero _)

/-- The letter behind the run does not have it. -/
lemma getElem?_runLength {p : α → Bool} {l : List α} {c : α} (hc : l[runLength p l]? = some c) :
    p c = false := by
  induction l with
  | nil => simp at hc
  | cons d l ih =>
    by_cases hd : p d = true
    · rw [runLength_cons_of_pos hd, List.getElem?_cons_succ] at hc
      exact ih hc
    · have hd' : p d = false := by simpa using hd
      rw [runLength_cons_of_neg hd', List.getElem?_cons_zero] at hc
      rwa [← Option.some.inj hc]

lemma runLength_eq_zero_iff {p : α → Bool} {l : List α} :
    runLength p l = 0 ↔ l.head?.any p = false := by
  match l with
  | [] => simp
  | c :: l =>
    by_cases hc : p c = true
    · simp [runLength_cons_of_pos hc, hc]
    · simp [runLength_cons_of_neg (show p c = false by simpa using hc), hc]

/-! ## Patterns -/

inductive Pattern (α : Type) where
  /-- Matches without reading. -/
  | eps
  /-- One letter of a class. -/
  | one (p : α → Bool)
  | seq (a b : Pattern α)
  /-- The first alternative is preferred. -/
  | alt (a b : Pattern α)
  /-- Greedy repetition. -/
  | star (a : Pattern α)
  /-- Negative look-ahead. -/
  | notAhead (a : Pattern α)

namespace Pattern

/-- Greedy option. -/
def opt (a : Pattern α) : Pattern α := .alt a .eps

/-- Greedy repetition, at least once. -/
def plus (a : Pattern α) : Pattern α := .seq a (.star a)

/-- One letter of each class, in order. -/
def literal : List (α → Bool) → Pattern α
  | [] => .eps
  | p :: ps => .seq (.one p) (literal ps)

/-- Several alternatives in the order of preference. -/
def alternatives : List (Pattern α) → Pattern α
  | [] => .one fun _ => false
  | a :: as => .alt a (alternatives as)

/-- A greedy repetition of a matcher, at most `fuel` times and never without progress. -/
def repeated (lengths : List α → List ℕ) : ℕ → List α → List ℕ
  | 0, _ => [0]
  | fuel + 1, l =>
    ((lengths l).filter (0 < ·)).flatMap
      (fun n => (repeated lengths fuel (l.drop n)).map (n + ·)) ++ [0]

/-- The lengths of the matches at the front of the input, in the order of preference. -/
def lengths : Pattern α → List α → List ℕ
  | .eps, _ => [0]
  | .one p, l => if (l.head?.any p) = true then [1] else []
  | .seq a b, l => (a.lengths l).flatMap fun n => (b.lengths (l.drop n)).map (n + ·)
  | .alt a b, l => a.lengths l ++ b.lengths l
  | .star a, l => repeated a.lengths l.length l
  | .notAhead a, l => if (a.lengths l).isEmpty then [0] else []

/-- The match that the engine reports. -/
def firstMatch (a : Pattern α) (l : List α) : Option ℕ := (a.lengths l).head?

/-- The loop of `findAll` with `fuel` places left; an empty match moves on by one letter. -/
def findAllWithin (a : Pattern α) : ℕ → List α → List (List α)
  | 0, _ => []
  | fuel + 1, l =>
    match a.firstMatch l with
    | some (n + 1) => l.take (n + 1) :: findAllWithin a fuel (l.drop (n + 1))
    | some 0 => [] :: if l.isEmpty then [] else findAllWithin a fuel l.tail
    | none => if l.isEmpty then [] else findAllWithin a fuel l.tail

/-- The successive matches in an input, each leftmost behind the one before. -/
def findAll (a : Pattern α) (l : List α) : List (List α) := a.findAllWithin (l.length + 1) l

variable {a b : Pattern α} {l : List α} {p : α → Bool}

/-! ## The first match of a composed pattern -/

@[simp] lemma firstMatch_eps : (eps : Pattern α).firstMatch l = some 0 := rfl

@[simp] lemma firstMatch_one_nil : (one p).firstMatch [] = none := rfl

@[simp] lemma firstMatch_one_cons (c : α) :
    (one p).firstMatch (c :: l) = if p c then some 1 else none := by
  by_cases hc : p c = true <;> simp [firstMatch, lengths, hc]

lemma firstMatch_alt : (alt a b).firstMatch l = (a.firstMatch l).or (b.firstMatch l) :=
  List.head?_append

/-- The engine goes through the matches of the first part until the second one matches. -/
lemma firstMatch_seq :
    (seq a b).firstMatch l =
      (a.lengths l).findSome? fun n => (b.firstMatch (l.drop n)).map (n + ·) := by
  rw [firstMatch, lengths, List.head?_flatMap]
  simp only [List.head?_map, firstMatch]

lemma firstMatch_notAhead :
    (notAhead a).firstMatch l = if a.firstMatch l = none then some 0 else none := by
  rw [firstMatch, lengths, firstMatch]
  by_cases h : a.lengths l = []
  · rw [h]
    rfl
  · rw [if_neg (by simpa using h), if_neg (by simpa using h)]
    rfl

/-- A second part that always matches leaves the first part its first choice. -/
lemma firstMatch_seq_of_isSome {f : List α → ℕ} (hb : ∀ l, b.firstMatch l = some (f l)) :
    (seq a b).firstMatch l = (a.firstMatch l).map fun n => n + f (l.drop n) := by
  rw [firstMatch_seq, firstMatch]
  cases a.lengths l with
  | nil => rfl
  | cons n ns => simp [hb]

lemma firstMatch_seq_one_cons (c : α) :
    (seq (one p) b).firstMatch (c :: l) =
      if p c then (b.firstMatch l).map (1 + ·) else none := by
  rw [firstMatch_seq, lengths]
  by_cases hc : p c = true
  · rw [if_pos (by simpa using hc), if_pos hc]
    cases h : b.firstMatch l <;> simp [h]
  · rw [if_neg (by simpa using hc), if_neg hc, List.findSome?_nil]

/-- An optional letter is taken first, and given back if the rest does not match behind it. -/
lemma firstMatch_seq_opt_one_cons (c : α) :
    (seq (opt (one p)) b).firstMatch (c :: l) =
      if p c then ((b.firstMatch l).map (1 + ·)).or (b.firstMatch (c :: l))
      else b.firstMatch (c :: l) := by
  rw [firstMatch_seq, opt]
  by_cases hc : p c = true
  · cases h : b.firstMatch l <;> simp [lengths, hc, h]
  · simp [lengths, hc]

lemma firstMatch_alternatives (as : List (Pattern α)) :
    (alternatives as).firstMatch l = as.findSome? (·.firstMatch l) := by
  induction as with
  | nil => cases l <;> rfl
  | cons a as ih =>
    rw [alternatives, firstMatch_alt, ih, List.findSome?_cons]
    cases a.firstMatch l <;> rfl

/-- The input starts with letters of the classes. -/
def startsWith : List (α → Bool) → List α → Bool
  | [], _ => true
  | _ :: _, [] => false
  | p :: ps, c :: l => p c && startsWith ps l

lemma firstMatch_literal (ps : List (α → Bool)) (l : List α) :
    (literal ps).firstMatch l = if startsWith ps l then some ps.length else none := by
  induction ps generalizing l with
  | nil => rfl
  | cons p ps ih =>
    match l with
    | [] => rfl
    | c :: l =>
      rw [literal, firstMatch_seq_one_cons, ih, startsWith]
      by_cases hc : p c = true
      · cases startsWith ps l <;> simp [hc, Nat.add_comm]
      · simp [hc]

/-! ## Repetitions of a class -/

/-- From `n` down to zero. -/
def countdown (n : ℕ) : List ℕ := (List.range (n + 1)).reverse

lemma countdown_succ (n : ℕ) : countdown (n + 1) = (n + 1) :: countdown n := by
  rw [countdown, List.range_succ, List.reverse_append]
  rfl

lemma countdown_eq_map (n : ℕ) : countdown (n + 1) = (countdown n).map (1 + ·) ++ [0] := by
  rw [countdown, List.range_succ_eq_map, List.reverse_cons, countdown, List.map_reverse]
  simp only [Nat.add_comm 1]

lemma repeated_one {fuel : ℕ} (hfuel : l.length ≤ fuel) :
    repeated (one p).lengths fuel l = countdown (runLength p l) := by
  induction fuel generalizing l with
  | zero =>
    obtain rfl := List.length_eq_zero_iff.mp (Nat.le_zero.mp hfuel)
    rfl
  | succ fuel ih =>
    match l with
    | [] => rfl
    | c :: l =>
      by_cases hc : p c = true
      · have hone : (one p).lengths (c :: l) = [1] := by simp [lengths, hc]
        rw [repeated, hone, runLength_cons_of_pos hc, countdown_eq_map,
          ← ih (Nat.le_of_succ_le_succ hfuel)]
        simp
      · have hone : (one p).lengths (c :: l) = [] := by simp [lengths, hc]
        rw [repeated, hone, runLength_cons_of_neg (by simpa using hc)]
        rfl

/-- A repeated class offers its whole run first, and then every shorter one. -/
lemma lengths_star_one : (star (one p)).lengths l = countdown (runLength p l) := by
  exact repeated_one (Nat.le_refl _)

lemma firstMatch_star_one : (star (one p)).firstMatch l = some (runLength p l) := by
  rw [firstMatch, lengths_star_one]
  cases runLength p l with
  | zero => rfl
  | succ n => rw [countdown_succ]; rfl

lemma lengths_plus_one_cons {c : α} (hc : p c = true) :
    (plus (one p)).lengths (c :: l) = (countdown (runLength p l)).map (1 + ·) := by
  have hone : (one p).lengths (c :: l) = [1] := by simp [lengths, hc]
  rw [plus, lengths, hone, List.flatMap_singleton, List.drop_succ_cons, List.drop_zero,
    lengths_star_one]

lemma firstMatch_plus_one :
    (plus (one p)).firstMatch l = if runLength p l = 0 then none else some (runLength p l) := by
  match l with
  | [] => rfl
  | c :: l =>
    rw [plus, firstMatch_seq_one_cons, firstMatch_star_one]
    by_cases hc : p c = true
    · rw [runLength_cons_of_pos hc, if_pos hc, if_neg (Nat.succ_ne_zero _), Option.map_some,
        Nat.add_comm]
    · rw [runLength_cons_of_neg (by simpa using hc), if_neg hc, if_pos rfl]

/-- A search down from `n` finds the largest index that has a result. -/
lemma findSome?_countdown {β : Type} {f : ℕ → Option β} {n k : ℕ} {r : β} (hk : k ≤ n)
    (hr : f k = some r) (hlast : ∀ i, k < i → i ≤ n → f i = none) :
    (countdown n).findSome? f = some r := by
  induction n with
  | zero =>
    obtain rfl := Nat.le_zero.mp hk
    simp [countdown, hr]
  | succ n ih =>
    rw [countdown_succ, List.findSome?_cons]
    rcases Nat.lt_or_eq_of_le hk with hlt | rfl
    · rw [hlast (n + 1) hlt (Nat.le_refl _)]
      exact ih (Nat.le_of_lt_succ hlt) fun i hi hin => hlast i hi (Nat.le_succ_of_le hin)
    · rw [hr]

lemma findSome?_countdown_eq_none {β : Type} {f : ℕ → Option β} {n : ℕ}
    (h : ∀ i, i ≤ n → f i = none) : (countdown n).findSome? f = none := by
  refine List.findSome?_eq_none_iff.mpr fun i hi => h i ?_
  have := List.mem_range.mp (List.mem_reverse.mp hi)
  omega

/-! ## Searching -/

/-- Where a pattern matches at the front of everything that is left, the search finds the pieces
that its lengths cut. -/
lemma findAll_eq_chunks {len : List α → ℕ} (hlen : ∀ l, l ≠ [] → 0 < len l)
    (hnil : a.firstMatch [] = none)
    (hmatch : ∀ t, t <:+ l → t ≠ [] → a.firstMatch t = some (len t)) :
    a.findAll l = chunks len l := by
  have key : ∀ fuel t, t <:+ l → t.length < fuel → a.findAllWithin fuel t = chunks len t := by
    intro fuel
    induction fuel with
    | zero => exact fun t _ ht => absurd ht (Nat.not_lt_zero _)
    | succ fuel ih =>
      intro t ht hlength
      by_cases hne : t = []
      · subst hne
        simp [findAllWithin, hnil]
      · obtain ⟨n, hn⟩ : ∃ n, len t = n + 1 := ⟨len t - 1, by have := hlen t hne; omega⟩
        have hdrop := length_drop_lt hlen hne
        rw [findAllWithin, hmatch t ht hne, hn, chunks_of_ne_nil hlen hne, hn]
        rw [hn] at hdrop
        show _ :: findAllWithin a fuel _ = _
        rw [ih _ ((List.drop_suffix _ _).trans ht) (by omega)]
  exact key _ l List.suffix_rfl (Nat.lt_succ_self _)

end Pattern

end NInfer
