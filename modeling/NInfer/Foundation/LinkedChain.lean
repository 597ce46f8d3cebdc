import Mathlib

/-!
# Chains in an array of links

Nodes that are linked by their indices: `next` names the successor of a node and `prev` its
predecessor.  `Linked next is` and `BackLinked prev none is` say that the nodes of the list `is`, in
this order, are a chain.  Taking a node out of the chain redirects its two neighbours and leaves the
node itself as it is (`Linked.unlink`, `BackLinked.unlink`).
-/

namespace NInfer

variable {next prev : ℕ → Option ℕ} {as bs is : List ℕ} {i l r : ℕ} {p : Option ℕ}

/-- Each node of the list names the one after it; the last names none. -/
def Linked (next : ℕ → Option ℕ) : List ℕ → Prop
  | [] => True
  | i :: is => next i = is.head? ∧ Linked next is

/-- Each node of the list names the one before it; the first names `p`. -/
def BackLinked (prev : ℕ → Option ℕ) : Option ℕ → List ℕ → Prop
  | _, [] => True
  | p, i :: is => prev i = p ∧ BackLinked prev (some i) is

/-- The nodes that are met along the links, at most `fuel` of them. -/
def walk (next : ℕ → Option ℕ) : ℕ → ℕ → List ℕ
  | 0, _ => []
  | fuel + 1, i =>
    i :: match next i with
      | none => []
      | some j => walk next fuel j

lemma walk_of_linked {fuel : ℕ} (h : Linked next (i :: is)) (hfuel : is.length < fuel) :
    walk next fuel i = i :: is := by
  induction is generalizing i fuel with
  | nil =>
    obtain ⟨fuel, rfl⟩ := Nat.exists_eq_add_of_lt hfuel
    rw [walk, h.1]
    rfl
  | cons j is ih =>
    obtain ⟨fuel, rfl⟩ : ∃ n, fuel = n + 1 := ⟨fuel - 1, by omega⟩
    rw [walk, h.1]
    show i :: walk next fuel j = _
    rw [ih h.2 (Nat.lt_of_succ_lt_succ hfuel)]


/-- The link of a node in the chain. -/
lemma Linked.next_eq (h : Linked next (as ++ i :: bs)) : next i = bs.head? := by
  induction as with
  | nil => exact h.1
  | cons a as ih => exact ih h.2

lemma Linked.congr {next' : ℕ → Option ℕ} (h : Linked next is)
    (hsame : ∀ i ∈ is, next' i = next i) : Linked next' is := by
  induction is with
  | nil => trivial
  | cons i is ih =>
    obtain ⟨hi, his⟩ := List.forall_mem_cons.mp hsame
    exact ⟨hi.trans h.1, ih h.2 his⟩

/-- Taking out the node behind `l`. -/
lemma Linked.unlink (h : Linked next (as ++ l :: r :: bs)) (hnodup : (as ++ l :: r :: bs).Nodup) :
    Linked (Function.update next l (next r)) (as ++ l :: bs) := by
  induction as with
  | nil =>
    obtain ⟨hl, -⟩ := List.nodup_cons.mp hnodup
    refine ⟨?_, h.2.2.congr fun i hi => ?_⟩
    · rw [Function.update_self]
      exact h.2.1
    · refine Function.update_of_ne ?_ _ _
      rintro rfl
      exact hl (List.mem_cons_of_mem _ hi)
  | cons a as ih =>
    obtain ⟨ha, hrest⟩ := List.nodup_cons.mp hnodup
    refine ⟨?_, ih h.2 hrest⟩
    have hne : a ≠ l := by
      rintro rfl
      exact ha (by simp)
    rw [Function.update_of_ne hne, h.1]
    cases as <;> rfl

lemma BackLinked.congr {prev' : ℕ → Option ℕ} (h : BackLinked prev p is)
    (hsame : ∀ i ∈ is, prev' i = prev i) : BackLinked prev' p is := by
  induction is generalizing p with
  | nil => trivial
  | cons i is ih =>
    obtain ⟨hi, his⟩ := List.forall_mem_cons.mp hsame
    exact ⟨hi.trans h.1, ih h.2 his⟩

/-- The back link of a node in the chain. -/
lemma BackLinked.prev_eq (h : BackLinked prev p (as ++ i :: bs)) : prev i = as.getLast?.or p := by
  induction as generalizing p with
  | nil => exact h.1
  | cons a as ih =>
    rw [ih h.2, List.getLast?_cons]
    cases as.getLast? <;> rfl

/-- Taking out the node behind `l`: the node after it, if any, gets a new predecessor. -/
lemma BackLinked.unlink {prev' : ℕ → Option ℕ} (h : BackLinked prev p (as ++ l :: r :: bs))
    (hhead : ∀ b, bs.head? = some b → prev' b = some l)
    (hsame : ∀ i, bs.head? ≠ some i → prev' i = prev i)
    (hnodup : (as ++ l :: r :: bs).Nodup) : BackLinked prev' p (as ++ l :: bs) := by
  induction as generalizing p with
  | nil =>
    obtain ⟨hl, hrest⟩ := List.nodup_cons.mp hnodup
    obtain ⟨-, hbs⟩ := List.nodup_cons.mp hrest
    refine ⟨?_, ?_⟩
    · rw [hsame l fun hhead => hl (List.mem_cons_of_mem _ (List.mem_of_head? hhead))]
      exact h.1
    · match bs with
      | [] => trivial
      | b :: bs =>
        refine ⟨hhead b rfl, h.2.2.2.congr fun i hi => hsame i fun heq => ?_⟩
        obtain rfl := Option.some.inj heq
        exact (List.nodup_cons.mp hbs).1 hi
  | cons a as ih =>
    obtain ⟨ha, hrest⟩ := List.nodup_cons.mp hnodup
    refine ⟨?_, ih h.2 hrest⟩
    rw [hsame a fun hhead => ha ?_]
    · exact h.1
    · have := List.mem_of_head? hhead
      simp [this]

end NInfer
