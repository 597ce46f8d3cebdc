import Mathlib

/-!
# Hash tables with open addressing

A table is an array of slots.  A key is looked for from the slot that its hash names, and each slot
that holds another key sends the search on, to `advance index`, until the key or an empty slot is
met.  Nothing is ever removed.

`Holds` says what a table contains: every slot on the way to a stored key is taken, so the search
for it cannot stop early.  An insertion that succeeds keeps this (`Holds.insert`), and then the
search finds exactly what was inserted (`Holds.find_eq_some_iff`).
-/

namespace NInfer.OpenAddressing

variable {κ β : Type}

/-- An empty slot, or a key with its value. -/
abbrev Slots (κ β : Type) := List (Option (κ × β))

/-- What the slot at an index holds. -/
def Slots.at (slots : Slots κ β) (index : ℕ) : Option (κ × β) := slots.getD index none

inductive InsertError where
  | duplicate
  | full
  deriving DecidableEq, Repr

section

variable [DecidableEq κ] (advance : ℕ → ℕ) (slots : Slots κ β) (key : κ)

/-- Look for a key in at most `fuel` slots. -/
def find : (fuel index : ℕ) → Option β
  | 0, _ => none
  | fuel + 1, index =>
    match slots.at index with
    | none => none
    | some (k, v) => if k = key then some v else find fuel (advance index)

/-- Put a key into the first empty slot, unless it is met before. -/
def insert (value : β) : (fuel index : ℕ) → Except InsertError (Slots κ β)
  | 0, _ => .error .full
  | fuel + 1, index =>
    match slots.at index with
    | none => .ok (slots.set index (some (key, value)))
    | some (k, _) => if k = key then .error .duplicate else insert value fuel (advance index)

end

/-- The table contains the entries, and each can be reached from where its key starts. -/
structure Holds (advance : ℕ → ℕ) (start : κ → ℕ) (slots : Slots κ β) (entries : List (κ × β)) :
    Prop where
  nodup : (entries.map Prod.fst).Nodup
  stored : ∀ k v, (k, v) ∈ entries → ∃ d < slots.length,
    slots.at (advance^[d] (start k)) = some (k, v) ∧
      ∀ e < d, (slots.at (advance^[e] (start k))).isSome
  entry : ∀ index k v, slots.at index = some (k, v) → (k, v) ∈ entries

variable {advance : ℕ → ℕ} {start : κ → ℕ} {slots slots' : Slots κ β} {entries : List (κ × β)}
  {key k : κ} {value v : β}

lemma at_set {index : ℕ} (hindex : index < slots.length) (s : Option (κ × β)) (j : ℕ) :
    Slots.at (slots.set index s) j = if j = index then s else slots.at j := by
  unfold Slots.at
  rw [List.getD_eq_getElem?_getD, List.getD_eq_getElem?_getD, List.getElem?_set]
  by_cases hj : j = index
  · rw [if_pos hj.symm, if_pos hj, if_pos hindex]
    rfl
  · rw [if_neg (Ne.symm hj), if_neg hj]

/-- A key has one value. -/
lemma Holds.value_unique (h : Holds advance start slots entries) {v' : β}
    (hv : (k, v) ∈ entries) (hv' : (k, v') ∈ entries) : v = v' := by
  have heq := List.inj_on_of_nodup_map h.nodup hv hv' rfl
  exact (Prod.mk.inj heq).2

section

variable [DecidableEq κ]

lemma at_of_find {fuel index : ℕ} (h : find advance slots key fuel index = some v) :
    ∃ i, slots.at i = some (key, v) := by
  induction fuel generalizing index with
  | zero => exact absurd h (by simp [find])
  | succ fuel ih =>
    rw [find] at h
    rcases hslot : slots.at index with _ | ⟨k, w⟩
    · rw [hslot] at h
      exact absurd h (by simp)
    · rw [hslot] at h
      dsimp only at h
      split_ifs at h with hk
      · obtain rfl := Option.some.inj h
        exact ⟨index, by rw [hslot, hk]⟩
      · exact ih h

/-- The search meets the key if the slots before it are taken. -/
lemma find_of_taken {d fuel index : ℕ} (hfuel : d < fuel)
    (hkey : slots.at (advance^[d] index) = some (key, v))
    (htaken : ∀ e < d, (slots.at (advance^[e] index)).isSome)
    (hvalue : ∀ i w, slots.at i = some (key, w) → w = v) :
    find advance slots key fuel index = some v := by
  induction d generalizing fuel index with
  | zero =>
    obtain ⟨fuel, rfl⟩ := Nat.exists_eq_add_of_lt hfuel
    have hslot : slots.at index = some (key, v) := hkey
    rw [Nat.zero_add, find, hslot]
    exact if_pos rfl
  | succ d ih =>
    obtain ⟨fuel, rfl⟩ : ∃ n, fuel = n + 1 := ⟨fuel - 1, by omega⟩
    obtain ⟨⟨k, w⟩, hslot⟩ := Option.isSome_iff_exists.mp (htaken 0 (Nat.succ_pos d))
    have hslot' : slots.at index = some (k, w) := hslot
    rw [find, hslot']
    dsimp only
    by_cases hk : k = key
    · rw [if_pos hk, hvalue index w (by rw [hslot', hk])]
    · rw [if_neg hk]
      refine ih (Nat.lt_of_succ_lt_succ hfuel) hkey fun e he => ?_
      exact htaken (e + 1) (Nat.succ_lt_succ he)

/-- The search finds what was inserted, and nothing else. -/
lemma Holds.find_eq_some_iff (h : Holds advance start slots entries) :
    find advance slots key slots.length (start key) = some v ↔ (key, v) ∈ entries := by
  constructor
  · intro hfind
    obtain ⟨i, hi⟩ := at_of_find hfind
    exact h.entry i key v hi
  · intro hmem
    obtain ⟨d, hd, hslot, htaken⟩ := h.stored key v hmem
    exact find_of_taken hd hslot htaken fun i w hi => h.value_unique (h.entry i key w hi) hmem

/-- An insertion takes the first empty slot on the way of its key. -/
lemma insert_ok {fuel index : ℕ} (h : insert advance slots key value fuel index = .ok slots') :
    ∃ d < fuel, slots.at (advance^[d] index) = none ∧
      (∀ e < d, ∃ k v, slots.at (advance^[e] index) = some (k, v) ∧ k ≠ key) ∧
      slots' = slots.set (advance^[d] index) (some (key, value)) := by
  induction fuel generalizing index with
  | zero => exact absurd h (by simp [insert])
  | succ fuel ih =>
    rw [insert] at h
    rcases hslot : slots.at index with _ | ⟨k, w⟩
    · rw [hslot] at h
      exact ⟨0, Nat.succ_pos _, hslot, fun e he => absurd he (Nat.not_lt_zero _),
        (Except.ok.inj h).symm⟩
    · rw [hslot] at h
      dsimp only at h
      split_ifs at h with hk
      obtain ⟨d, hd, hempty, hother, heq⟩ := ih h
      refine ⟨d + 1, Nat.succ_lt_succ hd, hempty, fun e he => ?_, heq⟩
      match e with
      | 0 => exact ⟨k, w, hslot, hk⟩
      | e + 1 => exact hother e (Nat.lt_of_succ_lt_succ he)

/-- The key of a successful insertion is new, and the table then contains it too. -/
lemma Holds.insert (h : Holds advance start slots entries)
    (hstart : ∀ k, start k < slots.length) (hadvance : ∀ i, advance i < slots.length)
    (hinsert :
      OpenAddressing.insert advance slots key value slots.length (start key) = .ok slots') :
    key ∉ entries.map Prod.fst ∧ slots'.length = slots.length ∧
      Holds advance start slots' ((key, value) :: entries) := by
  obtain ⟨d, hd, hempty, hother, rfl⟩ := insert_ok hinsert
  set place := advance^[d] (start key) with hplace
  have hlt : place < slots.length := by
    rw [hplace]
    match d with
    | 0 => exact hstart key
    | d + 1 =>
      rw [Function.iterate_succ_apply']
      exact hadvance _
  have hnew : key ∉ entries.map Prod.fst := by
    intro hmem
    obtain ⟨⟨k, v⟩, hentry, rfl⟩ := List.mem_map.mp hmem
    obtain ⟨d', -, hslot, htaken⟩ := h.stored k v hentry
    rcases Nat.lt_trichotomy d' d with hlt' | rfl | hgt
    · obtain ⟨k', v', hslot', hne⟩ := hother d' hlt'
      rw [hslot] at hslot'
      exact hne (Prod.mk.inj (Option.some.inj hslot')).1.symm
    · rw [hempty] at hslot
      exact absurd hslot (by simp)
    · have := htaken d hgt
      rw [hempty] at this
      exact absurd this (by simp)
  -- A slot that was taken stays as it is, and so does every search through taken slots.
  have hkeep : ∀ i s, slots.at i = some s →
      Slots.at (slots.set place (some (key, value))) i = some s := by
    intro i s hs
    rw [at_set hlt, if_neg, hs]
    rintro rfl
    rw [hempty] at hs
    exact absurd hs (by simp)
  have hkeep' : ∀ i, (slots.at i).isSome →
      (Slots.at (slots.set place (some (key, value))) i).isSome := by
    intro i hi
    obtain ⟨s, hs⟩ := Option.isSome_iff_exists.mp hi
    rw [hkeep i s hs]
    rfl
  refine ⟨hnew, List.length_set, ⟨?_, ?_, ?_⟩⟩
  · exact List.nodup_cons.mpr ⟨hnew, h.nodup⟩
  · intro k v hmem
    rw [List.length_set]
    rcases List.mem_cons.mp hmem with heq | hmem
    · obtain ⟨rfl, rfl⟩ := Prod.mk.inj heq
      refine ⟨d, hd, by rw [at_set hlt, if_pos rfl], fun e he => ?_⟩
      obtain ⟨k', v', hslot', -⟩ := hother e he
      rw [hkeep _ _ hslot']
      rfl
    · obtain ⟨d', hd', hslot, htaken⟩ := h.stored k v hmem
      exact ⟨d', hd', hkeep _ _ hslot, fun e he => hkeep' _ (htaken e he)⟩
  · intro i k v hi
    rw [at_set hlt] at hi
    split_ifs at hi with hplace'
    · rw [← Option.some.inj hi]
      exact List.mem_cons_self
    · exact List.mem_cons_of_mem _ (h.entry i k v hi)

end

lemma at_replicate (n index : ℕ) :
    Slots.at (List.replicate n (none : Option (κ × β))) index = none := by
  unfold Slots.at
  rw [List.getD_eq_getElem?_getD, List.getElem?_replicate]
  split_ifs <;> rfl

lemma holds_empty (n : ℕ) :
    Holds advance start (List.replicate n (none : Option (κ × β))) [] := by
  refine ⟨List.nodup_nil, fun k v hmem => absurd hmem (by simp), fun i k v hi => ?_⟩
  rw [at_replicate] at hi
  exact absurd hi (by simp)

end NInfer.OpenAddressing
