import Mathlib

/-!
# Streams of items

A stream sends items one after another: it opens an item at the next index, sends its text in
pieces, and closes it with the finished item.  `Mirrors` says that what was sent agrees with a list
of finished items: every item that was opened is closed exactly once, it is the element of the list
at its index, and its pieces spell its text.

A sender that finishes an item before it opens the next one sends a list of `Block`s, and
`mirrors_iff` reads agreement off the blocks.
-/

namespace NInfer

variable {ι α β : Type}

/-- What an event says about the items of a stream. -/
inductive Mark (ι α β : Type) where
  | opens (index : ℕ) (id : ι)
  | piece (index : ℕ) (text : List β)
  | closes (index : ℕ) (item : α)

/-- The text sent for the item at an index. -/
def textAt (index : ℕ) (marks : List (Mark ι α β)) : List β :=
  marks.flatMap fun
    | .piece k text => if k = index then text else []
    | _ => []

/-- How often the item that was opened at an index under an id is closed. -/
def closings [DecidableEq ι] (idOf : α → ι) (index : ℕ) (id : ι) (marks : List (Mark ι α β)) : ℕ :=
  marks.countP fun
    | .closes k item => k = index ∧ idOf item = id
    | _ => false

/-- The stream agrees with a list of finished items. -/
structure Mirrors [DecidableEq ι] (idOf : α → ι) (textOf : α → List β)
    (marks : List (Mark ι α β)) (output : List α) : Prop where
  closed : ∀ before index id after, marks = before ++ .opens index id :: after →
    closings idOf index id after = 1
  opened : ∀ index id, .opens index id ∈ marks →
    ∃ item, output[index]? = some item ∧ idOf item = id
  placed : ∀ index item, .closes index item ∈ marks → output[index]? = some item
  complete : ∀ index item, output[index]? = some item → .closes index item ∈ marks
  spelled : ∀ index item, .closes index item ∈ marks → textAt index marks = textOf item

/-- An item as it was sent; it may have been left open. -/
structure Block (ι α β : Type) where
  id : ι
  pieces : List (List β)
  final : Option α

/-- The marks of one block. -/
def Block.marks (index : ℕ) (b : Block ι α β) : List (Mark ι α β) :=
  .opens index b.id :: b.pieces.map (.piece index) ++ b.final.toList.map (.closes index)

/-- The marks of blocks that were sent one after another. -/
def blockMarks : ℕ → List (Block ι α β) → List (Mark ι α β)
  | _, [] => []
  | index, b :: blocks => b.marks index ++ blockMarks (index + 1) blocks

lemma blockMarks_append (index : ℕ) (blocks blocks' : List (Block ι α β)) :
    blockMarks index (blocks ++ blocks') =
      blockMarks index blocks ++ blockMarks (index + blocks.length) blocks' := by
  induction blocks generalizing index with
  | nil => rfl
  | cons b blocks ih =>
    rw [List.cons_append, blockMarks, blockMarks, ih, List.length_cons, List.append_assoc,
      Nat.add_assoc, Nat.add_comm 1]

section Sending

variable {id : ι} {pieces : List (List β)} (blocks : List (Block ι α β))

lemma blockMarks_open (id : ι) : blockMarks 0 blocks ++ [.opens blocks.length id] =
    blockMarks 0 (blocks ++ [⟨id, [], none⟩]) := by
  rw [blockMarks_append, Nat.zero_add]
  rfl

lemma blockMarks_piece (text : List β) :
    blockMarks 0 (blocks ++ [⟨id, pieces, none⟩]) ++ [.piece blocks.length text] =
      blockMarks 0 (blocks ++ [⟨id, pieces ++ [text], none⟩]) := by
  simp [blockMarks_append, blockMarks, Block.marks]

lemma blockMarks_close (item : α) :
    blockMarks 0 (blocks ++ [⟨id, pieces, none⟩]) ++ [.closes blocks.length item] =
      blockMarks 0 (blocks ++ [⟨id, pieces, some item⟩]) := by
  simp [blockMarks_append, blockMarks, Block.marks]

end Sending

/-! ## Reading the marks of blocks -/

variable {blocks : List (Block ι α β)} {b : Block ι α β}

lemma mem_blockMarks {m : Mark ι α β} {index : ℕ} : m ∈ blockMarks index blocks ↔
    ∃ (i : ℕ) (b : Block ι α β), blocks[i]? = some b ∧ m ∈ b.marks (index + i) := by
  induction blocks generalizing index with
  | nil => simp [blockMarks]
  | cons b blocks ih =>
    rw [blockMarks, List.mem_append, ih]
    constructor
    · rintro (h | ⟨i, b', hb', h⟩)
      · exact ⟨0, b, rfl, h⟩
      · exact ⟨i + 1, b', hb', by rwa [Nat.add_assoc, Nat.add_comm 1] at h⟩
    · rintro ⟨_ | i, b', hb', h⟩
      · cases hb'
        exact .inl h
      · exact .inr ⟨i, b', hb', by rwa [Nat.add_assoc, Nat.add_comm 1]⟩

lemma opens_mem_marks {index k : ℕ} {id : ι} :
    .opens k id ∈ b.marks index ↔ k = index ∧ id = b.id := by
  simp [Block.marks]

lemma closes_mem_marks {index k : ℕ} {item : α} :
    .closes k item ∈ b.marks index ↔ k = index ∧ b.final = some item := by
  simp only [Block.marks, List.cons_append, List.mem_cons, reduceCtorEq, List.mem_append,
    List.mem_map, and_false, exists_false, Option.mem_toList, false_or]
  constructor
  · rintro ⟨a, ha, h⟩
    cases h
    exact ⟨rfl, ha⟩
  · rintro ⟨rfl, h⟩
    exact ⟨item, h, rfl⟩

lemma opens_mem_blockMarks {k : ℕ} {id : ι} :
    .opens k id ∈ blockMarks 0 blocks ↔ ∃ b, blocks[k]? = some b ∧ id = b.id := by
  simp only [mem_blockMarks, opens_mem_marks, Nat.zero_add]
  exact ⟨fun ⟨_, b, hb, hk, hid⟩ => ⟨b, hk ▸ hb, hid⟩, fun ⟨b, hb, hid⟩ => ⟨k, b, hb, rfl, hid⟩⟩

lemma closes_mem_blockMarks {k : ℕ} {item : α} :
    .closes k item ∈ blockMarks 0 blocks ↔ ∃ b, blocks[k]? = some b ∧ b.final = some item := by
  simp only [mem_blockMarks, closes_mem_marks, Nat.zero_add]
  exact ⟨fun ⟨_, b, hb, hk, h⟩ => ⟨b, hk ▸ hb, h⟩, fun ⟨b, hb, h⟩ => ⟨k, b, hb, rfl, h⟩⟩

lemma textAt_append (index : ℕ) (marks marks' : List (Mark ι α β)) :
    textAt index (marks ++ marks') = textAt index marks ++ textAt index marks' :=
  List.flatMap_append

lemma textAt_marks (index k : ℕ) (b : Block ι α β) :
    textAt k (b.marks index) = if index = k then b.pieces.flatten else [] := by
  have hfinal : textAt k (b.final.toList.map (.closes index) : List (Mark ι α β)) = [] := by
    cases b.final <;> rfl
  have hpieces : textAt k (b.pieces.map (.piece index) : List (Mark ι α β)) =
      if index = k then b.pieces.flatten else [] := by
    induction b.pieces with
    | nil => simp [textAt]
    | cons text pieces ih =>
      rw [List.map_cons, ← List.singleton_append, textAt_append, ih]
      by_cases h : index = k <;> simp [textAt, h]
  rw [Block.marks, textAt_append, hfinal, List.append_nil, ← List.singleton_append, textAt_append,
    hpieces]
  rfl

/-- Text is found only in the block at the index. -/
lemma textAt_blockMarks {index k : ℕ} (h : blocks[k]? = some b) :
    textAt (index + k) (blockMarks index blocks) = b.pieces.flatten := by
  have hbefore : ∀ (blocks : List (Block ι α β)) (index k : ℕ), k < index →
      textAt k (blockMarks index blocks) = [] := by
    intro blocks
    induction blocks with
    | nil => intros; rfl
    | cons b blocks ih =>
      intro index k hk
      rw [blockMarks, textAt_append, textAt_marks, if_neg (by omega), ih _ _ (by omega)]
      rfl
  induction blocks generalizing index k with
  | nil => cases h
  | cons b' blocks ih =>
    rw [blockMarks, textAt_append, textAt_marks]
    cases k with
    | zero =>
      cases h
      rw [Nat.add_zero, if_pos rfl, hbefore _ _ _ (by omega), List.append_nil]
    | succ k =>
      rw [if_neg (by omega), List.nil_append, ← ih h]
      congr 1
      omega

/-! ## Agreement, block by block -/

section Agreement

variable [DecidableEq ι] {idOf : α → ι} {textOf : α → List β}

lemma closings_append (index : ℕ) (id : ι) (marks marks' : List (Mark ι α β)) :
    closings idOf index id (marks ++ marks') =
      closings idOf index id marks + closings idOf index id marks' :=
  List.countP_append

lemma closings_pieces (index k : ℕ) (id : ι) (pieces : List (List β)) :
    closings idOf index id (pieces.map (.piece k) : List (Mark ι α β)) = 0 := by
  simp [closings, List.countP_eq_zero]

lemma closings_final (index k : ℕ) (id : ι) (final : Option α) :
    closings idOf index id (final.toList.map (.closes k) : List (Mark ι α β)) =
      if k = index ∧ final.map idOf = some id then 1 else 0 := by
  cases final with
  | none => simp [closings]
  | some item => by_cases h : k = index ∧ idOf item = id <;> simp [closings, h]

lemma closings_blockMarks_eq_zero (id : ι) (blocks : List (Block ι α β)) {index k : ℕ}
    (hk : k < index) : closings idOf k id (blockMarks index blocks) = 0 := by
  induction blocks generalizing index with
  | nil => rfl
  | cons b blocks ih =>
    rw [blockMarks, Block.marks, closings_append, closings_append, ← List.singleton_append,
      closings_append, closings_pieces, closings_final, if_neg (by omega), ih (by omega)]
    rfl

/-- What is not in the first part of a list lies in the second. -/
lemma exists_append_of_not_mem {γ : Type} {x : γ} {first second before after : List γ}
    (h : first ++ second = before ++ x :: after) (hx : x ∉ first) :
    ∃ before', second = before' ++ x :: after := by
  induction first generalizing before with
  | nil => exact ⟨before, h⟩
  | cons y first ih =>
    rcases before with _ | ⟨z, before⟩
    · exact absurd (List.cons.inj h).1 (fun hy => hx (hy ▸ List.mem_cons_self))
    · exact ih (List.cons.inj h).2 (fun hmem => hx (List.mem_cons_of_mem _ hmem))

/-- After an item was opened, only its own block closes it. -/
lemma closings_after_opens {blocks : List (Block ι α β)} {index k : ℕ} {id : ι}
    {before after : List (Mark ι α β)}
    (h : blockMarks index blocks = before ++ .opens k id :: after) :
    ∃ (i : ℕ) (b : Block ι α β), k = index + i ∧ blocks[i]? = some b ∧ b.id = id ∧
      closings idOf k id after = if b.final.map idOf = some id then 1 else 0 := by
  induction blocks generalizing index before with
  | nil =>
    rw [blockMarks] at h
    simp at h
  | cons b blocks ih =>
    rw [blockMarks, Block.marks, List.cons_append, List.cons_append] at h
    rcases before with _ | ⟨m, before⟩
    · obtain ⟨hhead, rfl⟩ := List.cons.inj h
      cases hhead
      refine ⟨0, b, rfl, rfl, rfl, ?_⟩
      rw [closings_append, closings_append, closings_pieces, closings_final,
        closings_blockMarks_eq_zero _ _ (Nat.lt_succ_self _)]
      simp
    · -- The rest of this block holds no opening, so the opening lies in a later block.
      obtain ⟨-, h⟩ := List.cons.inj h
      obtain ⟨before', h⟩ := exists_append_of_not_mem h (by simp)
      obtain ⟨i, b', hk, hb', hid, hclosings⟩ := ih h
      exact ⟨i + 1, b', by omega, hb', hid, hclosings⟩

/-- A block agrees with an item. -/
structure Block.Spells (idOf : α → ι) (textOf : α → List β) (b : Block ι α β) (item : α) :
    Prop where
  final : b.final = some item
  id : idOf item = b.id
  text : b.pieces.flatten = textOf item

/-- A stream of blocks agrees with a list of items exactly if block by block it does. -/
theorem mirrors_iff {blocks : List (Block ι α β)} {output : List α} :
    Mirrors idOf textOf (blockMarks 0 blocks) output ↔
      List.Forall₂ (Block.Spells idOf textOf) blocks output := by
  constructor
  · intro h
    have hspells : ∀ (i : ℕ) (b : Block ι α β), blocks[i]? = some b →
        ∃ item, output[i]? = some item ∧ b.Spells idOf textOf item := by
      intro i b hb
      obtain ⟨item, hitem, hid⟩ := h.opened i b.id (opens_mem_blockMarks.mpr ⟨b, hb, rfl⟩)
      have hcloses := h.complete i item hitem
      obtain ⟨b', hb', hfinal⟩ := closes_mem_blockMarks.mp hcloses
      obtain rfl : b = b' := Option.some.inj (hb.symm.trans hb')
      have htext := h.spelled i item hcloses
      rw [← Nat.zero_add i, textAt_blockMarks hb] at htext
      exact ⟨item, hitem, hfinal, hid, htext⟩
    refine List.forall₂_iff_get.mpr ⟨Nat.le_antisymm ?_ ?_, fun i hi hi' => ?_⟩
    · by_contra hlt
      obtain ⟨item, hitem, -⟩ := hspells output.length _ (List.getElem?_eq_getElem (by omega))
      simp at hitem
    · by_contra hlt
      have hitem := List.getElem?_eq_getElem (l := output) (i := blocks.length) (by omega)
      obtain ⟨b, hb, -⟩ := closes_mem_blockMarks.mp (h.complete _ _ hitem)
      simp at hb
    · obtain ⟨item, hitem, hspelled⟩ := hspells i _ (List.getElem?_eq_getElem hi)
      rw [List.getElem?_eq_getElem hi'] at hitem
      cases hitem
      exact hspelled
  · intro h
    obtain ⟨hlength, hall⟩ := List.forall₂_iff_get.mp h
    have hspells : ∀ (i : ℕ) (b : Block ι α β), blocks[i]? = some b →
        ∃ item, output[i]? = some item ∧ b.Spells idOf textOf item := by
      intro i b hb
      obtain ⟨hi, rfl⟩ := List.getElem?_eq_some_iff.mp hb
      exact ⟨_, List.getElem?_eq_getElem (hlength ▸ hi), hall i hi (hlength ▸ hi)⟩
    constructor
    · intro before index id after hmarks
      obtain ⟨i, b, -, hb, rfl, hclosings⟩ := closings_after_opens hmarks
      obtain ⟨item, -, hspelled⟩ := hspells i b hb
      rw [hclosings, if_pos]
      rw [hspelled.final, ← hspelled.id]
      rfl
    · intro index id hopens
      obtain ⟨b, hb, rfl⟩ := opens_mem_blockMarks.mp hopens
      obtain ⟨item, hitem, hspelled⟩ := hspells index b hb
      exact ⟨item, hitem, hspelled.id⟩
    · intro index item hcloses
      obtain ⟨b, hb, hfinal⟩ := closes_mem_blockMarks.mp hcloses
      obtain ⟨item', hitem', hspelled⟩ := hspells index b hb
      rwa [← Option.some.inj (hspelled.final.symm.trans hfinal)]
    · intro index item hitem
      obtain ⟨hi, rfl⟩ := List.getElem?_eq_some_iff.mp hitem
      have hspelled := hall index (hlength.symm ▸ hi) hi
      exact closes_mem_blockMarks.mpr ⟨_, List.getElem?_eq_getElem (hlength.symm ▸ hi),
        hspelled.final⟩
    · intro index item hcloses
      obtain ⟨b, hb, hfinal⟩ := closes_mem_blockMarks.mp hcloses
      obtain ⟨item', -, hspelled⟩ := hspells index b hb
      rw [← Nat.zero_add index, textAt_blockMarks hb, hspelled.text]
      exact congrArg textOf (Option.some.inj (hspelled.final.symm.trans hfinal))

end Agreement

end NInfer
