import NInfer.Foundation.Fallible

/-!
# Readers and writers of byte strings

Words are stored little-endian: `leBytes n x` are the `n` low bytes of `x`, and `ofLeBytes` reads
them back (`ofLeBytes_leBytes`, `leBytes_ofLeBytes`).

A `Reader` consumes a prefix of its input or refuses it.  `Reads d encode P` is the whole contract
of a reader as one equivalence: it returns `a` and leaves `rest` exactly when `a` has `P` and the
input is `encode a` followed by `rest`.  Left to right this says that only canonical encodings are
accepted, right to left that every encoding is.  The contract of a sequence is found by rewriting
with the contracts of its parts (`run_bind_iff`), a check made ahead of a read only has to hold for
encodings (`Reads.guarded`), and `Reads.many` is the contract of a counted list.

A `Writer` fills a buffer of fixed size and refuses to write past its end.  `Writes f data` says
that a piece of code appends `data` if there is room for it; it composes over sequences and loops.
-/

namespace NInfer

abbrev Byte := BitVec 8

/-! ## Little-endian words -/

/-- The `n` low bytes of `x`, least significant first. -/
def leBytes : ℕ → ℕ → List Byte
  | 0, _ => []
  | n + 1, x => BitVec.ofNat 8 x :: leBytes n (x / 256)

def ofLeBytes : List Byte → ℕ
  | [] => 0
  | b :: bs => b.toNat + 256 * ofLeBytes bs

@[simp] lemma length_leBytes (n x : ℕ) : (leBytes n x).length = n := by
  induction n generalizing x with
  | zero => rfl
  | succ n ih => rw [leBytes, List.length_cons, ih]

lemma ofLeBytes_lt (bytes : List Byte) : ofLeBytes bytes < 256 ^ bytes.length := by
  induction bytes with
  | nil => simp [ofLeBytes]
  | cons b bytes ih =>
    rw [ofLeBytes, List.length_cons, Nat.pow_succ]
    omega

lemma ofLeBytes_leBytes {n x : ℕ} (hx : x < 256 ^ n) : ofLeBytes (leBytes n x) = x := by
  induction n generalizing x with
  | zero =>
    rw [leBytes, ofLeBytes]
    omega
  | succ n ih =>
    have hrest : x / 256 < 256 ^ n := by
      omega
    rw [leBytes, ofLeBytes, ih hrest, BitVec.toNat_ofNat]
    omega

lemma leBytes_ofLeBytes (bytes : List Byte) : leBytes bytes.length (ofLeBytes bytes) = bytes := by
  induction bytes with
  | nil => rfl
  | cons b bytes ih =>
    have hdiv : (b.toNat + 256 * ofLeBytes bytes) / 256 = ofLeBytes bytes := by omega
    have hlow : BitVec.ofNat 8 (b.toNat + 256 * ofLeBytes bytes) = b := by
      apply BitVec.eq_of_toNat_eq
      rw [BitVec.toNat_ofNat]
      omega
    rw [List.length_cons, ofLeBytes, leBytes, hdiv, ih, hlow]

/-- A word of `n` bytes. -/
def wordBytes (n : ℕ) (x : BitVec (8 * n)) : List Byte := leBytes n x.toNat

@[simp] lemma length_wordBytes (n : ℕ) (x : BitVec (8 * n)) : (wordBytes n x).length = n :=
  length_leBytes n x.toNat

/-- Encodings of one length. -/
lemma length_flatMap_of_const {α β : Type} {f : α → List β} {n : ℕ} {l : List α}
    (hf : ∀ a ∈ l, (f a).length = n) : (l.flatMap f).length = l.length * n := by
  induction l with
  | nil => simp
  | cons a l ih =>
    rw [List.flatMap_cons, List.length_append, hf a List.mem_cons_self,
      ih fun b hb => hf b (List.mem_cons_of_mem _ hb), List.length_cons, Nat.succ_mul, Nat.add_comm]

/-- Encodings of at least some length. -/
lemma le_length_flatMap {α β : Type} {f : α → List β} {n : ℕ} {l : List α}
    (hf : ∀ a ∈ l, n ≤ (f a).length) : l.length * n ≤ (l.flatMap f).length := by
  induction l with
  | nil => simp
  | cons a l ih =>
    have ha := hf a List.mem_cons_self
    have hl := ih fun b hb => hf b (List.mem_cons_of_mem _ hb)
    rw [List.flatMap_cons, List.length_append, List.length_cons, Nat.succ_mul]
    omega

/-! ## Readers -/

variable {ε α β : Type}

/-- A program that reads from the front of a byte string. -/
abbrev Reader (ε α : Type) := StateT (List Byte) (Except ε) α

namespace Reader

/-- The next `n` bytes. -/
def bytes (n : ℕ) (overflow : ε) : Reader ε (List.Vector Byte n) := fun input =>
  if h : n ≤ input.length then .ok (⟨input.take n, List.length_take_of_le h⟩, input.drop n)
  else .error overflow

/-- `scalar<T>()`: the next word of `n` bytes. -/
def word (n : ℕ) (overflow : ε) : Reader ε (BitVec (8 * n)) := do
  let data ← bytes n overflow
  return BitVec.ofNat (8 * n) (ofLeBytes data.toList)

/-- `count` values, one after the other. -/
def many (d : Reader ε α) : (count : ℕ) → Reader ε (List.Vector α count)
  | 0 => return List.Vector.nil
  | count + 1 => do
    let a ← d
    let rest ← many d count
    return a ::ᵥ rest

/-- `if (c(remain())) { throw e; }`. -/
def refuseIf (c : ℕ → Prop) [DecidablePred c] (e : ε) : Reader ε Unit := fun input =>
  if c input.length then .error e else .ok ((), input)

variable {input rest : List Byte} {d : Reader ε α} {encode : α → List Byte}

lemma run_bind_iff {f : α → Reader ε β} {b : β} :
    (d >>= f) input = .ok (b, rest) ↔
      ∃ a mid, d input = .ok (a, mid) ∧ f a mid = .ok (b, rest) := by
  refine Iff.trans (ok_bind_iff (x := d input) (f := fun p => f p.1 p.2)) ?_
  exact ⟨fun ⟨⟨a, mid⟩, h⟩ => ⟨a, mid, h⟩, fun ⟨a, mid, h⟩ => ⟨(a, mid), h⟩⟩

lemma run_pure_iff {a b : α} :
    (pure a : Reader ε α) input = .ok (b, rest) ↔ a = b ∧ input = rest := by
  refine Iff.trans ok_pure_iff ?_
  rw [Prod.mk.injEq]

lemma run_refuseIf_iff {c : ℕ → Prop} [DecidablePred c] {e : ε} {u : Unit} :
    refuseIf c e input = .ok (u, rest) ↔ ¬c input.length ∧ input = rest := by
  unfold refuseIf
  by_cases hc : c input.length
  · rw [if_pos hc]
    exact ⟨fun h => (by cases h), fun h => absurd hc h.1⟩
  · rw [if_neg hc]
    exact ⟨fun h => ⟨hc, (Prod.mk.inj (Except.ok.inj h)).2⟩, fun h => by rw [h.2]⟩

/-- The reader accepts exactly the encodings of the values with `P`. -/
def Reads (d : Reader ε α) (encode : α → List Byte) (P : α → Prop) : Prop :=
  ∀ input a rest, d input = .ok (a, rest) ↔ P a ∧ input = encode a ++ rest

lemma reads_bytes (n : ℕ) (overflow : ε) :
    Reads (bytes n overflow) List.Vector.toList fun _ => True := by
  intro input data rest
  unfold bytes
  constructor
  · intro h
    split at h
    · obtain ⟨rfl, rfl⟩ := Prod.mk.inj (Except.ok.inj h)
      exact ⟨trivial, (List.take_append_drop n input).symm⟩
    · cases h
  · rintro ⟨-, rfl⟩
    have hlen := data.toList_length
    rw [dif_pos (by simp [hlen])]
    congr 2
    · exact List.Vector.eq _ _ (List.take_left' hlen)
    · exact List.drop_left' hlen

lemma reads_word (n : ℕ) (overflow : ε) : Reads (word n overflow) (wordBytes n) fun _ => True := by
  intro input x rest
  have hpow : 256 ^ n = 2 ^ (8 * n) := by rw [Nat.pow_mul]
  unfold word
  simp only [run_bind_iff, reads_bytes n overflow _ _ _, run_pure_iff, true_and]
  constructor
  · rintro ⟨data, mid, rfl, rfl, rfl⟩
    have hlen := data.toList_length
    have hlt := ofLeBytes_lt data.toList
    rw [hlen, hpow] at hlt
    have hback := leBytes_ofLeBytes data.toList
    rw [hlen] at hback
    rw [wordBytes, BitVec.toNat_ofNat, Nat.mod_eq_of_lt hlt, hback]
  · rintro rfl
    refine ⟨⟨wordBytes n x, length_leBytes _ _⟩, rest, rfl, ?_, rfl⟩
    apply BitVec.eq_of_toNat_eq
    have hlt : x.toNat < 256 ^ n := hpow ▸ x.isLt
    show ofLeBytes (leBytes n x.toNat) % _ = _
    rw [ofLeBytes_leBytes hlt, Nat.mod_eq_of_lt x.isLt]

lemma Reads.many {P : α → Prop} (hd : Reads d encode P) (count : ℕ) :
    Reads (Reader.many d count) (fun values => values.toList.flatMap encode)
      fun values => ∀ a ∈ values.toList, P a := by
  induction count with
  | zero =>
    intro input values rest
    rw [Reader.many, run_pure_iff, List.Vector.eq_nil values]
    simp
  | succ count ih =>
    intro input values rest
    simp only [Reader.many, run_bind_iff, hd _ _ _, ih _ _ _, run_pure_iff]
    constructor
    · rintro ⟨a, mid, ⟨ha, rfl⟩, values, mid', ⟨hvalues, rfl⟩, rfl, rfl⟩
      simp only [List.Vector.toList_cons, List.mem_cons, forall_eq_or_imp, List.flatMap_cons,
        List.append_assoc, and_true]
      exact ⟨ha, hvalues⟩
    · rintro ⟨hvalues, rfl⟩
      rw [← List.Vector.cons_head_tail values] at hvalues ⊢
      simp only [List.Vector.toList_cons, List.mem_cons, forall_eq_or_imp, List.flatMap_cons,
        List.append_assoc] at hvalues ⊢
      exact ⟨_, _, ⟨hvalues.1, rfl⟩, _, _, ⟨hvalues.2, rfl⟩, rfl, rfl⟩

/-- A check of the bytes that remain, made ahead of a read: it may refuse no encoding. -/
lemma Reads.guarded {P : α → Prop} (hd : Reads d encode P) {c : ℕ → Prop} [DecidablePred c] {e : ε}
    (hc : ∀ a rest, P a → ¬c (encode a ++ rest).length) :
    Reads (do refuseIf c e; d) encode P := by
  intro input a rest
  rw [run_bind_iff]
  simp only [run_refuseIf_iff]
  constructor
  · rintro ⟨-, mid, ⟨-, rfl⟩, h⟩
    exact (hd _ _ _).mp h
  · intro h
    refine ⟨(), input, ⟨?_, rfl⟩, (hd _ _ _).mpr h⟩
    rw [h.2]
    exact hc a rest h.1

end Reader

/-! ## Writers -/

/-- A buffer being filled: what has been written, and the bytes left. -/
structure Writer where
  written : List Byte := []
  room : ℕ

namespace Writer

/-- Append `data`. -/
def bytes (data : List Byte) (overflow : ε) (w : Writer) : Except ε Writer := do
  NInfer.refuseIf (data.length > w.room) overflow
  return ⟨w.written ++ data, w.room - data.length⟩

/-- The code appends `data` whenever there is room for it. -/
def Writes (f : Writer → Except ε Writer) (data : List Byte) : Prop :=
  ∀ w, data.length ≤ w.room → f w = .ok ⟨w.written ++ data, w.room - data.length⟩

lemma writes_bytes (data : List Byte) (overflow : ε) : Writes (bytes data overflow) data :=
  fun _ h => refuseIf_bind_iff.mpr ⟨not_lt.mpr h, rfl⟩

lemma writes_pure : Writes (pure : Writer → Except ε Writer) [] := by
  intro w _
  simp [pure, Except.pure]

lemma Writes.comp {f g : Writer → Except ε Writer} {first rest : List Byte}
    (hf : Writes f first) (hg : Writes g rest) : Writes (fun w => f w >>= g) (first ++ rest) := by
  intro w h
  rw [List.length_append] at h
  have hroom : rest.length ≤ w.room - first.length := by omega
  refine ok_bind_iff.mpr ⟨_, hf w (by omega), (hg _ hroom).trans ?_⟩
  rw [List.append_assoc, List.length_append, Nat.sub_sub]

lemma Writes.forEach {f : α → Writer → Except ε Writer} {data : α → List Byte}
    (hf : ∀ a, Writes (f a) (data a)) (items : List α) :
    Writes (fun w => items.foldlM (fun w a => f a w) w) (items.flatMap data) := by
  induction items with
  | nil => exact writes_pure
  | cons a items ih =>
    exact (hf a).comp ih

end Writer

end NInfer
