import NInfer.Foundation.ByteCodec
import NInfer.Foundation.Chunks

/-!
# UTF-8 and character classes

`text/unicode.cpp` reads text with `utf8proc_iterate`, which takes one code point off the front of a
byte string and refuses what is not well-formed UTF-8.  `utf8Codepoints` is the loop around it: the
code points of a text, each with the bytes it was read from.

The bytes of the code points are the text (`flatMap_bytes_of_utf8Codepoints`), and what is read off
the front does not depend on what follows (`utf8Iterate_append`), so that the code points of two
texts one after the other are those of the first and then those of the second
(`utf8Codepoints_append`).  The ASCII code points are the ones of a single byte
(`Codepoint.WellFormed`), and a text that encodes characters is read as those characters
(`utf8Codepoints_flatMap_charBytes`).

The classes of characters come from the general category, which `utf8proc` looks up in a table.  The
table is a parameter here.
-/

namespace NInfer.Text

/-- A code point and the bytes that spell it; `CodepointSpan` has their offset and number. -/
structure Codepoint where
  value : ℕ
  bytes : List Byte
  deriving DecidableEq, Repr

/-- `utf_cont`. -/
def utfCont (b : Byte) : Bool := b.toNat / 64 = 2

/-- The low six bits of a continuation byte. -/
def contBits (b : Byte) : ℕ := b.toNat % 64

/-- `utf8proc_iterate`, by the number of bytes that the first one announces. -/
def utf8Iterate : List Byte → Option Codepoint
  | [] => none
  | b₀ :: rest =>
    let uc := b₀.toNat
    if uc < 0x80 then some ⟨uc, [b₀]⟩
    else if uc < 0xc2 ∨ 0xf4 < uc then none
    else if uc < 0xe0 then
      match rest with
      | b₁ :: _ => if utfCont b₁ then some ⟨uc % 32 * 64 + contBits b₁, [b₀, b₁]⟩ else none
      | _ => none
    else if uc < 0xf0 then
      match rest with
      | b₁ :: b₂ :: _ =>
        if ¬utfCont b₁ ∨ ¬utfCont b₂ then none
        else if uc = 0xed ∧ 0x9f < b₁.toNat then none
        else
          let value := uc % 16 * 4096 + contBits b₁ * 64 + contBits b₂
          if value < 0x800 then none else some ⟨value, [b₀, b₁, b₂]⟩
      | _ => none
    else
      match rest with
      | b₁ :: b₂ :: b₃ :: _ =>
        if ¬utfCont b₁ ∨ ¬utfCont b₂ ∨ ¬utfCont b₃ then none
        else if uc = 0xf0 ∧ b₁.toNat < 0x90 then none
        else if uc = 0xf4 ∧ 0x8f < b₁.toNat then none
        else some ⟨uc % 8 * 262144 + contBits b₁ * 4096 + contBits b₂ * 64 + contBits b₃,
          [b₀, b₁, b₂, b₃]⟩
      | _ => none

/-- The loop of `utf8_codepoints`, over at most `fuel` code points. -/
def utf8CodepointsWithin : ℕ → List Byte → Option (List Codepoint)
  | _, [] => some []
  | 0, _ :: _ => none
  | fuel + 1, b :: text =>
    (utf8Iterate (b :: text)).bind fun c =>
      (utf8CodepointsWithin fuel ((b :: text).drop c.bytes.length)).map (c :: ·)

/-- `utf8_codepoints`; its exceptions are all `none`. -/
def utf8Codepoints (text : List Byte) : Option (List Codepoint) :=
  utf8CodepointsWithin text.length text

/-- `codepoint_to_utf8`, with `utf8proc_encode_char`. -/
def codepointToUtf8 (uc : ℕ) : Option (List Byte) :=
  if uc < 0x80 then some [BitVec.ofNat 8 uc]
  else if uc < 0x800 then some [BitVec.ofNat 8 (0xC0 + uc / 64), BitVec.ofNat 8 (0x80 + uc % 64)]
  else if uc < 0x10000 then
    some [BitVec.ofNat 8 (0xE0 + uc / 4096), BitVec.ofNat 8 (0x80 + uc / 64 % 64),
      BitVec.ofNat 8 (0x80 + uc % 64)]
  else if uc < 0x110000 then
    some [BitVec.ofNat 8 (0xF0 + uc / 262144), BitVec.ofNat 8 (0x80 + uc / 4096 % 64),
      BitVec.ofNat 8 (0x80 + uc / 64 % 64), BitVec.ofNat 8 (0x80 + uc % 64)]
  else none

/-- `is_ascii`. -/
def isAscii (text : List Byte) : Bool := text.all (·.toNat < 128)

variable {text rest : List Byte} {c : Codepoint} {cs ds : List Codepoint}

/-! ## One code point -/

/-- Either an ASCII code point, spelled by one byte, or another one, whose first byte is not
ASCII. -/
def Codepoint.WellFormed (c : Codepoint) : Prop :=
  (c.value < 128 ∧ c.bytes = [BitVec.ofNat 8 c.value]) ∨
    (128 ≤ c.value ∧ ∃ b bs, c.bytes = b :: bs ∧ 128 ≤ b.toNat)

/-- A well-formed code point is read off the front, and what follows it does not matter. -/
lemma utf8Iterate_spec (h : utf8Iterate text = some c) :
    c.bytes ≠ [] ∧ (∃ rest, text = c.bytes ++ rest) ∧
      (∀ rest, utf8Iterate (c.bytes ++ rest) = some c) ∧ c.WellFormed := by
  match text with
  | [] => exact absurd h (by simp [utf8Iterate])
  | b₀ :: text =>
    unfold utf8Iterate at h
    dsimp only at h
    split_ifs at h with h1 h2 h3 h4
    · obtain rfl := Option.some.inj h
      exact ⟨by simp, ⟨text, rfl⟩, fun rest => by simp [utf8Iterate, h1], .inl ⟨h1, by simp⟩⟩
    · match text with
      | [] => exact absurd h (by simp)
      | b₁ :: text =>
        dsimp only at h
        split_ifs at h with hc
        obtain rfl := Option.some.inj h
        refine ⟨by simp, ⟨text, rfl⟩, fun rest => ?_,
          .inr ⟨by dsimp only; omega, b₀, _, rfl, by omega⟩⟩
        simp only [List.cons_append, List.nil_append, utf8Iterate]
        rw [if_neg h1, if_neg h2, if_pos h3, if_pos hc]
    · match text with
      | [] | [_] => exact absurd h (by simp)
      | b₁ :: b₂ :: text =>
        dsimp only at h
        split_ifs at h with hc hs hv
        obtain rfl := Option.some.inj h
        refine ⟨by simp, ⟨text, rfl⟩, fun rest => ?_,
          .inr ⟨by dsimp only; omega, b₀, _, rfl, by omega⟩⟩
        simp only [List.cons_append, List.nil_append, utf8Iterate]
        rw [if_neg h1, if_neg h2, if_neg h3, if_pos h4, if_neg hc, if_neg hs, if_neg hv]
    · match text with
      | [] | [_] | [_, _] => exact absurd h (by simp)
      | b₁ :: b₂ :: b₃ :: text =>
        dsimp only at h
        split_ifs at h with hc hl hh
        obtain rfl := Option.some.inj h
        refine ⟨by simp, ⟨text, rfl⟩, fun rest => ?_, .inr ⟨?_, b₀, _, rfl, by omega⟩⟩
        · simp only [List.cons_append, List.nil_append, utf8Iterate]
          rw [if_neg h1, if_neg h2, if_neg h3, if_neg h4, if_neg hc, if_neg hl, if_neg hh]
        · simp only [utfCont, decide_eq_true_eq] at hc
          have hvalue : 128 ≤ b₀.toNat % 8 * 262144 + contBits b₁ * 4096 := by
            unfold contBits
            omega
          exact hvalue.trans ((Nat.le_add_right _ _).trans (Nat.le_add_right _ _))

lemma utf8Iterate_append (h : utf8Iterate text = some c) (rest : List Byte) :
    utf8Iterate (c.bytes ++ rest) = some c :=
  (utf8Iterate_spec h).2.2.1 rest

/-- An ASCII byte is a code point. -/
lemma utf8Iterate_ascii {b : Byte} (hb : b.toNat < 128) (rest : List Byte) :
    utf8Iterate (b :: rest) = some ⟨b.toNat, [b]⟩ := by
  exact if_pos hb

/-! ## All code points -/

/-- Fuel above the length changes nothing. -/
lemma utf8CodepointsWithin_of_le {fuel : ℕ} (hfuel : text.length ≤ fuel) :
    utf8CodepointsWithin fuel text = utf8Codepoints text := by
  refine fuel_eq (fun text hl => ?_) ?_ hfuel
  · obtain rfl := List.length_eq_zero_iff.mp hl
    rfl
  · rintro fuel ih (_ | ⟨b, text⟩) hl
    · rfl
    · refine Option.bind_congr fun c hc => congrArg _ (ih _ ?_)
      have hpos := List.length_pos_iff.mpr (utf8Iterate_spec hc).1
      rw [List.length_drop]
      omega

@[simp] lemma utf8Codepoints_nil : utf8Codepoints [] = some [] := rfl

/-- The code points of a text that starts with one. -/
lemma utf8Codepoints_cons (h : utf8Iterate (c.bytes ++ rest) = some c) :
    utf8Codepoints (c.bytes ++ rest) = (utf8Codepoints rest).map (c :: ·) := by
  obtain ⟨hne, -⟩ := utf8Iterate_spec h
  obtain ⟨b, tail, hb⟩ := List.exists_cons_of_ne_nil hne
  have hlength : (c.bytes ++ rest).length = (tail ++ rest).length + 1 := by
    rw [hb, List.cons_append, List.length_cons]
  have hcons : c.bytes ++ rest = b :: (tail ++ rest) := by rw [hb, List.cons_append]
  unfold utf8Codepoints
  rw [hlength, hcons, utf8CodepointsWithin, ← hcons, h, Option.bind_some, List.drop_left,
    utf8CodepointsWithin_of_le (by rw [List.length_append]; omega), utf8Codepoints]

/-- Reading a text that is not empty. -/
lemma utf8Codepoints_eq_some_cons (h : utf8Codepoints text = some (c :: cs)) :
    ∃ rest, text = c.bytes ++ rest ∧ utf8Iterate text = some c ∧ utf8Codepoints rest = some cs := by
  match text with
  | [] => exact absurd h (by simp)
  | b :: text =>
    unfold utf8Codepoints at h
    obtain ⟨d, hd, hrest⟩ := Option.bind_eq_some_iff.mp h
    obtain ⟨ds, hds, hcons⟩ := Option.map_eq_some_iff.mp hrest
    obtain ⟨rfl, rfl⟩ := List.cons.inj hcons
    obtain ⟨hne, ⟨rest, heq⟩, -⟩ := utf8Iterate_spec hd
    refine ⟨rest, heq, hd, ?_⟩
    have hpos := List.length_pos_iff.mpr hne
    have hlength := congrArg List.length heq
    rw [List.length_cons, List.length_append] at hlength
    rw [heq, List.drop_left, utf8CodepointsWithin_of_le (by omega)] at hds
    exact hds

lemma wellFormed_of_utf8Codepoints (h : utf8Codepoints text = some cs) :
    ∀ c ∈ cs, c.WellFormed := by
  induction cs generalizing text with
  | nil => exact fun c hc => absurd hc (by simp)
  | cons d cs ih =>
    obtain ⟨rest, -, hd, hrest⟩ := utf8Codepoints_eq_some_cons h
    exact List.forall_mem_cons.mpr ⟨(utf8Iterate_spec hd).2.2.2, ih hrest⟩

/-- The code points of an ASCII text are its bytes. -/
lemma utf8Codepoints_ascii (h : isAscii text = true) :
    utf8Codepoints text = some (text.map fun b => ⟨b.toNat, [b]⟩) := by
  induction text with
  | nil => rfl
  | cons b text ih =>
    simp only [isAscii, List.all_cons, Bool.and_eq_true, decide_eq_true_eq] at h
    have hcons : utf8Codepoints ([b] ++ text) = (utf8Codepoints text).map (⟨b.toNat, [b]⟩ :: ·) :=
      utf8Codepoints_cons (c := ⟨b.toNat, [b]⟩) (utf8Iterate_ascii h.1 text)
    rw [List.singleton_append] at hcons
    rw [hcons, ih (by simpa [isAscii] using h.2)]
    rfl

/-! ## Encoded characters -/

/-- The bytes that encode a character. -/
def charBytes (c : Char) : List Byte := (String.utf8EncodeChar c).map UInt8.toBitVec

/-- A character as a code point of a text. -/
def codepointOf (c : Char) : Codepoint := ⟨c.toNat, charBytes c⟩

lemma toNat_byte {n : ℕ} (h : n < 256) : (UInt8.ofNat n).toBitVec.toNat = n :=
  Nat.mod_eq_of_lt h

lemma utf8Iterate_charBytes (c : Char) : utf8Iterate (charBytes c) = some (codepointOf c) := by
  have hscalar : c.toNat < 0x110000 ∧ ¬(0xd800 ≤ c.toNat ∧ c.toNat ≤ 0xdfff) := by
    rcases c.valid with h | ⟨h, h'⟩
    · have hlow : c.toNat < 0xd800 := h
      omega
    · have hhigh : 0xdfff < c.toNat := h
      have hmax : c.toNat < 0x110000 := h'
      omega
  have hv : c.val.toNat = c.toNat := rfl
  unfold codepointOf charBytes String.utf8EncodeChar
  simp only [hv]
  generalize c.toNat = v at hscalar
  split_ifs with h1 h2 h3
  · have hb := toNat_byte (n := v) (by omega)
    simp only [List.map_cons, List.map_nil, utf8Iterate, hb]
    rw [if_pos (by omega)]
  · have hb₀ := toNat_byte (n := v / 64 % 32 + 192) (by omega)
    have hb₁ := toNat_byte (n := v % 64 + 128) (by omega)
    simp only [List.map_cons, List.map_nil, utf8Iterate, utfCont, contBits, hb₀, hb₁]
    rw [if_neg (by omega), if_neg (by omega), if_pos (by omega), if_pos (by simp; omega)]
    simp only [Option.some.injEq, Codepoint.mk.injEq, and_true]
    omega
  · have hb₀ := toNat_byte (n := v / 4096 % 16 + 224) (by omega)
    have hb₁ := toNat_byte (n := v / 64 % 64 + 128) (by omega)
    have hb₂ := toNat_byte (n := v % 64 + 128) (by omega)
    simp only [List.map_cons, List.map_nil, utf8Iterate, utfCont, contBits, hb₀, hb₁, hb₂,
      decide_eq_true_eq]
    have hvalue : (v / 4096 % 16 + 224) % 16 * 4096 + (v / 64 % 64 + 128) % 64 * 64 +
        (v % 64 + 128) % 64 = v := by omega
    rw [if_neg (by omega), if_neg (by omega), if_neg (by omega), if_pos (by omega),
      if_neg (by omega), if_neg (by omega), if_neg (by omega), hvalue]
  · have hb₀ := toNat_byte (n := v / 262144 % 8 + 240) (by omega)
    have hb₁ := toNat_byte (n := v / 4096 % 64 + 128) (by omega)
    have hb₂ := toNat_byte (n := v / 64 % 64 + 128) (by omega)
    have hb₃ := toNat_byte (n := v % 64 + 128) (by omega)
    simp only [List.map_cons, List.map_nil, utf8Iterate, utfCont, contBits, hb₀, hb₁, hb₂, hb₃,
      decide_eq_true_eq]
    have hvalue : (v / 262144 % 8 + 240) % 8 * 262144 + (v / 4096 % 64 + 128) % 64 * 4096 +
        (v / 64 % 64 + 128) % 64 * 64 + (v % 64 + 128) % 64 = v := by omega
    rw [if_neg (by omega), if_neg (by omega), if_neg (by omega), if_neg (by omega),
      if_neg (by omega), if_neg (by omega), if_neg (by omega), hvalue]

/-- The code points of a text are the characters that it encodes. -/
lemma utf8Codepoints_flatMap_charBytes (chars : List Char) :
    utf8Codepoints (chars.flatMap charBytes) = some (chars.map codepointOf) := by
  induction chars with
  | nil => rfl
  | cons c chars ih =>
    have hcons := utf8Codepoints_cons (c := codepointOf c)
      (utf8Iterate_append (utf8Iterate_charBytes c) (chars.flatMap charBytes))
    rw [ih] at hcons
    exact hcons

/-! ## Character classes -/

/-- `utf8proc_category_t`. -/
inductive Category where
  | cn | lu | ll | lt | lm | lo | mn | mc | me | nd | nl | no | pc | pd | ps | pe | pi | pf | po
  | sm | sc | sk | so | zs | zl | zp | cc | cf | cs | co
  deriving DecidableEq, Repr

section

variable (category : ℕ → Category)

def isLetter (codepoint : ℕ) : Bool :=
  match category codepoint with
  | .lu | .ll | .lt | .lm | .lo => true
  | _ => false

def isMark (codepoint : ℕ) : Bool :=
  match category codepoint with
  | .mn | .mc | .me => true
  | _ => false

def isNumber (codepoint : ℕ) : Bool :=
  match category codepoint with
  | .nd | .nl | .no => true
  | _ => false

def isAsciiWhitespace (codepoint : ℕ) : Bool :=
  codepoint = ' '.toNat || codepoint = '\t'.toNat || codepoint = '\n'.toNat ||
    codepoint = '\r'.toNat || codepoint = 0x0b || codepoint = 0x0c

def isWhitespace (codepoint : ℕ) : Bool :=
  if isAsciiWhitespace codepoint then true
  else
    match category codepoint with
    | .zs | .zl | .zp => true
    | _ => false

end

end NInfer.Text
