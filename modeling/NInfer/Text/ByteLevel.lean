import NInfer.Text.Utf8

/-!
# The byte-level alphabet

Byte-level BPE writes every byte as one printable code point: a visible byte as itself, and the
others, in order, as the code points from 256 on.  `build_byte_level_encoder` and
`build_byte_level_decoder` (`tokenizer.cpp`) build the two directions of this table.  `byteSymbol`
is the symbol of a byte, and `spelledBytes` reads a string of symbols back.
-/

namespace NInfer.Text

/-- A byte that is its own symbol. -/
def visible (byte : ℕ) : Bool :=
  (33 ≤ byte && byte ≤ 126) || (161 ≤ byte && byte ≤ 172) || (174 ≤ byte && byte ≤ 255)

/-- The loop of both builders: the code points of the bytes from `byte` on. -/
def byteLevelCodepoints : (count byte next : ℕ) → List ℕ
  | 0, _, _ => []
  | count + 1, byte, next =>
    if visible byte then byte :: byteLevelCodepoints count (byte + 1) next
    else next :: byteLevelCodepoints count (byte + 1) (next + 1)

/-- The table of code points. -/
def byteLevelTable : List ℕ := byteLevelCodepoints 256 0 256

/-- The code point of a byte. -/
def byteCodepoint (b : Byte) : ℕ := byteLevelTable.getD b.toNat 0

/-- `build_byte_level_encoder`. -/
def byteSymbol (b : Byte) : List Byte := (codepointToUtf8 (byteCodepoint b)).getD []

/-- The symbol of a byte is one code point. -/
lemma utf8Iterate_byteSymbol (b : Byte) (rest : List Byte) :
    utf8Iterate (byteSymbol b ++ rest) = some ⟨byteCodepoint b, byteSymbol b⟩ := by
  have hone : ∀ b : Byte, utf8Iterate (byteSymbol b) = some ⟨byteCodepoint b, byteSymbol b⟩ := by
    decide +kernel
  exact utf8Iterate_append (hone b) rest

end NInfer.Text
