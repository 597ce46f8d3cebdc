import NInfer.Foundation.ByteCodec

/-!
# The identity of a resident prefix

A resident sequence keeps, next to its token ledger, what else the model saw for each token: its
type, its three position coordinates and the vision items behind the image and video tokens
(`prefix_identity.h`).  Prefix reuse compares, hashes and stores this identity, so it is a value of
its own: `assign` takes it from a prompt, `append_generated` extends it by decoded tokens and
`truncate` cuts it back, unless the cut would divide a vision item.

The three coordinate lists always have one entry per token; the class has no way to break that, and
the structure carries it.

Integers are words of the source's width.  A modality is a byte: the enumeration has a fixed
underlying type, so a byte read from storage is a modality whether or not it has a name.
-/

namespace NInfer.Prefix

/-- What the prefix functions throw. -/
inductive Exception where
  | invalidArgument (what : String)
  | outOfRange (what : String)
  | overflowError (what : String)
  | lengthError (what : String)
  | logicError (what : String)
  deriving DecidableEq

structure VisionGrid where
  temporal : BitVec 32
  height : BitVec 32
  width : BitVec 32
  deriving DecidableEq

structure TokenSpan where
  begin : BitVec 64
  count : BitVec 64
  deriving DecidableEq

structure VisionItem where
  modality : Byte
  grid : VisionGrid
  patchBegin : BitVec 64
  patchCount : BitVec 64
  contentDigest : List.Vector Byte 32
  /-- Timestamps, as the words that store them. -/
  timestamps : List (BitVec 64)
  tokenSpans : List TokenSpan
  deriving DecidableEq

/-- `item_end`: one past the last token of the item, or zero for an item without tokens. -/
def itemEnd (item : VisionItem) : ℕ :=
  match item.tokenSpans.getLast? with
  | none => 0
  | some last => (last.begin + last.count).toNat

/-- The part of a prepared prompt that identifies it. -/
structure PreparedPrompt where
  tokenIds : List (BitVec 32)
  tokenTypes : List Byte
  positions : List (BitVec 32)
  visionItems : List VisionItem
  deriving DecidableEq

lemma shape_nil (_ : Fin 3) : ([] : List (BitVec 32)).length = ([] : List Byte).length := rfl

@[ext]
structure ResidentPrefixIdentity where
  tokenTypes : List Byte := []
  positions : Fin 3 → List (BitVec 32) := fun _ => []
  visionItems : List VisionItem := []
  shape : ∀ axis, (positions axis).length = tokenTypes.length := by
    first | exact NInfer.Prefix.shape_nil | simp
  deriving DecidableEq

/-- `prefix_item_count`: how many items end inside the first `tokens` tokens, if the cut divides no
item and separates the items before it from those behind it. -/
def prefixItemCount (tokens : ℕ) : List VisionItem → Bool → Option ℕ
  | [], _ => some 0
  | item :: items, sawSuffix =>
    match item.tokenSpans.head?, item.tokenSpans.getLast? with
    | some first, some last =>
      if first.count = 0 ∨ last.count = 0 ∨
          last.begin.toNat > 2 ^ 64 - 1 - last.count.toNat then none
      else if (last.begin + last.count).toNat ≤ tokens then
        if sawSuffix then none else (prefixItemCount tokens items sawSuffix).map (· + 1)
      else if first.begin.toNat ≥ tokens then prefixItemCount tokens items true
      else none
    | _, _ => none

namespace ResidentPrefixIdentity

def size (identity : ResidentPrefixIdentity) : ℕ := identity.tokenTypes.length

/-- The positions of one axis in a prompt of `tokens` tokens, whose axes are stored one after the
other. -/
def promptAxis (positions : List (BitVec 32)) (tokens : ℕ) (axis : Fin 3) : List (BitVec 32) :=
  (positions.drop (axis * tokens)).take tokens

/-- `assign`. -/
def assign (prompt : PreparedPrompt) : Except Exception ResidentPrefixIdentity :=
  if h : prompt.tokenTypes.length ≠ prompt.tokenIds.length ∨
      prompt.positions.length ≠ 3 * prompt.tokenIds.length then
    .error (.invalidArgument "prepared prompt identity metadata has an invalid shape")
  else
    .ok {
      tokenTypes := prompt.tokenTypes
      positions := promptAxis prompt.positions prompt.tokenIds.length
      visionItems := prompt.visionItems
      shape := by
        push Not at h
        intro axis
        have haxis := axis.isLt
        have hle : (axis : ℕ) * prompt.tokenIds.length ≤ 2 * prompt.tokenIds.length :=
          Nat.mul_le_mul_right _ (by omega)
        rw [promptAxis, List.length_take, List.length_drop, h.1, h.2]
        omega }

/-- One token of `append_generated`. -/
def appendOne (identity : ResidentPrefixIdentity) (ropeDelta : BitVec 32) :
    Except Exception ResidentPrefixIdentity := do
  let index := identity.size
  refuseIf (index > 2 ^ 31 - 1) (.overflowError "generated prefix position exceeds int32")
  let position := (index : ℤ) + ropeDelta.toInt
  refuseIf (position < -2 ^ 31 ∨ position > 2 ^ 31 - 1)
    (.overflowError "generated MRoPE position exceeds int32")
  return {
    tokenTypes := identity.tokenTypes ++ [0]
    positions := fun axis => identity.positions axis ++ [BitVec.ofInt 32 position]
    visionItems := identity.visionItems
    shape := fun axis => by simp [identity.shape axis] }

/-- `append_generated`. -/
def appendGenerated (identity : ResidentPrefixIdentity) (count : ℕ) (ropeDelta : BitVec 32) :
    Except Exception ResidentPrefixIdentity := do
  refuseIf (count > 2 ^ 64 - 1 - identity.size)
    (.overflowError "generated prefix identity length overflows size_t")
  (List.range count).foldlM (fun identity _ => identity.appendOne ropeDelta) identity

/-- `truncate`. -/
def truncate (identity : ResidentPrefixIdentity) (tokens : ℕ) :
    Except Exception ResidentPrefixIdentity := do
  refuseIf (tokens > identity.size)
    (.outOfRange "cannot extend resident prefix identity by truncation")
  match prefixItemCount tokens identity.visionItems false with
  | none => .error (.logicError "resident prefix truncation divides a Vision item")
  | some retained =>
    return {
      tokenTypes := identity.tokenTypes.take tokens
      positions := fun axis => (identity.positions axis).take tokens
      visionItems := identity.visionItems.take retained
      shape := fun axis => by simp [identity.shape axis] }

end ResidentPrefixIdentity

end NInfer.Prefix
