import NInfer.Prefix.Identity

/-!
# The stored form of a prefix identity

`pack` and `unpack` (`prefix_identity.cpp`) store an identity next to the state it licenses, in host
memory and on disk: two counts, the token types, the three axes, and then the vision items, each
with its own counted timestamps and token spans.  `pack` fills a buffer of exactly `packed_bytes`
bytes.  `unpack` trusts nothing: it checks each count against the bytes that remain before it reads
the list, and refuses whatever is left over.

`encode` is the format as a byte string.  `pack_eq` and `unpack_eq_ok_iff` compare the two programs
with it, and `identity_codec` draws the conclusion: packing and unpacking are inverse to each other,
on the identities whose counts fit their 32 bits and on the byte strings that are accepted at all.
-/

namespace NInfer.Prefix

/-! ## Packing -/

/-- `Writer::bytes`. -/
def putBytes (data : List Byte) (w : Writer) : Except Exception Writer :=
  Writer.bytes data (.logicError "prefix identity pack overflow") w

/-- `Writer::u8`. -/
def putU8 (value : BitVec 8) : Writer → Except Exception Writer := putBytes (wordBytes 1 value)

/-- `Writer::u32` and `Writer::i32`. -/
def putU32 (value : BitVec 32) : Writer → Except Exception Writer := putBytes (wordBytes 4 value)

/-- `Writer::u64`. -/
def putU64 (value : BitVec 64) : Writer → Except Exception Writer := putBytes (wordBytes 8 value)

def packSpan (span : TokenSpan) (w : Writer) : Except Exception Writer := do
  let w ← putU64 span.begin w
  putU64 span.count w

/-- The body of the item loop of `pack`. -/
def packItem (item : VisionItem) (w : Writer) : Except Exception Writer := do
  let w ← putU8 item.modality w
  let w ← putU32 item.grid.temporal w
  let w ← putU32 item.grid.height w
  let w ← putU32 item.grid.width w
  let w ← putU64 item.patchBegin w
  let w ← putU64 item.patchCount w
  let w ← putBytes item.contentDigest.toList w
  let w ← putU32 (BitVec.ofNat 32 item.timestamps.length) w
  let w ← putBytes (item.timestamps.flatMap (wordBytes 8)) w
  let w ← putU32 (BitVec.ofNat 32 item.tokenSpans.length) w
  item.tokenSpans.foldlM (fun w span => packSpan span w) w

namespace ResidentPrefixIdentity

/-- `packed_bytes`. -/
def packedBytes (x : ResidentPrefixIdentity) : ℕ :=
  8 + x.tokenTypes.length + 3 * x.tokenTypes.length * 4 +
    (x.visionItems.map fun item =>
      1 + 12 + 16 + 32 + 4 + item.timestamps.length * 8 + 4 + item.tokenSpans.length * 16).sum

/-- The writes of `pack`. -/
def packInto (x : ResidentPrefixIdentity) (w : Writer) : Except Exception Writer := do
  let w ← putU32 (BitVec.ofNat 32 x.tokenTypes.length) w
  let w ← putU32 (BitVec.ofNat 32 x.visionItems.length) w
  let w ← putBytes x.tokenTypes w
  let w ← (List.finRange 3).foldlM
    (fun w axis => putBytes ((x.positions axis).flatMap (wordBytes 4)) w) w
  x.visionItems.foldlM (fun w item => packItem item w) w

/-- `pack`: the contents of the destination buffer. -/
def pack (x : ResidentPrefixIdentity) : Except Exception (List Byte) := do
  let w ← x.packInto { room := x.packedBytes }
  refuseIf (w.room ≠ 0) (.logicError "prefix identity pack size mismatch")
  return w.written

end ResidentPrefixIdentity

/-! ## Unpacking -/

def unpackOverflow : Exception := .logicError "prefix identity unpack overflow"

/-- `Reader::u8`. -/
def getU8 : Reader Exception (BitVec 8) := Reader.word 1 unpackOverflow

/-- `Reader::u32` and `Reader::i32`. -/
def getU32 : Reader Exception (BitVec 32) := Reader.word 4 unpackOverflow

/-- `Reader::u64`. -/
def getU64 : Reader Exception (BitVec 64) := Reader.word 8 unpackOverflow

/-- A counted list whose values take at least `least` bytes each: the count is compared with the
bytes that remain before anything is allocated. -/
def counted {α : Type} (d : Reader Exception α) (least : ℕ) (truncated : String)
    (count : BitVec 32) : Reader Exception (List.Vector α count.toNat) := do
  Reader.refuseIf (fun remain => count ≠ 0 ∧ remain / least < count.toNat) (.logicError truncated)
  Reader.many d count.toNat

def unpackSpan : Reader Exception TokenSpan := do
  let begin ← getU64
  let count ← getU64
  return ⟨begin, count⟩

/-- The body of the item loop of `unpack`. -/
def unpackItem : Reader Exception VisionItem := do
  let modality ← getU8
  let temporal ← getU32
  let height ← getU32
  let width ← getU32
  let patchBegin ← getU64
  let patchCount ← getU64
  let contentDigest ← Reader.bytes 32 unpackOverflow
  let timestampCount ← getU32
  let timestamps ← counted getU64 8 "prefix identity unpack timestamps are truncated" timestampCount
  let spanCount ← getU32
  let tokenSpans ←
    counted unpackSpan 16 "prefix identity unpack token spans are truncated" spanCount
  return ⟨modality, ⟨temporal, height, width⟩, patchBegin, patchCount, contentDigest,
    timestamps.toList, tokenSpans.toList⟩

/-- The token types and the three axes, for a given number of tokens. -/
structure TokenPayload (tokens : ℕ) where
  types : List.Vector Byte tokens
  axes : List.Vector (List.Vector (BitVec 32) tokens) 3

def unpackTokens (count : BitVec 32) : Reader Exception (TokenPayload count.toNat) := do
  let need := count.toNat + 3 * count.toNat * 4
  Reader.refuseIf
    (fun remain => (count ≠ 0 ∧ need / count.toNat ≠ 1 + 3 * 4) ∨ remain < need)
    (.logicError "prefix identity unpack token payload is truncated")
  let types ← Reader.bytes count.toNat unpackOverflow
  let axes ← Reader.many (Reader.many getU32 count.toNat) 3
  return ⟨types, axes⟩

/-- `kMinVisionItemBytes`. -/
def minVisionItemBytes : ℕ := 1 + 12 + 16 + 32 + 4 + 4

def unpackIdentity : Reader Exception ResidentPrefixIdentity := do
  let tokenCount ← getU32
  let itemCount ← getU32
  let tokens ← unpackTokens tokenCount
  let items ← counted unpackItem minVisionItemBytes
    "prefix identity unpack vision list is truncated" itemCount
  return {
    tokenTypes := tokens.types.toList
    positions := fun axis => (tokens.axes.get axis).toList
    visionItems := items.toList
    shape := fun axis => by simp }

/-- `unpack`. -/
def ResidentPrefixIdentity.unpack (bytes : List Byte) :
    Except Exception ResidentPrefixIdentity := do
  let (identity, rest) ← unpackIdentity bytes
  refuseIf (rest ≠ []) (.logicError "prefix identity unpack trailing bytes")
  return identity

/-! ## The format -/

def encodeSpan (span : TokenSpan) : List Byte := wordBytes 8 span.begin ++ wordBytes 8 span.count

def encodeItem (item : VisionItem) : List Byte :=
  wordBytes 1 item.modality ++ (wordBytes 4 item.grid.temporal ++ (wordBytes 4 item.grid.height ++
    (wordBytes 4 item.grid.width ++ (wordBytes 8 item.patchBegin ++ (wordBytes 8 item.patchCount ++
    (item.contentDigest.toList ++ (wordBytes 4 (BitVec.ofNat 32 item.timestamps.length) ++
    (item.timestamps.flatMap (wordBytes 8) ++
    (wordBytes 4 (BitVec.ofNat 32 item.tokenSpans.length) ++
    item.tokenSpans.flatMap encodeSpan)))))))))

namespace ResidentPrefixIdentity

def encode (x : ResidentPrefixIdentity) : List Byte :=
  wordBytes 4 (BitVec.ofNat 32 x.tokenTypes.length) ++
    (wordBytes 4 (BitVec.ofNat 32 x.visionItems.length) ++ (x.tokenTypes ++
    ((List.finRange 3).flatMap (fun axis => (x.positions axis).flatMap (wordBytes 4)) ++
    x.visionItems.flatMap encodeItem)))

end ResidentPrefixIdentity

lemma length_encodeSpan (span : TokenSpan) : (encodeSpan span).length = 16 := by
  simp [encodeSpan]

lemma length_encodeItem (item : VisionItem) : (encodeItem item).length =
    1 + 12 + 16 + 32 + 4 + item.timestamps.length * 8 + 4 + item.tokenSpans.length * 16 := by
  have htimestamps : (item.timestamps.flatMap (wordBytes 8)).length =
      item.timestamps.length * 8 := length_flatMap_of_const fun _ _ => length_wordBytes 8 _
  have hspans : (item.tokenSpans.flatMap encodeSpan).length = item.tokenSpans.length * 16 :=
    length_flatMap_of_const fun span _ => length_encodeSpan span
  simp only [encodeItem, List.length_append, length_wordBytes, List.Vector.toList_length]
  omega

lemma length_axes (x : ResidentPrefixIdentity) :
    ((List.finRange 3).flatMap fun axis => (x.positions axis).flatMap (wordBytes 4)).length =
      3 * (x.tokenTypes.length * 4) := by
  have haxis : ∀ axis, ((x.positions axis).flatMap (wordBytes 4)).length =
      x.tokenTypes.length * 4 := fun axis => by
    rw [length_flatMap_of_const fun _ _ => length_wordBytes 4 _, x.shape]
  rw [length_flatMap_of_const fun axis _ => haxis axis, List.length_finRange]

lemma length_encode (x : ResidentPrefixIdentity) : x.encode.length = x.packedBytes := by
  have hitems : (x.visionItems.flatMap encodeItem).length = (x.visionItems.map fun item =>
      1 + 12 + 16 + 32 + 4 + item.timestamps.length * 8 + 4 + item.tokenSpans.length * 16).sum := by
    rw [List.length_flatMap]
    simp only [length_encodeItem]
  simp only [ResidentPrefixIdentity.encode, ResidentPrefixIdentity.packedBytes, List.length_append,
    length_wordBytes, length_axes, hitems]
  omega

/-! ## Packing writes the format -/

lemma writes_putBytes (data : List Byte) : Writer.Writes (putBytes data) data :=
  Writer.writes_bytes data _

lemma writes_packSpan (span : TokenSpan) : Writer.Writes (packSpan span) (encodeSpan span) :=
  (writes_putBytes _).comp (writes_putBytes _)

lemma writes_packItem (item : VisionItem) : Writer.Writes (packItem item) (encodeItem item) :=
  (writes_putBytes _).comp <| (writes_putBytes _).comp <| (writes_putBytes _).comp <|
    (writes_putBytes _).comp <| (writes_putBytes _).comp <| (writes_putBytes _).comp <|
    (writes_putBytes _).comp <| (writes_putBytes _).comp <| (writes_putBytes _).comp <|
    (writes_putBytes _).comp (.forEach writes_packSpan item.tokenSpans)

lemma writes_packInto (x : ResidentPrefixIdentity) : Writer.Writes x.packInto x.encode :=
  (writes_putBytes _).comp <| (writes_putBytes _).comp <| (writes_putBytes _).comp <|
    (Writer.Writes.forEach (fun _ => writes_putBytes _) (List.finRange 3)).comp
      (.forEach writes_packItem x.visionItems)

/-- `pack` fills its buffer exactly. -/
lemma pack_eq (x : ResidentPrefixIdentity) : x.pack = .ok x.encode := by
  have hwrites := writes_packInto x { room := x.packedBytes } (length_encode x).le
  refine ok_bind_iff.mpr ⟨_, hwrites, refuseIf_bind_iff.mpr ⟨?_, ?_⟩⟩
  · rw [length_encode, Nat.sub_self]
    exact not_not.mpr rfl
  · exact ok_pure_iff.mpr (List.nil_append _)

/-! ## Unpacking reads the format -/

open Reader

lemma reads_counted {α : Type} {d : Reader Exception α} {encode : α → List Byte} {P : α → Prop}
    (hd : Reads d encode P) (least : ℕ) (hpos : 0 < least)
    (hleast : ∀ a, P a → least ≤ (encode a).length) (truncated : String) (count : BitVec 32) :
    Reads (counted d least truncated count) (fun values => values.toList.flatMap encode)
      fun values => ∀ a ∈ values.toList, P a := by
  refine (hd.many count.toNat).guarded fun values rest hvalues hrefused => ?_
  have hle := le_length_flatMap fun a ha => hleast a (hvalues a ha)
  rw [values.toList_length] at hle
  rw [List.length_append, Nat.div_lt_iff_lt_mul hpos] at hrefused
  omega

lemma reads_unpackSpan : Reads unpackSpan encodeSpan fun _ => True := by
  intro input span rest
  simp only [unpackSpan, getU64, run_bind_iff, reads_word _ _ _ _ _, run_pure_iff, true_and]
  constructor
  · rintro ⟨begin, mid, rfl, count, mid', rfl, rfl, rfl⟩
    exact (List.append_assoc ..).symm
  · rintro rfl
    exact ⟨span.begin, _, List.append_assoc .., span.count, _, rfl, rfl, rfl⟩

lemma toNat_ofNat_of_lt {n : ℕ} (hn : n < 2 ^ 32) : (BitVec.ofNat 32 n).toNat = n := by
  rw [BitVec.toNat_ofNat, Nat.mod_eq_of_lt hn]

/-- The counts of an item fit their words. -/
structure VisionItem.CountsFit (item : VisionItem) : Prop where
  timestamps : item.timestamps.length < 2 ^ 32
  tokenSpans : item.tokenSpans.length < 2 ^ 32

lemma reads_unpackItem : Reads unpackItem encodeItem VisionItem.CountsFit := by
  intro input item rest
  have htimestamps := reads_counted (reads_word 8 unpackOverflow) 8 (by decide)
    (fun x _ => (length_wordBytes 8 x).ge) "prefix identity unpack timestamps are truncated"
  have hspans := reads_counted reads_unpackSpan 16 (by decide)
    (fun x _ => (length_encodeSpan x).ge) "prefix identity unpack token spans are truncated"
  simp only [unpackItem, getU8, getU32, getU64, run_bind_iff, reads_word _ _ _ _ _,
    reads_bytes _ _ _ _ _, htimestamps _ _ _ _, hspans _ _ _ _, run_pure_iff, true_and]
  constructor
  · rintro ⟨modality, _, rfl, temporal, _, rfl, height, _, rfl, width, _, rfl, patchBegin, _, rfl,
      patchCount, _, rfl, digest, _, rfl, timestampCount, _, rfl, timestamps, _, ⟨-, rfl⟩,
      spanCount, _, rfl, spans, _, ⟨-, rfl⟩, rfl, rfl⟩
    refine ⟨⟨?_, ?_⟩, ?_⟩
    · rw [timestamps.toList_length]
      exact timestampCount.isLt
    · rw [spans.toList_length]
      exact spanCount.isLt
    · simp only [encodeItem, timestamps.toList_length, spans.toList_length, BitVec.ofNat_toNat,
        BitVec.setWidth_eq, List.append_assoc]
  · rintro ⟨hfit, rfl⟩
    have htimestampCount := toNat_ofNat_of_lt hfit.timestamps
    have hspanCount := toNat_ofNat_of_lt hfit.tokenSpans
    simp only [encodeItem, List.append_assoc]
    exact ⟨_, _, rfl, _, _, rfl, _, _, rfl, _, _, rfl, _, _, rfl, _, _, rfl, _, _, rfl, _, _, rfl,
      ⟨item.timestamps, htimestampCount.symm⟩, _, ⟨by simp, rfl⟩, _, _, rfl,
      ⟨item.tokenSpans, hspanCount.symm⟩, _, ⟨by simp, rfl⟩, rfl, rfl⟩

/-- The token part of the format. -/
def TokenPayload.encode {tokens : ℕ} (payload : TokenPayload tokens) : List Byte :=
  payload.types.toList ++ payload.axes.toList.flatMap fun axis => axis.toList.flatMap (wordBytes 4)

lemma TokenPayload.length_encode {tokens : ℕ} (payload : TokenPayload tokens) :
    payload.encode.length = tokens + 3 * (tokens * 4) := by
  have haxis : ∀ axis ∈ payload.axes.toList, (axis.toList.flatMap (wordBytes 4)).length =
      tokens * 4 := fun axis _ => by
    rw [length_flatMap_of_const fun _ _ => length_wordBytes 4 _, axis.toList_length]
  rw [encode, List.length_append, length_flatMap_of_const haxis, List.Vector.toList_length,
    List.Vector.toList_length]

lemma reads_unpackTokens (count : BitVec 32) :
    Reads (unpackTokens count) TokenPayload.encode fun _ => True := by
  refine Reads.guarded ?_ ?_
  · intro input payload rest
    simp only [run_bind_iff, reads_bytes _ _ _ _ _,
      ((reads_word 4 unpackOverflow).many count.toNat).many 3 _ _ _, getU32, run_pure_iff, true_and]
    constructor
    · rintro ⟨types, _, rfl, axes, _, ⟨-, rfl⟩, rfl, rfl⟩
      exact (List.append_assoc ..).symm
    · rintro rfl
      exact ⟨payload.types, _, List.append_assoc .., payload.axes, _, ⟨by simp, rfl⟩, rfl, rfl⟩
  · rintro payload rest - (⟨hne, hneed⟩ | hshort)
    · have hpos : 0 < count.toNat := by
        rw [Nat.pos_iff_ne_zero]
        exact fun h => hne (BitVec.eq_of_toNat_eq h)
      refine hneed ?_
      rw [show count.toNat + 3 * count.toNat * 4 = count.toNat * (1 + 3 * 4) by omega,
        Nat.mul_div_cancel_left _ hpos]
    · rw [List.length_append, payload.length_encode] at hshort
      omega

/-- All counts of an identity fit their words. -/
structure ResidentPrefixIdentity.CountsFit (x : ResidentPrefixIdentity) : Prop where
  tokens : x.tokenTypes.length < 2 ^ 32
  items : x.visionItems.length < 2 ^ 32
  counts : ∀ item ∈ x.visionItems, item.CountsFit

/-- The axes in the order they are stored. -/
lemma flatMap_axes {tokens : ℕ} (axes : List.Vector (List.Vector (BitVec 32) tokens) 3)
    (f : List.Vector (BitVec 32) tokens → List Byte) :
    axes.toList.flatMap f = (List.finRange 3).flatMap fun axis => f (axes.get axis) := by
  conv_lhs => rw [← List.Vector.ofFn_get axes]
  rw [List.Vector.toList_ofFn, List.ofFn_eq_map, List.flatMap_map]

lemma reads_unpackIdentity : Reads unpackIdentity ResidentPrefixIdentity.encode
    ResidentPrefixIdentity.CountsFit := by
  intro input x rest
  have hitems := reads_counted reads_unpackItem minVisionItemBytes (by decide)
    (fun item _ => by rw [length_encodeItem, minVisionItemBytes]; omega)
  simp only [unpackIdentity, getU32, run_bind_iff, reads_word _ _ _ _ _, reads_unpackTokens _ _ _ _,
    hitems _ _ _ _, run_pure_iff, true_and]
  constructor
  · rintro ⟨tokenCount, _, rfl, itemCount, _, rfl, tokens, _, rfl, items, _, ⟨hfit, rfl⟩, rfl, rfl⟩
    refine ⟨⟨?_, ?_, hfit⟩, ?_⟩
    · rw [tokens.types.toList_length]
      exact tokenCount.isLt
    · rw [items.toList_length]
      exact itemCount.isLt
    · simp only [ResidentPrefixIdentity.encode, TokenPayload.encode, tokens.types.toList_length,
        items.toList_length, BitVec.ofNat_toNat, BitVec.setWidth_eq, List.append_assoc,
          flatMap_axes]
  · rintro ⟨hfit, rfl⟩
    have htokens := toNat_ofNat_of_lt hfit.tokens
    have hitems := toNat_ofNat_of_lt hfit.items
    simp only [ResidentPrefixIdentity.encode, List.append_assoc]
    refine ⟨_, _, rfl, _, _, rfl, ⟨⟨x.tokenTypes, htokens.symm⟩, .ofFn fun axis =>
      ⟨x.positions axis, (x.shape axis).trans htokens.symm⟩⟩, _, ?_,
      ⟨x.visionItems, hitems.symm⟩, _, ⟨hfit.counts, rfl⟩, ?_, rfl⟩
    · simp only [TokenPayload.encode, List.append_assoc]
      rfl
    · refine ResidentPrefixIdentity.ext rfl (funext fun axis => ?_) rfl
      exact congrArg List.Vector.toList (List.Vector.get_ofFn _ axis)

lemma unpack_eq_ok_iff {bytes : List Byte} {x : ResidentPrefixIdentity} :
    ResidentPrefixIdentity.unpack bytes = .ok x ↔ x.CountsFit ∧ bytes = x.encode := by
  have hread := reads_unpackIdentity bytes
  unfold ResidentPrefixIdentity.unpack
  rw [ok_bind_iff]
  constructor
  · rintro ⟨⟨y, rest⟩, hy, h⟩
    obtain ⟨hrest, h⟩ := refuseIf_bind_iff.mp h
    obtain rfl := ok_pure_iff.mp h
    obtain ⟨hfit, hbytes⟩ := (hread _ _).mp hy
    rw [not_not.mp hrest, List.append_nil] at hbytes
    exact ⟨hfit, hbytes⟩
  · rintro ⟨hfit, hbytes⟩
    refine ⟨(x, []), (hread _ _).mpr ⟨hfit, by rwa [List.append_nil]⟩, ?_⟩
    exact refuseIf_bind_iff.mpr ⟨not_not.mpr rfl, rfl⟩

/-- **The identity codec.**  Packing fills exactly the bytes it announces, and unpacking them gives
the identity back if its counts fit their words.  Unpacking accepts a byte string only if it is the
packed form of the identity it returns, so no two byte strings unpack to the same identity and
nothing truncated or extended is accepted. -/
theorem identity_codec :
    (∀ x : ResidentPrefixIdentity, ∃ bytes, x.pack = .ok bytes ∧ bytes.length = x.packedBytes ∧
      (x.CountsFit → ResidentPrefixIdentity.unpack bytes = .ok x)) ∧
    (∀ bytes x, ResidentPrefixIdentity.unpack bytes = .ok x → x.CountsFit ∧ x.pack = .ok bytes) ∧
    ∀ bytes bytes' x, ResidentPrefixIdentity.unpack bytes = .ok x →
      ResidentPrefixIdentity.unpack bytes' = .ok x → bytes = bytes' := by
  refine ⟨fun x => ⟨x.encode, pack_eq x, length_encode x, fun hfit => ?_⟩, fun bytes x h => ?_,
    fun bytes bytes' x h h' => ?_⟩
  · exact unpack_eq_ok_iff.mpr ⟨hfit, rfl⟩
  · obtain ⟨hfit, rfl⟩ := unpack_eq_ok_iff.mp h
    exact ⟨hfit, pack_eq x⟩
  · rw [(unpack_eq_ok_iff.mp h).2, (unpack_eq_ok_iff.mp h').2]

/-- Four tokens, the middle two of them an image. -/
def oneImage : ResidentPrefixIdentity where
  tokenTypes := [0, 1, 1, 0]
  positions := fun _ => [0, 1, 2, 3]
  visionItems := [⟨1, ⟨1, 2, 2⟩, 0, 4, List.Vector.replicate 32 7, [], [⟨1, 2⟩]⟩]
  shape := fun _ => rfl

theorem identity_codec_oneImage : ∃ bytes, oneImage.pack = .ok bytes ∧ bytes.length = 145 ∧
    ResidentPrefixIdentity.unpack bytes = .ok oneImage := by
  obtain ⟨bytes, hpack, hlength, hunpack⟩ := identity_codec.1 oneImage
  refine ⟨bytes, hpack, hlength, hunpack ⟨by decide, by decide, fun item hitem => ?_⟩⟩
  rw [List.mem_singleton.mp hitem]
  exact ⟨by decide, by decide⟩

end NInfer.Prefix
