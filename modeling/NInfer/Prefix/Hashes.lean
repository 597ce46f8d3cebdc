import NInfer.Prefix.Identity

/-!
# Prefix hashes and their cache

Every prefix of a resident ledger has a 128-bit hash over the tokens, their types and positions, and
the vision items that end inside it.  `extend_hash` is the one recurrence that computes it: it walks
the tokens and carries a cursor into the item list, mixing an item in at the token where it ends.
Its callers differ in where they start.  `prefix_hash_chain` and `prefix_hash_at` start from
nothing; `ResidentPrefixHashes` keeps the values it has already computed and starts at the last of
them, with the cursor `item_cursor_after` says the walk has there.

The cursor is the delicate part, because the class accepts any item list: items without tokens are
passed over, an item that ends before the cursor reaches it holds the cursor for good, and several
items may end at one token.  `scratch_cursor` shows that `item_cursor_after` is right for every
list, so that a walk can be resumed anywhere (`extendHash_scratch`).

The cache is allowed to stay while its owner appends, and is cut before the owner changes anything
behind the cut.  `Op` are the owner's operations under that contract.
-/

namespace NInfer.Prefix

open ResidentPrefixIdentity

structure PrefixHash128 where
  lo : BitVec 64
  hi : BitVec 64
  deriving DecidableEq

/-! ## Mixing -/

/-- `kFnvPrime64`. -/
def fnvPrime64 : BitVec 64 := 1099511628211

/-- `kFnvOffset64`. -/
def fnvOffset64 : BitVec 64 := 14695981039346656037

/-- `kChain1Xor`. -/
def chain1Xor : BitVec 64 := 0xA5A5A5A5A5A5A5A5

/-- `initial_hash`. -/
def initialHash : PrefixHash128 := ⟨fnvOffset64, fnvOffset64 ^^^ chain1Xor⟩

/-- `mix_u8`. -/
def mixU8 (hash : PrefixHash128) (byte : Byte) : PrefixHash128 :=
  ⟨(hash.lo ^^^ byte.zeroExtend 64) * fnvPrime64, (hash.hi ^^^ byte.zeroExtend 64) * fnvPrime64⟩

/-- `mix_bytes`. -/
def mixBytes (hash : PrefixHash128) (bytes : List Byte) : PrefixHash128 := bytes.foldl mixU8 hash

/-- `mix_le32` and `mix_i32`. -/
def mixLe32 (hash : PrefixHash128) (value : BitVec 32) : PrefixHash128 :=
  mixBytes hash (wordBytes 4 value)

/-- `mix_le64` and `mix_f64`. -/
def mixLe64 (hash : PrefixHash128) (value : BitVec 64) : PrefixHash128 :=
  mixBytes hash (wordBytes 8 value)

/-- `mix_token`. -/
def mixToken (hash : PrefixHash128) (token : BitVec 32) (type : Byte) (p0 p1 p2 : BitVec 32) :
    PrefixHash128 :=
  mixLe32 (mixLe32 (mixLe32 (mixU8 (mixLe32 hash token) type) p0) p1) p2

/-- `mix_vision_item`. -/
def mixVisionItem (hash : PrefixHash128) (item : VisionItem) : PrefixHash128 :=
  let hash := mixU8 hash item.modality
  let hash := mixLe32 hash item.grid.temporal
  let hash := mixLe32 hash item.grid.height
  let hash := mixLe32 hash item.grid.width
  let hash := mixLe64 hash item.patchBegin
  let hash := mixLe64 hash item.patchCount
  let hash := mixBytes hash item.contentDigest.toList
  let hash := mixLe32 hash (BitVec.ofNat 32 item.timestamps.length)
  let hash := item.timestamps.foldl mixLe64 hash
  let hash := mixLe32 hash (BitVec.ofNat 32 item.tokenSpans.length)
  item.tokenSpans.foldl (fun hash span => mixLe64 (mixLe64 hash span.begin) span.count) hash

/-! ## The recurrence -/

/-- `HashInputs`: arrays are read by index. -/
structure HashInputs where
  tokens : ℕ → BitVec 32
  types : ℕ → Byte
  axis : Fin 3 → ℕ → BitVec 32
  items : List VisionItem

/-- The loop of `item_cursor_after`, from an item reached at token `arrived` on. -/
def itemsPassed (count : ℕ) : ℕ → List VisionItem → ℕ
  | _, [] => 0
  | arrived, item :: items =>
    if item.tokenSpans = [] then itemsPassed count arrived items + 1
    else if itemEnd item < arrived ∨ itemEnd item > count then 0
    else itemsPassed count (itemEnd item) items + 1

/-- `item_cursor_after`. -/
def itemCursorAfter (items : List VisionItem) (count : ℕ) : ℕ :=
  if count = 0 then 0 else itemsPassed count 1 items

/-- The item loop of `extend_hash` behind token `k - 1`: the hash, and the items it passes. -/
def mixItems (k : ℕ) : List VisionItem → PrefixHash128 → PrefixHash128 × ℕ
  | [], hash => (hash, 0)
  | item :: items, hash =>
    if item.tokenSpans = [] then
      let passed := mixItems k items hash
      (passed.1, passed.2 + 1)
    else if itemEnd item ≠ k then (hash, 0)
    else
      let passed := mixItems k items (mixVisionItem hash item)
      (passed.1, passed.2 + 1)

/-- The walk of `extend_hash` between two tokens. -/
structure Walk where
  hash : PrefixHash128
  itemCursor : ℕ

/-- One iteration of `extend_hash`, for token `i`. -/
def hashToken (inputs : HashInputs) (walk : Walk) (i : ℕ) : Walk :=
  let hash := mixToken walk.hash (inputs.tokens i) (inputs.types i) (inputs.axis 0 i)
    (inputs.axis 1 i) (inputs.axis 2 i)
  let passed := mixItems (i + 1) (inputs.items.drop walk.itemCursor) hash
  ⟨passed.1, walk.itemCursor + passed.2⟩

/-- The loop of `extend_hash` over `count` tokens from token `i` on: the last hash, and all hashes
given to the sink. -/
def hashTokens (inputs : HashInputs) : ℕ → ℕ → Walk → PrefixHash128 × List PrefixHash128
  | 0, _, walk => (walk.hash, [])
  | count + 1, i, walk =>
    let next := hashToken inputs walk i
    let rest := hashTokens inputs count (i + 1) next
    (rest.1, next.hash :: rest.2)

/-- `extend_hash`. -/
def extendHash (hash : PrefixHash128) (inputs : HashInputs) (first last : ℕ) :
    PrefixHash128 × List PrefixHash128 :=
  hashTokens inputs (last - first) first ⟨hash, itemCursorAfter inputs.items first⟩

/-- `resident_inputs`. -/
def residentInputs (tokens : List (BitVec 32)) (identity : ResidentPrefixIdentity) :
    HashInputs where
  tokens i := tokens.getD i 0
  types i := identity.tokenTypes.getD i 0
  axis a i := (identity.positions a).getD i 0
  items := identity.visionItems

/-- The inputs `prefix_hash_chain` takes from a prompt. -/
def promptInputs (prompt : PreparedPrompt) : HashInputs where
  tokens i := prompt.tokenIds.getD i 0
  types i := prompt.tokenTypes.getD i 0
  axis a i := prompt.positions.getD (a * prompt.tokenIds.length + i) 0
  items := prompt.visionItems

/-- `prefix_hash_chain`. -/
def prefixHashChain (prompt : PreparedPrompt) : Except Exception (List PrefixHash128) := do
  let tokens := prompt.tokenIds.length
  refuseIf (prompt.tokenTypes.length ≠ tokens ∨ prompt.positions.length ≠ 3 * tokens)
    (.invalidArgument "prepared prompt identity metadata has an invalid shape")
  return initialHash :: (extendHash initialHash (promptInputs prompt) 0 tokens).2

/-- `prefix_hash_at`. -/
def prefixHashAt (tokens : List (BitVec 32)) (identity : ResidentPrefixIdentity) (count : ℕ) :
    Except Exception PrefixHash128 := do
  refuseIf (count > tokens.length ∨ count > identity.size)
    (.outOfRange "prefix hash count exceeds resident identity")
  return (extendHash initialHash (residentInputs tokens identity) 0 count).1

/-! ## The cache and its owner -/

namespace ResidentPrefixHashes

/-- `ResidentPrefixHashes::assign`. -/
def assign (chain : List PrefixHash128) : Except Exception (List PrefixHash128) := do
  refuseIf (chain.head? ≠ some initialHash)
    (.invalidArgument "resident prefix hashes must start at the empty prefix")
  return chain

/-- `ResidentPrefixHashes::truncate`. -/
def truncate (hashes : List PrefixHash128) (tokens : ℕ) : List PrefixHash128 :=
  if tokens + 1 < hashes.length then hashes.take (tokens + 1) else hashes

/-- The value `at` returns and the cache it leaves: `ResidentPrefixHashes::at`. -/
def valueAt (hashes : List PrefixHash128) (tokens : List (BitVec 32))
    (identity : ResidentPrefixIdentity) (count : ℕ) :
    Except Exception (PrefixHash128 × List PrefixHash128) := do
  refuseIf (count > tokens.length ∨ count > identity.size)
    (.outOfRange "prefix hash count exceeds resident identity")
  match hashes[count]? with
  | some hash => return (hash, hashes)
  | none =>
    let hashes := if hashes = [] then [initialHash] else hashes
    let first := hashes.length - 1
    let extended := extendHash (hashes.getLast?.getD initialHash) (residentInputs tokens identity)
      first count
    return (extended.1, hashes ++ extended.2)

end ResidentPrefixHashes

/-- A resident sequence as its prefix hashes see it. -/
structure Resident where
  ledger : List (BitVec 32) := []
  identity : ResidentPrefixIdentity := {}
  hashes : List PrefixHash128 := []

/-- What the owner of a ledger, an identity and their hashes may do. -/
inductive Op where
  | at (count : ℕ)
  /-- Clear the hashes, and hold any sequence from then on. -/
  | replace (ledger : List (BitVec 32)) (identity : ResidentPrefixIdentity)
  /-- Take over a prompt together with its hash chain. -/
  | assign (prompt : PreparedPrompt)
  /-- Cut everything back to `tokens` tokens. -/
  | truncate (tokens : ℕ)
  /-- Append decoded tokens, which needs no notice. -/
  | append (tokens : List (BitVec 32)) (ropeDelta : BitVec 32)
  /-- Replace the ledger from a token on, once the hashes are cut there. -/
  | rewrite (first : ℕ) (tokens : List (BitVec 32))

namespace Resident

def step (r : Resident) : Op → Except Exception Resident
  | .at count => do
    let (_, hashes) ← ResidentPrefixHashes.valueAt r.hashes r.ledger r.identity count
    return { r with hashes }
  | .replace ledger identity => return ⟨ledger, identity, []⟩
  | .assign prompt => do
    let chain ← prefixHashChain prompt
    let identity ← assign prompt
    let hashes ← ResidentPrefixHashes.assign chain
    return ⟨prompt.tokenIds, identity, hashes⟩
  | .truncate tokens => do
    let identity ← r.identity.truncate tokens
    return ⟨r.ledger.take tokens, identity, ResidentPrefixHashes.truncate r.hashes tokens⟩
  | .append tokens ropeDelta => do
    let identity ← r.identity.appendGenerated tokens.length ropeDelta
    return { r with ledger := r.ledger ++ tokens, identity }
  | .rewrite first tokens => return { r with
      ledger := r.ledger.take first ++ tokens
      hashes := ResidentPrefixHashes.truncate r.hashes first }

def run (r : Resident) (ops : List Op) : Except Exception Resident := ops.foldlM step r

end Resident

/-! ## The cursor of the walk -/

lemma mixItems_passed (k : ℕ) (items : List VisionItem) (hash : PrefixHash128) :
    (mixItems k items hash).2 = itemsPassed k k items := by
  induction items generalizing hash with
  | nil => rfl
  | cons item items ih =>
    by_cases hempty : item.tokenSpans = []
    · simp [mixItems, itemsPassed, hempty, ih]
    · by_cases hend : itemEnd item = k
      · simp [mixItems, itemsPassed, hempty, hend, ih]
      · simp [mixItems, itemsPassed, hempty, hend]

/-- A walk that has come to token `count` passes, at the next token, the items that a walk of one
token more would have passed. -/
lemma itemsPassed_succ (count : ℕ) {arrived : ℕ} (harrived : arrived ≤ count + 1)
    (items : List VisionItem) :
    itemsPassed (count + 1) arrived items =
      itemsPassed count arrived items +
        itemsPassed (count + 1) (count + 1) (items.drop (itemsPassed count arrived items)) := by
  induction items generalizing arrived with
  | nil => rfl
  | cons item items ih =>
    by_cases hempty : item.tokenSpans = []
    · simp only [itemsPassed, hempty, if_true, List.drop_succ_cons]
      rw [ih harrived]
      omega
    · by_cases hpassed : arrived ≤ itemEnd item ∧ itemEnd item ≤ count
      · have hstops : ¬(itemEnd item < arrived ∨ itemEnd item > count) := by omega
        have hstops' : ¬(itemEnd item < arrived ∨ itemEnd item > count + 1) := by omega
        simp only [itemsPassed, hempty, hstops, hstops', if_false, List.drop_succ_cons]
        rw [ih (show itemEnd item ≤ count + 1 by omega)]
        omega
      · have hstops : itemEnd item < arrived ∨ itemEnd item > count := by omega
        -- The item holds the shorter walk, so both walks stand before it; the longer one passes it
        -- exactly if it ends at the next token.
        simp only [itemsPassed, hempty, hstops, if_true, if_false, List.drop_zero]
        by_cases hend : itemEnd item = count + 1
        · simp [hend, harrived]
        · have h₁ : itemEnd item < arrived ∨ itemEnd item > count + 1 := by omega
          have h₂ : itemEnd item < count + 1 ∨ itemEnd item > count + 1 := by omega
          simp only [h₁, h₂, if_true]

/-- The walk from nothing over the first `k` tokens. -/
def scratch (inputs : HashInputs) : ℕ → Walk
  | 0 => ⟨initialHash, 0⟩
  | k + 1 => hashToken inputs (scratch inputs k) k

lemma scratch_cursor (inputs : HashInputs) (k : ℕ) :
    (scratch inputs k).itemCursor = itemCursorAfter inputs.items k := by
  induction k with
  | zero => rfl
  | succ k ih =>
    simp only [scratch, hashToken, mixItems_passed, ih]
    by_cases hk : k = 0
    · simp [hk, itemCursorAfter]
    · simp only [itemCursorAfter, hk]
      exact (itemsPassed_succ k (by omega) inputs.items).symm

lemma hashTokens_scratch (inputs : HashInputs) (count i : ℕ) :
    hashTokens inputs count i (scratch inputs i) =
      ((scratch inputs (i + count)).hash,
        (List.range' (i + 1) count).map fun k => (scratch inputs k).hash) := by
  induction count generalizing i with
  | zero => rfl
  | succ count ih =>
    have hnext : hashToken inputs (scratch inputs i) i = scratch inputs (i + 1) := rfl
    simp only [hashTokens, hnext, ih, List.range'_succ, List.map_cons]
    rw [show i + 1 + count = i + (count + 1) by omega]

/-- Extending a from-scratch hash is the from-scratch walk, wherever it resumes. -/
lemma extendHash_scratch (inputs : HashInputs) {first last : ℕ} (h : first ≤ last) :
    extendHash (scratch inputs first).hash inputs first last =
      ((scratch inputs last).hash,
        (List.range' (first + 1) (last - first)).map fun k => (scratch inputs k).hash) := by
  have hwalk : (⟨(scratch inputs first).hash, itemCursorAfter inputs.items first⟩ : Walk) =
      scratch inputs first := by
    rw [← scratch_cursor]
  rw [extendHash, hwalk, hashTokens_scratch, Nat.add_sub_cancel' h]

/-- The hashes of the first `count` tokens, the empty prefix included. -/
def scratchHashes (inputs : HashInputs) (count : ℕ) : List PrefixHash128 :=
  (List.range (count + 1)).map fun k => (scratch inputs k).hash

lemma scratchHashes_append (inputs : HashInputs) {first last : ℕ} (h : first ≤ last) :
    scratchHashes inputs first ++ (extendHash (scratch inputs first).hash inputs first last).2 =
      scratchHashes inputs last := by
  rw [extendHash_scratch inputs h, scratchHashes, scratchHashes, ← List.map_append,
    List.range_eq_range', List.range_eq_range']
  have happend := List.range'_append_1 (s := 0) (m := first + 1) (n := last - first)
  rw [Nat.zero_add, show first + 1 + (last - first) = last + 1 by omega] at happend
  rw [happend]

/-! ## Which inputs a hash depends on -/

/-- The items of `rest` end behind the first `count` tokens. -/
def Behind (count : ℕ) (rest : List VisionItem) : Prop :=
  ∀ item ∈ rest, item.tokenSpans ≠ [] ∧ count < itemEnd item

/-- `inputs` and `cut` agree on the first `count` tokens, and `cut` has lost only items behind
them. -/
structure AgreeBelow (count : ℕ) (inputs cut : HashInputs) : Prop where
  tokens : ∀ i < count, inputs.tokens i = cut.tokens i
  types : ∀ i < count, inputs.types i = cut.types i
  axis : ∀ a, ∀ i < count, inputs.axis a i = cut.axis a i
  items : ∃ rest, inputs.items = cut.items ++ rest ∧ Behind count rest

variable {count : ℕ} {inputs : HashInputs} {identity : ResidentPrefixIdentity}

variable {cut : HashInputs} {identity' : ResidentPrefixIdentity} {prompt : PreparedPrompt} {k : ℕ}

lemma mixItems_append_behind (hk : k ≤ count) {rest : List VisionItem} (hrest : Behind count rest)
    (items : List VisionItem) (hash : PrefixHash128) :
    mixItems k (items ++ rest) hash = mixItems k items hash := by
  induction items generalizing hash with
  | nil =>
    match rest with
    | [] => rfl
    | item :: rest =>
      obtain ⟨hspans, hend⟩ := hrest item (by simp)
      simp [mixItems, hspans, show itemEnd item ≠ k by omega]
  | cons item items ih => simp only [List.cons_append, mixItems, ih]

lemma mixItems_le_length (k : ℕ) (items : List VisionItem) (hash : PrefixHash128) :
    (mixItems k items hash).2 ≤ items.length := by
  induction items generalizing hash with
  | nil => exact Nat.le_refl 0
  | cons item items ih =>
    simp only [mixItems]
    split_ifs with hempty hend
    · exact Nat.succ_le_succ (ih hash)
    · exact Nat.zero_le _
    · exact Nat.succ_le_succ (ih _)

lemma scratch_cursor_le (inputs : HashInputs) (k : ℕ) :
    (scratch inputs k).itemCursor ≤ inputs.items.length := by
  induction k with
  | zero => exact Nat.zero_le _
  | succ k ih =>
    have hpassed := mixItems_le_length (k + 1)
      (inputs.items.drop (scratch inputs k).itemCursor)
      (mixToken (scratch inputs k).hash (inputs.tokens k) (inputs.types k) (inputs.axis 0 k)
        (inputs.axis 1 k) (inputs.axis 2 k))
    rw [List.length_drop] at hpassed
    simp only [scratch, hashToken]
    omega

lemma AgreeBelow.scratch (h : AgreeBelow count inputs cut) (hk : k ≤ count) :
    scratch inputs k = scratch cut k := by
  induction k with
  | zero => rfl
  | succ k ih =>
    obtain ⟨rest, hitems, hrest⟩ := h.items
    have hcursor := scratch_cursor_le cut k
    simp only [Prefix.scratch, hashToken, ih (by omega), h.tokens k hk, h.types k hk,
      h.axis _ k hk, hitems, List.drop_append_of_le_length hcursor,
      mixItems_append_behind hk hrest]

lemma AgreeBelow.of_items (htokens : ∀ i < count, inputs.tokens i = cut.tokens i)
    (htypes : ∀ i < count, inputs.types i = cut.types i)
    (haxis : ∀ a, ∀ i < count, inputs.axis a i = cut.axis a i) (hitems : inputs.items = cut.items) :
    AgreeBelow count inputs cut :=
  ⟨htokens, htypes, haxis, [], by rw [hitems, List.append_nil], by simp [Behind]⟩

lemma AgreeBelow.scratchHashes (h : AgreeBelow count inputs cut) :
    scratchHashes inputs count = scratchHashes cut count := by
  refine List.map_congr_left fun k hk => ?_
  rw [h.scratch (Nat.lt_succ_iff.mp (List.mem_range.mp hk))]

lemma AgreeBelow.mono {count' : ℕ} (h : AgreeBelow count inputs cut) (hle : count' ≤ count) :
    AgreeBelow count' inputs cut where
  tokens i hi := h.tokens i (by omega)
  types i hi := h.types i (by omega)
  axis a i hi := h.axis a i (by omega)
  items := by
    obtain ⟨rest, hitems, hrest⟩ := h.items
    refine ⟨rest, hitems, fun item hitem => ?_⟩
    obtain ⟨hspans, hend⟩ := hrest item hitem
    exact ⟨hspans, by omega⟩

/-! ## What the identity's operations leave alone -/

lemma prefixItemCount_behind {tokens : ℕ} {items : List VisionItem} {sawSuffix : Bool} {n : ℕ}
    (h : prefixItemCount tokens items sawSuffix = some n) :
    (sawSuffix = true → n = 0) ∧ Behind tokens (items.drop n) := by
  induction items generalizing sawSuffix n with
  | nil =>
    simp only [prefixItemCount, Option.some.injEq] at h
    simp [← h, Behind]
  | cons item items ih =>
    simp only [prefixItemCount] at h
    split at h
    · next first last hfirst hlast =>
      have hspans : item.tokenSpans ≠ [] := by
        intro hnil
        simp [hnil] at hfirst
      have hend : itemEnd item = (last.begin + last.count).toNat := by simp [itemEnd, hlast]
      split_ifs at h with hbad hinside hsaw hbehind
      · obtain ⟨m, hm, rfl⟩ := Option.map_eq_some_iff.mp h
        exact ⟨fun hsuffix => absurd hsuffix hsaw, (ih hm).2⟩
      · -- Once an item lies behind the cut the count stays zero, so all later items do too.
        obtain ⟨hzero, hrest⟩ := ih h
        obtain rfl := hzero rfl
        refine ⟨fun _ => rfl, fun item' hitem' => ?_⟩
        rcases List.mem_cons.mp hitem' with rfl | hitem'
        · exact ⟨hspans, by omega⟩
        · exact hrest item' hitem'
    · simp at h

namespace ResidentPrefixIdentity

variable {identity' : ResidentPrefixIdentity}

lemma truncate_spec {tokens : ℕ} (h : identity.truncate tokens = .ok identity') :
    tokens ≤ identity.size ∧ identity'.tokenTypes = identity.tokenTypes.take tokens ∧
      (∀ axis, identity'.positions axis = (identity.positions axis).take tokens) ∧
      ∃ rest, identity.visionItems = identity'.visionItems ++ rest ∧ Behind tokens rest := by
  obtain ⟨hsize, h⟩ := refuseIf_bind_iff.mp h
  cases hcount : prefixItemCount tokens identity.visionItems false with
  | none =>
    rw [hcount] at h
    cases h
  | some retained =>
    rw [hcount] at h
    obtain rfl := ok_pure_iff.mp h
    exact ⟨by omega, rfl, fun _ => rfl, identity.visionItems.drop retained,
      (List.take_append_drop _ _).symm, (prefixItemCount_behind hcount).2⟩

/-- `x` is `identity` with generated tokens appended. -/
def Appended (identity x : ResidentPrefixIdentity) : Prop :=
  identity.tokenTypes <+: x.tokenTypes ∧ (∀ axis, identity.positions axis <+: x.positions axis) ∧
    x.visionItems = identity.visionItems

lemma appendGenerated_appended {ropeDelta : BitVec 32}
    (h : identity.appendGenerated count ropeDelta = .ok identity') :
    identity.Appended identity' := by
  obtain ⟨-, h⟩ := refuseIf_bind_iff.mp h
  refine foldlM_ok_induction (P := identity.Appended) ?_
    ⟨List.prefix_rfl, fun _ => List.prefix_rfl, rfl⟩ h
  rintro x _ x' ⟨htypes, hpositions, hitems⟩ hx
  obtain ⟨-, hx⟩ := refuseIf_bind_iff.mp hx
  obtain ⟨-, hx⟩ := refuseIf_bind_iff.mp hx
  obtain rfl := ok_pure_iff.mp hx
  exact ⟨htypes.trans (List.prefix_append _ _),
    fun axis => (hpositions axis).trans (List.prefix_append _ _), hitems⟩

lemma assign_spec {prompt : PreparedPrompt} (h : assign prompt = .ok identity) :
    ¬(prompt.tokenTypes.length ≠ prompt.tokenIds.length ∨
        prompt.positions.length ≠ 3 * prompt.tokenIds.length) ∧
      identity.tokenTypes = prompt.tokenTypes ∧
      identity.positions = promptAxis prompt.positions prompt.tokenIds.length ∧
      identity.visionItems = prompt.visionItems := by
  unfold assign at h
  split at h
  · cases h
  · next hshape =>
    obtain rfl := Except.ok.inj h
    exact ⟨hshape, rfl, rfl, rfl⟩

end ResidentPrefixIdentity

lemma getD_take_of_lt {α : Type} {l : List α} {n i : ℕ} (hi : i < n) (a : α) :
    (l.take n).getD i a = l.getD i a := by
  rw [List.getD_eq_getElem?_getD, List.getD_eq_getElem?_getD, List.getElem?_take_of_lt hi]

lemma getD_eq_of_extends {α : Type} {l l' : List α} (h : l <+: l') {i : ℕ} (hi : i < l.length)
    (a : α) : l.getD i a = l'.getD i a := by
  obtain ⟨rest, rfl⟩ := h
  rw [List.getD_eq_getElem?_getD, List.getD_eq_getElem?_getD, List.getElem?_append_left hi]

/-- A cut of the resident sequence keeps the hashes up to the cut. -/
lemma agreeBelow_truncate {ledger : List (BitVec 32)} {tokens : ℕ}
    (h : identity.truncate tokens = .ok identity') :
    AgreeBelow tokens (residentInputs ledger identity)
      (residentInputs (ledger.take tokens) identity') := by
  obtain ⟨-, htypes, hpositions, hitems⟩ := truncate_spec h
  refine ⟨fun i hi => (getD_take_of_lt hi _).symm, fun i hi => ?_, fun a i hi => ?_, hitems⟩
  · simp only [residentInputs, htypes, getD_take_of_lt hi]
  · simp only [residentInputs, hpositions, getD_take_of_lt hi]

/-- Appending keeps the hashes of what was there. -/
lemma agreeBelow_append {ledger tokens : List (BitVec 32)} (h : identity.Appended identity')
    (hledger : count ≤ ledger.length) (hsize : count ≤ identity.size) :
    AgreeBelow count (residentInputs ledger identity)
      (residentInputs (ledger ++ tokens) identity') := by
  obtain ⟨htypes, hpositions, hitems⟩ := h
  refine .of_items (fun i hi => ?_) (fun i hi => ?_) (fun a i hi => ?_) hitems.symm
  · exact getD_eq_of_extends (List.prefix_append _ _) (by omega) _
  · exact getD_eq_of_extends htypes (by rw [size] at hsize; omega) _
  · refine getD_eq_of_extends (hpositions a) ?_ _
    rw [identity.shape a]
    rw [size] at hsize
    omega

/-- A prompt and the resident sequence taken from it are the same inputs. -/
lemma agreeBelow_assign (h : assign prompt = .ok identity) :
    AgreeBelow prompt.tokenIds.length (promptInputs prompt)
      (residentInputs prompt.tokenIds identity) := by
  obtain ⟨-, htypes, hpositions, hitems⟩ := assign_spec h
  refine .of_items (fun _ _ => rfl) (fun i _ => ?_) (fun a i hi => ?_) hitems.symm
  · simp only [promptInputs, residentInputs, htypes]
  · simp only [promptInputs, residentInputs, hpositions, promptAxis,
      getD_take_of_lt hi]
    rw [List.getD_eq_getElem?_getD, List.getD_eq_getElem?_getD, List.getElem?_drop]

/-! ## Coherence -/

/-- The cached hashes are those of the first prefixes of the resident sequence. -/
def Resident.Coherent (r : Resident) : Prop :=
  r.hashes = [] ∨ ∃ count, count ≤ r.ledger.length ∧ count ≤ r.identity.size ∧
    r.hashes = scratchHashes (residentInputs r.ledger r.identity) count

lemma length_scratchHashes (inputs : HashInputs) (count : ℕ) :
    (scratchHashes inputs count).length = count + 1 := by
  simp [scratchHashes]

lemma scratchHashes_getElem? (inputs : HashInputs) (hk : k ≤ count) :
    (scratchHashes inputs count)[k]? = some (scratch inputs k).hash := by
  simp [scratchHashes, Nat.lt_succ_of_le hk]

lemma truncate_scratchHashes (inputs : HashInputs) (count tokens : ℕ) :
    ResidentPrefixHashes.truncate (scratchHashes inputs count) tokens =
      scratchHashes inputs (min tokens count) := by
  unfold ResidentPrefixHashes.truncate
  rw [length_scratchHashes]
  split_ifs with hlt
  · rw [min_eq_left (by omega), scratchHashes, scratchHashes, ← List.map_take, List.take_range,
      min_eq_left (by omega)]
  · rw [min_eq_right (by omega)]

lemma prefixHashAt_eq {tokens : List (BitVec 32)} (hledger : k ≤ tokens.length)
    (hsize : k ≤ identity.size) :
    prefixHashAt tokens identity k = .ok (scratch (residentInputs tokens identity) k).hash := by
  refine refuseIf_bind_iff.mpr ⟨by omega, ?_⟩
  have hextend := extendHash_scratch (residentInputs tokens identity) (Nat.zero_le k)
  exact congrArg (fun result => Except.ok result.1) hextend

lemma prefixHashChain_eq
    (hshape : ¬(prompt.tokenTypes.length ≠ prompt.tokenIds.length ∨
      prompt.positions.length ≠ 3 * prompt.tokenIds.length)) :
    prefixHashChain prompt =
      .ok (scratchHashes (promptInputs prompt) prompt.tokenIds.length) := by
  refine refuseIf_bind_iff.mpr ⟨hshape, ?_⟩
  exact congrArg Except.ok (scratchHashes_append (promptInputs prompt) (Nat.zero_le _))

namespace Resident

variable {r : Resident}

/-- The cache answers with the from-scratch hash, and stays coherent. -/
lemma Coherent.valueAt (h : r.Coherent) {k : ℕ} (hledger : k ≤ r.ledger.length)
    (hsize : k ≤ r.identity.size) :
    ∃ hashes, ResidentPrefixHashes.valueAt r.hashes r.ledger r.identity k =
        .ok ((scratch (residentInputs r.ledger r.identity) k).hash, hashes) ∧
      Coherent { r with hashes } := by
  unfold ResidentPrefixHashes.valueAt
  set inputs := residentInputs r.ledger r.identity
  -- An empty cache is first given the hash of the empty prefix, so it is the case `count = 0`.
  obtain ⟨count, hcount, hcount', hcached⟩ : ∃ count, count ≤ r.ledger.length ∧
      count ≤ r.identity.size ∧
      (if r.hashes = [] then [initialHash] else r.hashes) = scratchHashes inputs count := by
    rcases h with hempty | ⟨count, hcount, hcount', hhashes⟩
    · exact ⟨0, Nat.zero_le _, Nat.zero_le _, by rw [if_pos hempty]; rfl⟩
    · refine ⟨count, hcount, hcount', ?_⟩
      rw [if_neg (by rw [hhashes]; simp [scratchHashes]), hhashes]
  by_cases hhit : k < r.hashes.length
  · have hhashes : r.hashes = scratchHashes inputs count := by
      rwa [if_neg (List.ne_nil_of_length_pos (by omega))] at hcached
    have hk : k ≤ count := by
      rw [hhashes, length_scratchHashes] at hhit
      omega
    have hget := scratchHashes_getElem? inputs hk
    rw [← hhashes] at hget
    refine ⟨r.hashes, refuseIf_bind_iff.mpr ⟨by omega, ?_⟩, .inr ⟨count, hcount, hcount', hhashes⟩⟩
    rw [hget]
    rfl
  · have hmiss : r.hashes[k]? = none := List.getElem?_eq_none (by omega)
    have hle : count ≤ k := by
      have hlength := congrArg List.length hcached
      rw [length_scratchHashes] at hlength
      split_ifs at hlength with hempty
      · simp at hlength
        omega
      · omega
    have hlast : (scratchHashes inputs count).getLast?.getD initialHash =
        (scratch inputs count).hash := by
      simp [scratchHashes, List.range_succ]
    refine ⟨scratchHashes inputs k, refuseIf_bind_iff.mpr ⟨by omega, ?_⟩,
      .inr ⟨k, hledger, hsize, rfl⟩⟩
    rw [hmiss]
    simp only [hcached, hlast, length_scratchHashes, Nat.add_sub_cancel,
      scratchHashes_append inputs hle]
    rw [extendHash_scratch inputs hle]
    rfl

/-- Every operation of the owner keeps the cache coherent. -/
lemma Coherent.step (h : r.Coherent) {op : Op} {r' : Resident} (hstep : r.step op = .ok r') :
    r'.Coherent := by
  cases op with
  | «at» k =>
    obtain ⟨⟨value, hashes⟩, hat, hr⟩ := ok_bind_iff.mp hstep
    obtain rfl := ok_pure_iff.mp hr
    have hrange : ¬(k > r.ledger.length ∨ k > r.identity.size) := (refuseIf_bind_iff.mp hat).1
    obtain ⟨hashes', hat', hcoherent⟩ := h.valueAt (k := k) (by omega) (by omega)
    rw [hat] at hat'
    rwa [(Prod.mk.inj (Except.ok.inj hat')).2]
  | replace ledger identity =>
    obtain rfl := ok_pure_iff.mp hstep
    exact .inl rfl
  | assign prompt =>
    obtain ⟨chain, hchain, hstep⟩ := ok_bind_iff.mp hstep
    obtain ⟨identity, hidentity, hstep⟩ := ok_bind_iff.mp hstep
    obtain ⟨hashes, hhashes, hstep⟩ := ok_bind_iff.mp hstep
    obtain rfl := ok_pure_iff.mp hstep
    obtain ⟨-, hhashes⟩ := refuseIf_bind_iff.mp hhashes
    obtain rfl := ok_pure_iff.mp hhashes
    obtain ⟨hshape, htypes, -⟩ := assign_spec hidentity
    rw [prefixHashChain_eq hshape] at hchain
    refine .inr ⟨prompt.tokenIds.length, le_rfl, ?_, ?_⟩
    · rw [size, htypes]
      omega
    · rw [← Except.ok.inj hchain]
      exact (agreeBelow_assign hidentity).scratchHashes
  | truncate tokens =>
    obtain ⟨identity, hidentity, hstep⟩ := ok_bind_iff.mp hstep
    obtain rfl := ok_pure_iff.mp hstep
    rcases h with hempty | ⟨count, hcount, -, hhashes⟩
    · exact .inl (by simp [hempty, ResidentPrefixHashes.truncate])
    · obtain ⟨hsize, htypes, -⟩ := truncate_spec hidentity
      refine .inr ⟨min tokens count, ?_, ?_, ?_⟩
      · rw [List.length_take]
        omega
      · rw [size, htypes, List.length_take]
        rw [size] at hsize
        omega
      · rw [hhashes, truncate_scratchHashes]
        exact ((agreeBelow_truncate hidentity).mono (Nat.min_le_left _ _)).scratchHashes
  | append tokens ropeDelta =>
    obtain ⟨identity, hidentity, hstep⟩ := ok_bind_iff.mp hstep
    obtain rfl := ok_pure_iff.mp hstep
    have happended := appendGenerated_appended hidentity
    rcases h with hempty | ⟨count, hcount, hcount', hhashes⟩
    · exact .inl hempty
    · refine .inr ⟨count, ?_, le_trans hcount' happended.1.length_le, ?_⟩
      · rw [List.length_append]
        omega
      · rw [hhashes]
        exact (agreeBelow_append happended hcount hcount').scratchHashes
  | rewrite first tokens =>
    obtain rfl := ok_pure_iff.mp hstep
    rcases h with hempty | ⟨count, hcount, hcount', hhashes⟩
    · exact .inl (by simp [hempty, ResidentPrefixHashes.truncate])
    · refine .inr ⟨min first count, ?_, le_trans (Nat.min_le_right _ _) hcount', ?_⟩
      · rw [List.length_append, List.length_take]
        omega
      · rw [hhashes, truncate_scratchHashes]
        refine AgreeBelow.scratchHashes (.of_items (fun i hi => ?_) (fun _ _ => rfl)
          (fun _ _ _ => rfl) rfl)
        have hi' : i < (r.ledger.take first).length := by
          rw [List.length_take]
          omega
        exact (getD_take_of_lt (by omega) _).symm.trans
          (getD_eq_of_extends (List.prefix_append _ _) hi' _)

lemma Coherent.run (h : r.Coherent) {ops : List Op} {r' : Resident} (hrun : r.run ops = .ok r') :
    r'.Coherent :=
  foldlM_ok_induction (fun hr hstep => Coherent.step hr hstep) h hrun

end Resident

/-- **The cached prefix hashes are the from-scratch hashes.**  After any run of the owner's
operations, and for every prefix of the resident sequence, the cache answers with the hash that
`prefix_hash_at` computes from nothing, with the one that the chain of a prompt with the same
represented inputs holds, and with the one that `extend_hash` gives from any shorter prefix. -/
theorem prefix_hashes_coherent {ops : List Op} {r : Resident} (hrun : Resident.run {} ops = .ok r)
    {k : ℕ} (hledger : k ≤ r.ledger.length) (hsize : k ≤ r.identity.size) :
    ∃ value, (∃ hashes, ResidentPrefixHashes.valueAt r.hashes r.ledger r.identity k =
        .ok (value, hashes)) ∧
      prefixHashAt r.ledger r.identity k = .ok value ∧
      (∀ prompt, prompt.tokenIds = r.ledger →
        assign prompt = .ok r.identity →
        ∃ chain, prefixHashChain prompt = .ok chain ∧ chain[k]? = some value) ∧
      ∀ m ≤ k, ∀ shorter, prefixHashAt r.ledger r.identity m = .ok shorter →
        (extendHash shorter (residentInputs r.ledger r.identity) m k).1 = value := by
  have hcoherent : r.Coherent := Resident.Coherent.run (.inl rfl) hrun
  obtain ⟨hashes, hat, -⟩ := hcoherent.valueAt hledger hsize
  refine ⟨_, ⟨hashes, hat⟩, prefixHashAt_eq hledger hsize, fun prompt htokens hassign => ?_,
    fun m hm shorter hshorter => ?_⟩
  · have hagree := agreeBelow_assign hassign
    have hk : k ≤ prompt.tokenIds.length := htokens ▸ hledger
    refine ⟨_, prefixHashChain_eq (assign_spec hassign).1, ?_⟩
    rw [scratchHashes_getElem? _ hk, hagree.scratch hk, htokens]
  · rw [prefixHashAt_eq (hm.trans hledger) (hm.trans hsize)] at hshorter
    rw [← Except.ok.inj hshorter, extendHash_scratch _ hm]

/-- Five tokens, the second and third of them an image. -/
def imagePrompt : PreparedPrompt where
  tokenIds := [10, 90, 90, 11, 12]
  tokenTypes := [0, 1, 1, 0, 0]
  positions := [0, 1, 1, 3, 4, 0, 1, 1, 3, 4, 0, 1, 2, 3, 4]
  visionItems := [⟨1, ⟨1, 2, 2⟩, 0, 4, List.Vector.replicate 32 7, [], [⟨1, 2⟩]⟩]

/-- The prompt is taken over and extended, cut behind its image, and continued differently. -/
def imageOps : List Op :=
  [.assign imagePrompt, .append [20, 21] 0, .at 7, .truncate 4, .append [30] 0, .rewrite 3 [31, 32]]

theorem prefix_hashes_coherent_imageOps : ∃ r, Resident.run {} imageOps = .ok r ∧
    r.hashes.length = 4 ∧ ∃ value hashes,
      ResidentPrefixHashes.valueAt r.hashes r.ledger r.identity 5 = .ok (value, hashes) ∧
      prefixHashAt r.ledger r.identity 5 = .ok value := by
  obtain ⟨r, hr, hlength, hledger, hsize⟩ : ∃ r ∈ (Resident.run {} imageOps).toOption,
      r.hashes.length = 4 ∧ 5 ≤ r.ledger.length ∧ 5 ≤ r.identity.size := by
    decide +kernel
  have hrun := ok_of_mem_toOption hr
  obtain ⟨value, ⟨hashes, hat⟩, hscratch, -⟩ := prefix_hashes_coherent hrun hledger hsize
  exact ⟨r, hrun, hlength, value, hashes, hat, hscratch⟩

end NInfer.Prefix
