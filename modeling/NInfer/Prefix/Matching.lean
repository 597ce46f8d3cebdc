import NInfer.Prefix.Hashes

/-!
# Matching a prompt against a resident prefix

A request may continue a resident sequence up to some frontier if its prompt starts with what the
model has seen there: the same tokens, types and positions, and the same vision items, none of which
the frontier divides (`prefix_identity.cpp`).  `prefix_matches` decides that for one frontier.

The sizes that `assign`, `append_generated` and `truncate` produce are collected here too: they are
all that frontier bookkeeping needs to know of an identity.
-/

namespace NInfer.Prefix

namespace ResidentPrefixIdentity

variable {identity identity' : ResidentPrefixIdentity}

/-- `matches`: the first `count` tokens of the prompt are represented as those of the identity. -/
def matchesPrompt (identity : ResidentPrefixIdentity) (prompt : PreparedPrompt) (count : ℕ) :
    Bool :=
  let promptTokens := prompt.tokenIds.length
  if count > promptTokens ∨ count > identity.size ∨ prompt.tokenTypes.length ≠ promptTokens ∨
      prompt.positions.length ≠ 3 * promptTokens then false
  else if prompt.tokenTypes.take count ≠ identity.tokenTypes.take count then false
  else if ∃ axis, (promptAxis prompt.positions promptTokens axis).take count ≠
      (identity.positions axis).take count then false
  else
    match prefixItemCount count prompt.visionItems false,
      prefixItemCount count identity.visionItems false with
    | some incoming, some resident =>
      incoming = resident ∧
        prompt.visionItems.take incoming = identity.visionItems.take incoming
    | _, _ => false

lemma size_assign {prompt : PreparedPrompt} (h : assign prompt = .ok identity) :
    identity.size = prompt.tokenIds.length := by
  obtain ⟨hshape, htypes, -⟩ := assign_spec h
  push Not at hshape
  rw [size, htypes, hshape.1]

lemma size_truncate {tokens : ℕ} (h : identity.truncate tokens = .ok identity') :
    identity'.size = tokens := by
  obtain ⟨hle, htypes, -⟩ := truncate_spec h
  rw [size, htypes, List.length_take]
  exact Nat.min_eq_left hle

lemma size_appendOne {ropeDelta : BitVec 32} (h : identity.appendOne ropeDelta = .ok identity') :
    identity'.size = identity.size + 1 := by
  obtain ⟨-, h⟩ := refuseIf_bind_iff.mp h
  obtain ⟨-, h⟩ := refuseIf_bind_iff.mp h
  obtain rfl := ok_pure_iff.mp h
  simp [size]

lemma size_foldlM_appendOne {ropeDelta : BitVec 32} {steps : List ℕ}
    (h : steps.foldlM (fun x _ => x.appendOne ropeDelta) identity = .ok identity') :
    identity'.size = identity.size + steps.length := by
  induction steps generalizing identity with
  | nil =>
    obtain rfl := ok_pure_iff.mp h
    simp
  | cons step steps ih =>
    rw [List.foldlM_cons, ok_bind_iff] at h
    obtain ⟨next, hnext, h⟩ := h
    rw [ih h, size_appendOne hnext, List.length_cons]
    omega

lemma size_appendGenerated {count : ℕ} {ropeDelta : BitVec 32}
    (h : identity.appendGenerated count ropeDelta = .ok identity') :
    identity'.size = identity.size + count := by
  obtain ⟨-, h⟩ := refuseIf_bind_iff.mp h
  rw [size_foldlM_appendOne h, List.length_range]

end ResidentPrefixIdentity

/-- `prefix_items_complete_at`: a cut behind `tokens` tokens divides no vision item. -/
def prefixItemsCompleteAt (items : List VisionItem) (tokens : ℕ) : Bool :=
  (prefixItemCount tokens items false).isSome

/-- `prefix_matches`. -/
def prefixMatches (prompt : PreparedPrompt) (residentTokens : List (BitVec 32))
    (residentIdentity : ResidentPrefixIdentity) (count : ℕ) : Bool :=
  if count > prompt.tokenIds.length ∨ count > residentTokens.length then false
  else prompt.tokenIds.take count = residentTokens.take count ∧
    residentIdentity.matchesPrompt prompt count

lemma le_of_prefixMatches {prompt : PreparedPrompt} {tokens : List (BitVec 32)}
    {identity : ResidentPrefixIdentity} {count : ℕ}
    (h : prefixMatches prompt tokens identity count = true) :
    count ≤ prompt.tokenIds.length ∧ count ≤ tokens.length := by
  unfold prefixMatches at h
  split_ifs at h with hlong
  omega

end NInfer.Prefix
