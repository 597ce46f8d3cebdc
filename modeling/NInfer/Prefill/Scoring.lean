import Mathlib

/-!
# Scoring a prompt chunk by chunk

When a prompt is scored, each chunk of its prefill contributes the next tokens of its own columns
(`score_index.h`).  Targets are shifted by one against columns, so the last target of a chunk lies
in the next chunk; `runPrefillScore` collects what all chunks score.
-/

namespace NInfer.Prefill

/-- The loop of `prefill_chunk_targets` over the next `count` columns. -/
def columnTargets (ids : List (BitVec 32)) (skip : ℕ) : ℕ → ℕ → List (BitVec 32)
  | _, 0 => []
  | position, count + 1 =>
    if position < skip then columnTargets ids skip (position + 1) count
    else
      match ids[position + 1]? with
      | none => []
      | some target => target :: columnTargets ids skip (position + 1) count

/-- `prefill_chunk_targets`. -/
def prefillChunkTargets (ids : List (BitVec 32)) (chunkBegin chunkTokens skip : ℕ) :
    List (BitVec 32) :=
  if chunkTokens = 0 ∨ chunkBegin ≥ ids.length then []
  else columnTargets ids skip chunkBegin (min chunkTokens (ids.length - chunkBegin))

/-- `accumulate_prefill_nll`: the targets of a chunk, each with the column of `prefill_hidden` that
is scored against it. -/
def accumulatePrefillNll (ids : List (BitVec 32)) (chunkBegin chunkTokens skip : ℕ) :
    List (BitVec 32 × ℕ) :=
  (prefillChunkTargets ids chunkBegin chunkTokens skip).zipIdx (max chunkBegin skip - chunkBegin)

/-- The loop of `run_prefill_score` over chunks of the given lengths.  Column `c` of a chunk holds
the hidden state of position `cursor + c`. -/
def runPrefillScore (ids : List (BitVec 32)) (skip : ℕ) : ℕ → List ℕ → List (BitVec 32 × ℕ)
  | _, [] => []
  | cursor, chunkTokens :: rest =>
    (accumulatePrefillNll ids cursor chunkTokens skip).map (Prod.map id (· + cursor)) ++
      runPrefillScore ids skip (cursor + chunkTokens) rest

variable {ids : List (BitVec 32)} {skip : ℕ}

/-- A chunk scores its columns from `skip` on. -/
lemma prefillChunkTargets_eq (chunkBegin chunkTokens : ℕ) :
    prefillChunkTargets ids chunkBegin chunkTokens skip =
      (ids.drop (max chunkBegin skip + 1)).take
        (chunkBegin + chunkTokens - max chunkBegin skip) := by
  have hloop : ∀ position count, columnTargets ids skip position count =
      (ids.drop (max position skip + 1)).take (position + count - max position skip) := by
    intro position count
    induction count generalizing position with
    | zero => simp [columnTargets, Nat.sub_eq_zero_of_le (Nat.le_max_left position skip)]
    | succ count ih =>
      unfold columnTargets
      split
      · rw [ih]
        grind
      · rw [show max position skip = position by omega,
          List.drop_eq_getElem?_toList_append (i := position + 1), ih,
          show max (position + 1) skip = position + 1 by omega]
        cases hnext : ids[position + 1]? with
        | none => simp [List.drop_eq_nil_of_le (by grind : ids.length ≤ position + 1 + 1)]
        | some target => simp
  unfold prefillChunkTargets
  split
  · apply List.ext_getElem?
    grind
  · rw [hloop]
    apply List.ext_getElem?
    grind

lemma runPrefillScore_eq {cursor : ℕ} {lengths : List ℕ} (h : cursor + lengths.sum = ids.length) :
    runPrefillScore ids skip cursor lengths =
      (ids.drop (max cursor skip + 1)).zipIdx (max cursor skip) := by
  induction lengths generalizing cursor with
  | nil =>
    rw [List.drop_eq_nil_of_le (by grind)]
    rfl
  | cons chunkTokens rest ih =>
    rw [List.sum_cons] at h
    rw [runPrefillScore, ih (by omega), accumulatePrefillNll, prefillChunkTargets_eq,
      List.map_snd_add_zipIdx_eq_zipIdx, Nat.add_sub_of_le (Nat.le_max_left ..)]
    generalize hk : cursor + chunkTokens - max cursor skip = k
    have hdrop : ids.drop (max cursor skip + k + 1) = (ids.drop (max cursor skip + 1)).drop k := by
      rw [List.drop_drop, Nat.add_right_comm]
    rw [show max (cursor + chunkTokens) skip = max cursor skip + k by omega, hdrop]
    generalize ids.drop (max cursor skip + 1) = targets
    nth_rewrite 3 [← List.take_append_drop k targets]
    rw [List.zipIdx_append, List.length_take]
    rcases Nat.le_total k targets.length with hle | hle
    · rw [Nat.min_eq_left hle]
    · simp [List.drop_eq_nil_of_le hle]

/-- However a prompt is cut into chunks, the tokens behind position `skip` are scored, each once and
in order, and each against the hidden state of the position before it. -/
theorem prefill_score_targets (ids : List (BitVec 32)) (skip : ℕ) {lengths : List ℕ}
    (h : lengths.sum = ids.length) :
    runPrefillScore ids skip 0 lengths = (ids.drop (skip + 1)).zipIdx skip := by
  rw [runPrefillScore_eq (by omega), Nat.zero_max]

theorem prefill_score_targets_unevenChunks :
    runPrefillScore [7, 8, 9, 10, 11] 1 0 [2, 1, 2] = [(9, 1), (10, 2), (11, 3)] :=
  prefill_score_targets [7, 8, 9, 10, 11] 1 rfl

end NInfer.Prefill
