import Mathlib

/-!
# The pool of checkpoint images

The images of all context checkpoints come from a pool that is sized once, at startup
(`context_checkpoint.h`).  A lane with `k` ladder images has passed the first `k` marks, and the
lanes share the tokens of one KV cache, so the pool need only be as large as the best way to spread
images over the lanes.  `context_checkpoint_image_pool_capacity` looks for it lane by lane, in
nonincreasing order and with a bound that ends the search early; neither loses the optimum.
-/

namespace NInfer.Sequence

/-- The tokens a lane holds that has `k` ladder images. -/
def ladderTokens (marks : List ℕ) (k : ℕ) : ℕ := if k = 0 then 0 else marks.getD (k - 1) 0

/-- The marks below the sequence capacity. -/
def reachable (marks : List ℕ) (sequenceCapacity : ℕ) : ℕ :=
  (marks.takeWhile (· ≤ sequenceCapacity)).length

section

variable (cost : ℕ → ℕ)

/-- The loop of `best` over the image counts below `n`, the largest first. -/
def bestLoop (self : ℕ → ℕ → ℕ) (lanes budget : ℕ) : (n result : ℕ) → ℕ
  | 0, result => result
  | k + 1, result =>
    if result ≥ k * lanes then result
    else if cost k > budget then bestLoop self lanes budget k result
    else bestLoop self lanes budget k (max result (k + self k (budget - cost k)))

/-- `best`: the most images of `lanes` lanes with at most `maxK` each. -/
def best : (lanes maxK budget : ℕ) → ℕ
  | 0, _, _ => 0
  | lanes + 1, maxK, budget => bestLoop cost (best lanes) (lanes + 1) budget (maxK + 1) 0

end

/-- `context_checkpoint_image_pool_capacity`. -/
def contextCheckpointImagePoolCapacity (maxConcurrency : ℕ) (marks : List ℕ)
    (sequenceCapacity kvCapacity : ℕ) : ℕ :=
  maxConcurrency +
    best (ladderTokens marks) maxConcurrency (reachable marks sequenceCapacity) kvCapacity

/-- Image counts of the lanes that are within the bounds. -/
structure Spread (cost : ℕ → ℕ) (lanes maxK budget : ℕ) (counts : List ℕ) : Prop where
  length : counts.length = lanes
  le : ∀ k ∈ counts, k ≤ maxK
  fits : (counts.map cost).sum ≤ budget

variable {cost : ℕ → ℕ} {lanes maxK budget : ℕ} {counts : List ℕ}

lemma Spread.sum_le (h : Spread cost lanes maxK budget counts) : counts.sum ≤ maxK * lanes := by
  have hle := List.sum_le_card_nsmul counts maxK h.le
  rw [h.length] at hle
  exact hle.trans_eq (Nat.mul_comm lanes maxK)

/-- The loop finds the best count for its lane, although it may stop early. -/
lemma bestLoop_spec (cost : ℕ → ℕ) (budget : ℕ) {self : ℕ → ℕ → ℕ}
    (hself : ∀ k b, k + self k b ≤ k * lanes) (n result : ℕ) :
    (bestLoop cost self lanes budget n result = result ∨ ∃ k < n, cost k ≤ budget ∧
        bestLoop cost self lanes budget n result = k + self k (budget - cost k)) ∧
      result ≤ bestLoop cost self lanes budget n result ∧
      ∀ k < n, cost k ≤ budget →
        k + self k (budget - cost k) ≤ bestLoop cost self lanes budget n result := by
  induction n generalizing result with
  | zero => exact ⟨.inl rfl, le_rfl, by simp⟩
  | succ n ih =>
    unfold bestLoop
    split
    · next hprune =>
      refine ⟨.inl rfl, le_rfl, fun k hk _ => (hself k _).trans (le_trans ?_ hprune)⟩
      exact Nat.mul_le_mul_right lanes (Nat.lt_succ_iff.mp hk)
    split
    · next hcost =>
      obtain ⟨hattained, hle, hbest⟩ := ih result
      refine ⟨by grind, hle, fun k hk hfits => hbest k ?_ hfits⟩
      grind
    · next hcost =>
      obtain ⟨hattained, hle, hbest⟩ := ih (max result (n + self n (budget - cost n)))
      refine ⟨by grind, by grind, fun k hk hfits => ?_⟩
      rcases Nat.lt_succ_iff_lt_or_eq.mp hk with hk | rfl
      · exact hbest k hk hfits
      · exact (le_max_right ..).trans hle

/-- The search over nonincreasing counts finds the best spread. -/
lemma best_isGreatest (hzero : cost 0 = 0) (lanes maxK budget : ℕ) :
    IsGreatest {n | ∃ counts, Spread cost lanes maxK budget counts ∧ n = counts.sum}
      (best cost lanes maxK budget) := by
  induction lanes generalizing maxK budget with
  | zero =>
    refine ⟨⟨[], ⟨rfl, by simp, by simp⟩, rfl⟩, ?_⟩
    rintro n ⟨counts, h, rfl⟩
    simp [List.eq_nil_of_length_eq_zero h.length]
  | succ lanes ih =>
    have hself : ∀ k b, k + best cost lanes k b ≤ k * (lanes + 1) := by
      intro k b
      obtain ⟨counts, h, heq⟩ := (ih k b).1
      rw [heq, Nat.mul_succ, Nat.add_comm]
      exact Nat.add_le_add_right h.sum_le k
    obtain ⟨hattained, -, hbest⟩ := bestLoop_spec cost budget hself (maxK + 1) 0
    constructor
    · rcases hattained with hnone | ⟨k, hk, hfits, heq⟩
      · refine ⟨List.replicate (lanes + 1) 0, ⟨by simp, by simp, by simp [hzero]⟩, ?_⟩
        rw [List.sum_replicate_nat, Nat.mul_zero]
        exact hnone
      · obtain ⟨counts, h, hsum⟩ := (ih k (budget - cost k)).1
        have hle : ∀ i ∈ counts, i ≤ maxK := fun i hi => (h.le i hi).trans (by omega)
        have hcosts := h.fits
        refine ⟨k :: counts, ⟨by simp [h.length], by simpa using ⟨by omega, hle⟩, ?_⟩, ?_⟩
        · rw [List.map_cons, List.sum_cons]
          omega
        · rw [List.sum_cons, ← hsum]
          exact heq
    · rintro n ⟨counts, h, rfl⟩
      -- the lane with the most images may be taken first
      obtain ⟨k, hmax⟩ : ∃ k, counts.max? = some k := by
        cases counts with
        | nil => cases h.length
        | cons k _ => exact ⟨_, List.max?_cons⟩
      obtain ⟨hk, hmax⟩ := List.max?_eq_some_iff.mp hmax
      have hcosts := h.fits
      rw [← List.sum_map_erase cost hk] at hcosts
      rw [← List.sum_erase hk]
      refine (Nat.add_le_add_left ?_ k).trans (hbest k (Nat.lt_succ_of_le (h.le k hk)) (by omega))
      refine (ih k (budget - cost k)).2 ⟨counts.erase k, ⟨?_, ?_, by omega⟩, rfl⟩
      · rw [List.length_erase_of_mem hk, h.length, Nat.add_sub_cancel]
      · exact fun i hi => hmax i (List.mem_of_mem_erase hi)

/-- A lane with `k` ladder images that hold `tokens` tokens: the last of the first `k` marks, if the
sequence can reach it. -/
inductive LadderImages (marks : List ℕ) (sequenceCapacity : ℕ) : (k tokens : ℕ) → Prop
  | none : LadderImages marks sequenceCapacity 0 0
  | upTo {k mark : ℕ} : marks[k]? = some mark → mark ≤ sequenceCapacity →
      LadderImages marks sequenceCapacity (k + 1) mark

lemma lt_reachable_iff {marks : List ℕ} (hmarks : marks.Pairwise (· < ·)) (c k mark : ℕ) :
    marks[k]? = some mark ∧ mark ≤ c ↔ k < reachable marks c ∧ marks.getD k 0 = mark := by
  induction marks generalizing k with
  | nil => simp [reachable]
  | cons first marks ih =>
    obtain ⟨hfirst, hmarks⟩ := List.pairwise_cons.mp hmarks
    by_cases hle : first ≤ c
    · have hcount : reachable (first :: marks) c = reachable marks c + 1 := by
        simp [reachable, hle]
      rw [hcount]
      cases k with
      | zero => grind
      | succ k => simpa using ih hmarks k
    · have hcount : reachable (first :: marks) c = 0 := by simp [reachable, hle]
      refine iff_of_false (fun ⟨hmark, hreached⟩ => hle ?_) (by omega)
      -- A mark after one that is out of reach is out of reach.
      rcases List.mem_cons.mp (List.mem_of_getElem? hmark) with rfl | hmem
      · exact hreached
      · exact (hfirst mark hmem).le.trans hreached

lemma ladderImages_iff {marks : List ℕ} (hmarks : marks.Pairwise (· < ·)) {c k tokens : ℕ} :
    LadderImages marks c k tokens ↔ k ≤ reachable marks c ∧ tokens = ladderTokens marks k := by
  cases k with
  | zero =>
    refine ⟨fun h => ?_, fun ⟨_, h⟩ => h ▸ .none⟩
    cases h
    exact ⟨Nat.zero_le _, rfl⟩
  | succ k =>
    refine Iff.trans ⟨fun h => ?_, fun h => .upTo h.1 h.2⟩
      ((lt_reachable_iff hmarks c k tokens).trans (and_congr_right fun _ => eq_comm))
    cases h with
    | upTo hmark hle => exact ⟨hmark, hle⟩

/-- The pool holds one rollback image for each lane and as many ladder images as the lanes can have
at most: over all counts of images whose tokens fit the KV cache together. -/
theorem image_pool_capacity_optimal (maxConcurrency : ℕ) {marks : List ℕ}
    (hmarks : marks.Pairwise (· < ·)) (sequenceCapacity kvCapacity : ℕ) :
    IsGreatest {n | ∃ counts tokens : Fin maxConcurrency → ℕ,
        (∀ lane, LadderImages marks sequenceCapacity (counts lane) (tokens lane)) ∧
        ∑ lane, tokens lane ≤ kvCapacity ∧ n = maxConcurrency + ∑ lane, counts lane}
      (contextCheckpointImagePoolCapacity maxConcurrency marks sequenceCapacity kvCapacity) := by
  obtain ⟨⟨counts, h, hsum⟩, hbest⟩ := best_isGreatest
    (show ladderTokens marks 0 = 0 from rfl) maxConcurrency (reachable marks sequenceCapacity)
    kvCapacity
  refine ⟨?_, ?_⟩
  · obtain rfl := h.length
    refine ⟨counts.get, fun lane => ladderTokens marks (counts.get lane),
      fun lane => (ladderImages_iff hmarks).mpr ⟨h.le _ (List.get_mem counts lane), rfl⟩, ?_, ?_⟩
    · rw [← List.sum_ofFn, ← Function.comp_def, ← List.map_ofFn, List.ofFn_get]
      exact h.fits
    · rw [← List.sum_ofFn, List.ofFn_get, ← hsum, contextCheckpointImagePoolCapacity]
  · rintro n ⟨counts, tokens, himages, hfits, rfl⟩
    have hlane := fun lane => (ladderImages_iff hmarks).mp (himages lane)
    refine Nat.add_le_add_left (hbest ⟨List.ofFn counts, ⟨List.length_ofFn, ?_, ?_⟩, ?_⟩) _
    · intro k hk
      obtain ⟨lane, rfl⟩ := (List.mem_ofFn' ..).mp hk
      exact (hlane lane).1
    · rw [List.map_ofFn, List.sum_ofFn]
      exact (Finset.sum_congr rfl fun lane _ => (hlane lane).2.symm).trans_le hfits
    · exact List.sum_ofFn.symm

/-- Two lanes share eight tokens: one of them passes both marks, the other only the first. -/
theorem image_pool_capacity_optimal_two_lanes :
    contextCheckpointImagePoolCapacity 2 [2, 5] 6 8 = 5 ∧
      ∀ counts tokens : Fin 2 → ℕ, (∀ lane, LadderImages [2, 5] 6 (counts lane) (tokens lane)) →
        ∑ lane, tokens lane ≤ 8 → ∑ lane, counts lane ≤ 3 := by
  have hcapacity : contextCheckpointImagePoolCapacity 2 [2, 5] 6 8 = 5 := by decide
  refine ⟨hcapacity, fun counts tokens himages hfits => ?_⟩
  have hle := (image_pool_capacity_optimal 2 (by decide) 6 8).2
    ⟨counts, tokens, himages, hfits, rfl⟩
  rw [hcapacity] at hle
  omega

end NInfer.Sequence
