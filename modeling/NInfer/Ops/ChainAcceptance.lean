import NInfer.Foundation.Autoregressive
import NInfer.Ops.Sampling

/-!
# Acceptance of a drafted chain

A speculative round verifies a chain of drafts against the target's laws at the columns of the chain
(`speculative_round.cuh`).  The sampling branch of the accept kernels goes through the columns: it
accepts draft `d` with probability `min 1 (p(d) / q(d))`, replaces the first rejected draft by a
pick from `max 0 (p - q)`, and draws a bonus token from the last column if every draft was accepted.
The round commits the accepted drafts and that token.

The uniforms are keyed by position and purpose; read as independent draws, they are the tape of
`Foundation/Draws.lean`.  `chain_acceptance_lossless` says that the committed tokens, continued by
sampling from the target one token at a time, have the target's joint law.
-/

namespace NInfer.SpeculativeRound

open Sampling InverseCdf Autoregressive Draws MeasureTheory
open scoped ENNReal
open ENNReal (ofReal ofReal_one ofReal_zero)

/-! ## Keys -/

/-- `SamplePurpose`, and the purpose of the path selection that draws the drafts. -/
inductive Purpose where
  | prefill
  | decode
  | speculativeAccept
  | speculativeCorrection
  | speculativeBonus
  | speculativeBlockAccept
  | pathSelect
  deriving DecidableEq

/-- What a uniform is computed from, next to the seed. -/
structure Key where
  position : ℕ
  purpose : Purpose
  sub : ℕ := 0
  deriving DecidableEq

/-- The draw of hop `hop` of a round that starts after `length` tokens. -/
def pathSelectKey (length hop : ℕ) : Key := ⟨length + 1, .pathSelect, hop⟩

/-- The draw of the token that follows `length + offset` tokens. -/
def positionKey (purpose : Purpose) (length offset : ℕ) : Key := ⟨length + offset + 1, purpose, 0⟩

/-! ## Committing a row -/

/-- What a round leaves for its row. -/
structure Committed where
  rowTokens : List ℤ
  licensedCount : ℕ
  accepted : ℕ
  anchor : ℤ
  length : ℕ
  tokenCounts : Option (ℤ → ℕ)

/-- `sampling_count_token`. -/
def countToken (vocab : ℕ) (counts : Option (ℤ → ℕ)) (token : ℤ) : Option (ℤ → ℕ) :=
  counts.map fun counts =>
    if token < 0 ∨ token ≥ vocab then counts
    else Function.update counts token (counts token + 1)

/-- The end of the accept kernels: `accepted` drafts and one more token. -/
def commitChain (vocab k : ℕ) (drafts : List ℤ) (length : ℕ) (counts : Option (ℤ → ℕ))
    (accepted : ℕ) (tstar : ℤ) : Committed :=
  let licensed := (drafts.take accepted ++ [tstar]).map fun token => clampToken token 0 vocab
  { rowTokens := licensed ++ List.replicate (k - accepted) 0
    licensedCount := accepted + 1
    accepted
    anchor := clampToken tstar 0 vocab
    length := length + (accepted + 1)
    tokenCounts := licensed.foldl (countToken vocab) counts }

/-- The tokens that a round commits. -/
def Committed.licensed (row : Committed) : List ℤ := row.rowTokens.take row.licensedCount

/-- `current_extents[row]`, clamped to the number of drafts. -/
def clampExtent (extent : ℤ) (k : ℕ) : ℕ := if extent < 0 then 0 else min extent.toNat k

/-! ## The acceptance loop -/

section Accept

variable {K : Type} [Field K] [LinearOrder K]

/-- `qd > 0 && u < min(1, pd / qd)`. -/
def takesDraft (column shortlist : Candidates K) (draft : ℤ) (u : K) : Prop :=
  0 < selectorQ shortlist draft ∧ u < min 1 (weightOf column draft / selectorQ shortlist draft)

instance (column shortlist : Candidates K) (draft : ℤ) (u : K) :
    Decidable (takesDraft column shortlist draft u) := by
  unfold takesDraft
  infer_instance

/-- The loop over the columns from column `i` on: the number of accepted drafts and the token that
follows them. -/
def acceptChain (columns shortlists : ℕ → Candidates K) (drafts : List ℤ) (length : ℕ)
    (u : Key → K) : ℕ → ℕ → ℕ × ℤ
  | 0, i => (i, pickFromSupport (columns i) (-1) (u (positionKey .speculativeBonus length i)))
  | rest + 1, i =>
    if takesDraft (columns i) (shortlists i) (drafts.getD i 0)
        (u (positionKey .speculativeAccept length i)) then
      acceptChain columns shortlists drafts length u rest (i + 1)
    else
      (i, pickFromPMinusQ (columns i) (shortlists i) (drafts.getD i 0)
        (u (positionKey .speculativeCorrection length i)))

/-- The sampling branch of `speculative_accept_greedy_drafts_kernel`, and the chain branch of
`speculative_sampling_group_finalize_kernel`. -/
def chainRound (vocab k : ℕ) (columns shortlists : ℕ → Candidates K) (drafts : List ℤ)
    (extent : ℤ) (length : ℕ) (counts : Option (ℤ → ℕ)) (u : Key → K) : Committed :=
  let outcome := acceptChain columns shortlists drafts length u (clampExtent extent k) 0
  commitChain vocab k drafts length counts outcome.1 outcome.2

/-- Sampling from the target. -/
def sampleTarget (p : List ℤ → Candidates K) (w : List ℤ) (u : K) : ℤ :=
  pickFromSupport (p w) (-1) u

/-- A round whose `k` drafts are drawn one after the other, and then target sampling until there are
`n` tokens.  The laws and shortlists are those after the drafts so far. -/
def chainTokens (vocab k : ℕ) (p q : List ℤ → Candidates K) (draw : List ℤ → K → ℤ) (extent : ℤ)
    (length : ℕ) (counts : Option (ℤ → ℕ)) (n : ℕ) (u : Key → K) : List ℤ :=
  let drafts := tokens draw (pathSelectKey length) u k []
  let licensed := (chainRound vocab k (fun i => p (drafts.take i)) (fun i => q (drafts.take i))
    drafts extent length counts u).licensed
  licensed ++ tokens (sampleTarget p) (positionKey .decode length) u (n - licensed.length) licensed

/-! ## The round from a column on -/

/-- The tokens that follow the accepted drafts `w`, when `rest` more drafts are verified. -/
def chainFrom (p q : List ℤ → Candidates K) (draw : List ℤ → K → ℤ) (length : ℕ) (u : Key → K) :
    ℕ → List ℤ → List ℤ
  | 0, w => [pickFromSupport (p w) (-1) (u (positionKey .speculativeBonus length w.length))]
  | rest + 1, w =>
    let d := draw w (u (pathSelectKey length w.length))
    if takesDraft (p w) (q w) d (u (positionKey .speculativeAccept length w.length)) then
      d :: chainFrom p q draw length u rest (w ++ [d])
    else
      [pickFromPMinusQ (p w) (q w) d (u (positionKey .speculativeCorrection length w.length))]

/-- The loop on drafts that were drawn first does the same as drawing each draft when its column is
reached. -/
lemma acceptChain_eq_chainFrom (p q : List ℤ → Candidates K) (draw : List ℤ → K → ℤ) (length : ℕ)
    (u : Key → K) {rest k : ℕ} {w drafts : List ℤ} (hrest : rest ≤ k)
    (hdrafts : drafts = w ++ tokens draw (pathSelectKey length) u k w) {outcome : ℕ × ℤ}
    (houtcome : acceptChain (fun i => p (drafts.take i)) (fun i => q (drafts.take i)) drafts length
      u rest w.length = outcome) :
    drafts.take outcome.1 ++ [outcome.2] = w ++ chainFrom p q draw length u rest w := by
  induction rest generalizing k w with
  | zero =>
    subst houtcome
    simp [acceptChain, chainFrom, hdrafts]
  | succ rest ih =>
    obtain ⟨k, rfl⟩ : ∃ k', k = k' + 1 := ⟨k - 1, by omega⟩
    rw [tokens] at hdrafts
    simp only [chainFrom]
    generalize draw w (u (pathSelectKey length w.length)) = d at hdrafts ⊢
    have htake : drafts.take w.length = w := by rw [hdrafts, List.take_left]
    have hget : drafts.getD w.length 0 = d := by simp [hdrafts]
    rw [acceptChain, htake, hget] at houtcome
    by_cases htakes : takesDraft (p w) (q w) d (u (positionKey .speculativeAccept length w.length))
    · rw [if_pos htakes] at houtcome ⊢
      have hnext := ih (w := w ++ [d]) (Nat.le_of_succ_le_succ hrest) (by simp [hdrafts])
        (by simpa using houtcome)
      rw [hnext, List.append_assoc, List.singleton_append]
    · rw [if_neg htakes] at houtcome ⊢
      subst houtcome
      rw [htake]

lemma licensed_commitChain (vocab k : ℕ) (drafts : List ℤ) (length : ℕ) (counts : Option (ℤ → ℕ))
    {accepted : ℕ} (tstar : ℤ) (haccepted : accepted ≤ drafts.length) :
    (commitChain vocab k drafts length counts accepted tstar).licensed =
      (drafts.take accepted ++ [tstar]).map fun token => clampToken token 0 vocab := by
  rw [Committed.licensed, commitChain, List.take_left']
  simp [haccepted]

lemma acceptChain_fst_le (columns shortlists : ℕ → Candidates K) (drafts : List ℤ) (length : ℕ)
    (u : Key → K) (rest i : ℕ) :
    (acceptChain columns shortlists drafts length u rest i).1 ≤ i + rest := by
  induction rest generalizing i with
  | zero => exact Nat.le_refl i
  | succ rest ih =>
    rw [acceptChain]
    split
    · have := ih (i + 1)
      omega
    · exact Nat.le_add_right i _

lemma clampExtent_le (extent : ℤ) (k : ℕ) : clampExtent extent k ≤ k := by
  unfold clampExtent
  split
  · exact Nat.zero_le k
  · exact Nat.min_le_right _ _

/-- A round and target sampling after it, from the drafts `w` on, which were committed as `v`. -/
def chainOutput (vocab : ℕ) (p q : List ℤ → Candidates K) (draw : List ℤ → K → ℤ) (length : ℕ)
    (rest n : ℕ) (w v : List ℤ) (u : Key → K) : List ℤ :=
  let licensed := (chainFrom p q draw length u rest w).map fun token => clampToken token 0 vocab
  licensed ++
    tokens (sampleTarget p) (positionKey .decode length) u (n - licensed.length) (v ++ licensed)

/-- A round that ends with a pick, and target sampling after it. -/
def endWith (vocab : ℕ) (p : List ℤ → Candidates K) (length n : ℕ) (w : List ℤ) (t : ℤ)
    (u : Key → K) : List ℤ :=
  clampToken t 0 vocab :: tokens (sampleTarget p) (positionKey .decode length) u n
    (w ++ [clampToken t 0 vocab])

/-- A round that goes on after taking draft `d`. -/
def goOnWith (vocab : ℕ) (p q : List ℤ → Candidates K) (draw : List ℤ → K → ℤ) (length : ℕ)
    (rest n : ℕ) (w : List ℤ) (d : ℤ) (u : Key → K) : List ℤ :=
  clampToken d 0 vocab ::
    chainOutput vocab p q draw length rest n (w ++ [d]) (w ++ [clampToken d 0 vocab]) u

lemma chainOutput_zero (vocab : ℕ) (p q : List ℤ → Candidates K) (draw : List ℤ → K → ℤ)
    (length n : ℕ) (w : List ℤ) (u : Key → K) :
    chainOutput vocab p q draw length 0 (n + 1) w w u =
      endWith vocab p length n w (pickFromSupport (p w) (-1)
        (u (positionKey .speculativeBonus length w.length))) u := by
  simp [chainOutput, chainFrom, endWith]

/-- A column whose draft is known. -/
def atColumn (vocab : ℕ) (p q : List ℤ → Candidates K) (draw : List ℤ → K → ℤ) (length : ℕ)
    (rest n : ℕ) (w : List ℤ) (d : ℤ) (u : Key → K) : List ℤ :=
  if takesDraft (p w) (q w) d (u (positionKey .speculativeAccept length w.length)) then
    goOnWith vocab p q draw length rest n w d u
  else
    endWith vocab p length n w (pickFromPMinusQ (p w) (q w) d
      (u (positionKey .speculativeCorrection length w.length))) u

lemma chainOutput_succ (vocab : ℕ) (p q : List ℤ → Candidates K) (draw : List ℤ → K → ℤ)
    (length rest n : ℕ) (w : List ℤ) (u : Key → K) :
    chainOutput vocab p q draw length (rest + 1) (n + 1) w w u =
      atColumn vocab p q draw length rest n w (draw w (u (pathSelectKey length w.length))) u := by
  simp only [chainOutput, chainFrom, atColumn, goOnWith, endWith]
  split
  · simp
  · simp

lemma goOnWith_eq_cons {vocab : ℕ} {d : ℤ} (hd : clampToken d 0 vocab = d)
    (p q : List ℤ → Candidates K) (draw : List ℤ → K → ℤ) (length rest n : ℕ) (w : List ℤ)
    (u : Key → K) :
    goOnWith vocab p q draw length rest n w d u =
      d :: chainOutput vocab p q draw length rest n (w ++ [d]) (w ++ [d]) u := by
  rw [goOnWith, hd]

lemma chainTokens_eq_chainOutput (vocab k : ℕ) (p q : List ℤ → Candidates K)
    (draw : List ℤ → K → ℤ) (extent : ℤ) (length : ℕ) (counts : Option (ℤ → ℕ)) (n : ℕ)
    (u : Key → K) :
    chainTokens vocab k p q draw extent length counts n u =
      chainOutput vocab p q draw length (clampExtent extent k) n [] [] u := by
  rw [chainTokens, chainRound]
  have hle := clampExtent_le extent k
  have hfst := acceptChain_fst_le
    (fun i => p ((tokens draw (pathSelectKey length) u k []).take i))
    (fun i => q ((tokens draw (pathSelectKey length) u k []).take i))
    (tokens draw (pathSelectKey length) u k []) length u (clampExtent extent k) 0
  have hfrom := acceptChain_eq_chainFrom p q draw length u (w := []) hle rfl rfl
  simp only [List.nil_append, List.length_nil] at hfrom
  rw [licensed_commitChain _ _ _ _ _ _ (by rw [length_tokens]; omega), hfrom, chainOutput,
    List.nil_append]

end Accept

/-! ## The law of a round -/

/-- How drafts come about: they are drawn from the shortlists, or there are no shortlists and the
drafts are determined. -/
def Drafted (q : List ℤ → Candidates ℝ) (draw : List ℤ → ℝ → ℤ) : Prop :=
  ((∀ w, IsLaw (q w)) ∧ Samples (fun w => weightOf (q w)) draw) ∨
    ((∀ w, q w = []) ∧ ∃ drafts : List ℤ → ℤ, ∀ w x, draw w x = drafts w)

/-- The keys that are read from column `i` on. -/
def keysFrom (length i : ℕ) : Set Key :=
  {key | (key.purpose = .pathSelect → i ≤ key.sub) ∧
    (key.purpose ≠ .pathSelect → length + i + 1 ≤ key.position)}

section Law

variable {vocab length : ℕ} {p q : List ℤ → Candidates ℝ} {draw : List ℤ → ℝ → ℤ}

lemma keysFrom_anti {i j : ℕ} (h : i ≤ j) : keysFrom length j ⊆ keysFrom length i := by
  rintro key ⟨hsub, hposition⟩
  refine ⟨fun hselect => ?_, fun hother => ?_⟩
  · exact Nat.le_trans h (hsub hselect)
  · have := hposition hother
    omega

lemma pathSelectKey_mem {i j : ℕ} : pathSelectKey length i ∈ keysFrom length j ↔ j ≤ i := by
  simp [keysFrom, pathSelectKey]

lemma positionKey_mem {purpose : Purpose} (h : purpose ≠ .pathSelect) {i j : ℕ} :
    positionKey purpose length i ∈ keysFrom length j ↔ j ≤ i := by
  simp [keysFrom, positionKey, h]

lemma Drafted.measurable (hq : Drafted q draw) (w : List ℤ) (t : ℤ) :
    MeasurableSet {x | draw w x = t} := by
  rcases hq with ⟨-, hdraw⟩ | ⟨-, drafts, hdrafts⟩
  · exact hdraw.measurable w t
  · simp only [hdrafts]
    exact MeasurableSet.const _

/-- The law of the draft after `w`, as the weights that the pickers subtract.  Without a shortlist
only one draft has weight. -/
lemma Drafted.lintegral (hq : Drafted q draw) (w : List ℤ) :
    ∃ d, (∀ H : ℤ → ℝ≥0∞, ∫⁻ x, H (draw w x) ∂unit =
        (tsum fun t => ofReal (pLessQAt t d (q w)) * H t)) ∧
      (∀ t, 0 ≤ pLessQAt t d (q w)) ∧
      (∀ t, pLessQAt t d (q w) ≠ 0 → t = d ∨ (q w).isEmpty = false) := by
  rcases hq with ⟨hlaw, hdraw⟩ | ⟨hnone, drafts, hdrafts⟩
  · have hempty : ¬ (q w).isEmpty = true := by simp [(hlaw w).ne_nil]
    have hweight : ∀ t, pLessQAt t 0 (q w) = weightOf (q w) t := by
      intro t
      rw [pLessQAt, if_neg hempty, selectorQ, if_neg hempty]
    refine ⟨0, ?_, ?_, fun t _ => Or.inr (hlaw w).ne_nil⟩
    · intro H
      simp only [hweight]
      exact hdraw.lintegral w H
    · intro t
      rw [hweight]
      exact weightOf_nonneg (hlaw w).nonneg t
  · have hempty : (q w).isEmpty = true := by simp [hnone w]
    have hone : ∀ t, pLessQAt t (drafts w) (q w) = if t = drafts w then (1 : ℝ) else 0 :=
      fun t => if_pos hempty
    refine ⟨drafts w, ?_, ?_, ?_⟩
    · intro H
      simp only [hdrafts, hone]
      rw [tsum_eq_single (drafts w)]
      · simp
      · intro t ht
        simp [ht]
    · intro t
      rw [hone]
      split
      · exact zero_le_one
      · exact le_refl 0
    · intro t ht
      rw [hone] at ht
      left
      by_contra hne
      exact ht (if_neg hne)

lemma Drafted.isEmpty_or_isLaw (hq : Drafted q draw) (w : List ℤ) :
    (q w).isEmpty = true ∨ IsLaw (q w) := by
  rcases hq with ⟨hlaw, -⟩ | ⟨hnone, -⟩
  · exact Or.inr (hlaw w)
  · exact Or.inl (by rw [hnone w, List.isEmpty_nil])

/-- What is subtracted for a draft is a law. -/
lemma tsum_pLessQAt {shortlist : Candidates ℝ} (d : ℤ)
    (hlaw : shortlist.isEmpty = true ∨ IsLaw shortlist) :
    (tsum fun t => ofReal (pLessQAt t d shortlist)) = 1 := by
  by_cases hempty : shortlist.isEmpty = true
  · rw [tsum_eq_single d]
    · simp [pLessQAt, hempty]
    · intro t ht
      simp [pLessQAt, hempty, ht]
  · have hweight : ∀ t, pLessQAt t d shortlist = weightOf shortlist t := by
      intro t
      rw [pLessQAt, if_neg hempty, selectorQ, if_neg hempty]
    simp only [hweight]
    exact (hlaw.resolve_left hempty).tsum_weightOf

lemma measurableSet_takesDraft (column shortlist : Candidates ℝ) (d : ℤ) :
    MeasurableSet {x | takesDraft column shortlist d x} :=
  (MeasurableSet.const _).inter measurableSet_Iio

lemma reads_chainFrom (hq : Drafted q draw) (rest : ℕ) (w : List ℤ) :
    Reads (keysFrom length w.length) fun u => chainFrom p q draw length u rest w := by
  induction rest generalizing w with
  | zero =>
    refine Reads.map (reads_draw (measurableSet_pickFromSupport _ _) ?_) fun t => [t]
    exact (positionKey_mem (by decide)).mpr (Nat.le_refl _)
  | succ rest ih =>
    have hdraw : Reads (keysFrom length w.length) fun u =>
        draw w (u (pathSelectKey length w.length)) :=
      reads_draw (hq.measurable w) (pathSelectKey_mem.mpr (Nat.le_refl _))
    refine hdraw.seq (Y := fun d u =>
      if takesDraft (p w) (q w) d (u (positionKey .speculativeAccept length w.length)) then
        d :: chainFrom p q draw length u rest (w ++ [d])
      else
        [pickFromPMinusQ (p w) (q w) d (u (positionKey .speculativeCorrection length w.length))])
      fun d => ?_
    apply reads_ite ((positionKey_mem (by decide)).mpr (Nat.le_refl _))
      (measurableSet_takesDraft (p w) (q w) d)
    · refine Reads.map ((ih (w ++ [d])).mono (keysFrom_anti ?_)) (List.cons d)
      simp
    · refine Reads.map (reads_draw (measurableSet_pickFromPMinusQ _ _ _) ?_) fun t => [t]
      exact (positionKey_mem (by decide)).mpr (Nat.le_refl _)

/-- The target's conditional laws. -/
noncomputable def targetLaw (p : List ℤ → Candidates ℝ) (w : List ℤ) (t : ℤ) : ℝ := weightOf (p w) t

lemma samples_sampleTarget (hp : ∀ w, IsTargetLaw vocab (p w)) :
    Samples (targetLaw p) (sampleTarget p) :=
  samples_of_lintegral (fun w => measurableSet_pickFromSupport (p w) (-1))
    fun w => lintegral_pickFromSupport (hp w)

/-- A token with weight is in the vocabulary, so that clamping leaves it. -/
lemma clampToken_of_weightOf {law : Candidates ℝ} (h : IsTargetLaw vocab law) {t : ℤ}
    (ht : weightOf law t ≠ 0) : clampToken t 0 vocab = t := by
  have hmem : t ∈ law.map Prod.fst := by
    by_contra hnot
    exact ht (weightOf_of_not_mem hnot)
  obtain ⟨c, hc, rfl⟩ := List.mem_map.mp hmem
  exact if_pos (h.inVocab c hc)

lemma positionKey_injective (purpose : Purpose) (length : ℕ) :
    Function.Injective (positionKey purpose length) := by
  intro i j h
  simp only [positionKey, Key.mk.injEq] at h
  omega

/-- The mean over the strings that start with `t` after `w`. -/
noncomputable def meanAfter (p : List ℤ → Candidates ℝ) (n : ℕ) (w : List ℤ) (g : List ℤ → ℝ≥0∞)
    (t : ℤ) : ℝ≥0∞ :=
  mean (targetLaw p) n (w ++ [t]) fun y => g (t :: y)

lemma reads_endWith (hp : ∀ w, IsTargetLaw vocab (p w)) (n : ℕ) (w : List ℤ) (t : ℤ) :
    Reads (keysFrom length (w.length + 1)) (endWith vocab p length n w t) := by
  refine Reads.map (reads_tokens (samples_sampleTarget hp) n _ ?_) (List.cons _)
  intro j hj
  rw [List.length_append] at hj
  exact (positionKey_mem (by decide)).mpr hj

lemma expect_endWith (hp : ∀ w, IsTargetLaw vocab (p w)) (n : ℕ) (w : List ℤ) (t : ℤ)
    (g : List ℤ → ℝ≥0∞) :
    expect (endWith vocab p length n w t) g = meanAfter p n w g (clampToken t 0 vocab) :=
  expect_tokens (samples_sampleTarget hp) (positionKey_injective .decode length) n _
    fun y => g (clampToken t 0 vocab :: y)

/-- The same with the pick made from a draw at this column. -/
lemma expect_pick_endWith (hp : ∀ w, IsTargetLaw vocab (p w)) (n : ℕ) (w : List ℤ)
    {pick : ℝ → ℤ} (hpick : ∀ t, MeasurableSet {x | pick x = t}) {key : Key}
    (hkey : key ∉ keysFrom length (w.length + 1)) (g : List ℤ → ℝ≥0∞) :
    expect (fun u => endWith vocab p length n w (pick (u key)) u) g =
      ∫⁻ x, meanAfter p n w g (clampToken (pick x) 0 vocab) ∂unit := by
  rw [expect_seq (Set.disjoint_singleton_left.mpr hkey) (reads_draw hpick (Set.mem_singleton _))
    (reads_endWith hp n w), expect_draw hpick]
  simp only [expect_endWith hp]

/-- Clamping is not seen under weights that vanish outside the vocabulary. -/
lemma tsum_clampToken {W : ℤ → ℝ≥0∞} (hW : ∀ t, W t ≠ 0 → clampToken t 0 vocab = t)
    (G : ℤ → ℝ≥0∞) : (tsum fun t => W t * G (clampToken t 0 vocab)) = tsum fun t => W t * G t := by
  refine tsum_congr fun t => ?_
  by_cases ht : W t = 0
  · rw [ht, zero_mul, zero_mul]
  · rw [hW t ht]

/-- With which probability a draft is taken. -/
noncomputable def acceptProbability (column shortlist : Candidates ℝ) (d : ℤ) : ℝ :=
  if 0 < selectorQ shortlist d then min 1 (weightOf column d / selectorQ shortlist d) else 0

lemma expect_takesDraft {column shortlist : Candidates ℝ} (hcolumn : IsLaw column) (d : ℤ)
    {key : Key} {T : Set Key} (hkey : key ∉ T) {A B : (Key → ℝ) → List ℤ} (hA : Reads T A)
    (hB : Reads T B) (g : List ℤ → ℝ≥0∞) :
    expect (fun u => if takesDraft column shortlist d (u key) then A u else B u) g =
      ofReal (acceptProbability column shortlist d) * expect A g +
        ofReal (1 - acceptProbability column shortlist d) * expect B g := by
  unfold acceptProbability takesDraft
  by_cases hpos : 0 < selectorQ shortlist d
  · simp only [hpos, true_and]
    apply expect_lt _ (min_le_left _ _) hkey hA hB
    exact le_min zero_le_one (div_nonneg (weightOf_nonneg hcolumn.nonneg d) hpos.le)
  · simp [hpos]

lemma reads_chainOutput (hp : ∀ w, IsTargetLaw vocab (p w)) (hq : Drafted q draw) (rest n : ℕ)
    {w v : List ℤ} (hv : w.length ≤ v.length) :
    Reads (keysFrom length w.length) (chainOutput vocab p q draw length rest n w v) := by
  refine (reads_chainFrom hq rest w).seq (Y := fun y u =>
    let licensed := y.map fun token => clampToken token 0 vocab
    licensed ++ tokens (sampleTarget p) (positionKey .decode length) u (n - licensed.length)
      (v ++ licensed)) fun y => ?_
  refine Reads.map (reads_tokens (samples_sampleTarget hp) _ _ ?_) (_ ++ ·)
  intro j hj
  rw [List.length_append] at hj
  exact (positionKey_mem (by decide)).mpr (by omega)

lemma reads_goOnWith (hp : ∀ w, IsTargetLaw vocab (p w)) (hq : Drafted q draw) (rest n : ℕ)
    (w : List ℤ) (d : ℤ) :
    Reads (keysFrom length (w.length + 1)) (goOnWith vocab p q draw length rest n w d) := by
  have houtput : Reads (keysFrom length (w ++ [d]).length) (chainOutput vocab p q draw length rest n
      (w ++ [d]) (w ++ [clampToken d 0 vocab])) :=
    reads_chainOutput hp hq rest n (by simp)
  rw [List.length_append] at houtput
  exact Reads.map houtput (List.cons _)

/-- The keys of the columns after column `i`, and that of its correction. -/
def keysAfterAccept (length i : ℕ) : Set Key :=
  insert (positionKey .speculativeCorrection length i) (keysFrom length (i + 1))

lemma keysFrom_subset_keysAfterAccept (length i : ℕ) :
    keysFrom length (i + 1) ⊆ keysAfterAccept length i := Set.subset_insert _ _

lemma accept_notMem_keysAfterAccept (length i : ℕ) :
    positionKey .speculativeAccept length i ∉ keysAfterAccept length i := by
  rw [keysAfterAccept, Set.mem_insert_iff, not_or, positionKey_mem (by decide)]
  exact ⟨by simp [positionKey], by omega⟩

/-- The keys that column `i` reads once its draft is known, and those of the columns after it. -/
def keysAtColumn (length i : ℕ) : Set Key :=
  insert (positionKey .speculativeAccept length i) (keysAfterAccept length i)

lemma pathSelectKey_notMem_keysAtColumn (length i : ℕ) :
    pathSelectKey length i ∉ keysAtColumn length i := by
  rw [keysAtColumn, Set.mem_insert_iff, keysAfterAccept, Set.mem_insert_iff, pathSelectKey_mem]
  simp [pathSelectKey, positionKey]

section

variable (hp : ∀ w, IsTargetLaw vocab (p w))

include hp

lemma reads_endWith_residual (n : ℕ) (w : List ℤ) (d : ℤ) :
    Reads (keysAfterAccept length w.length) fun u =>
      endWith vocab p length n w (pickFromPMinusQ (p w) (q w) d
        (u (positionKey .speculativeCorrection length w.length))) u := by
  refine (reads_draw (measurableSet_pickFromPMinusQ (p w) (q w) d) (Set.mem_insert _ _)).seq
    fun t => ?_
  exact (reads_endWith hp n w t).mono (keysFrom_subset_keysAfterAccept length w.length)

lemma reads_atColumn (hq : Drafted q draw) (rest n : ℕ) (w : List ℤ) (d : ℤ) :
    Reads (keysAtColumn length w.length) (atColumn vocab p q draw length rest n w d) := by
  have hsub : keysAfterAccept length w.length ⊆ keysAtColumn length w.length :=
    Set.subset_insert _ _
  apply reads_ite (Set.mem_insert _ _) (measurableSet_takesDraft (p w) (q w) d)
  · exact (reads_goOnWith hp hq rest n w d).mono
      ((keysFrom_subset_keysAfterAccept length w.length).trans hsub)
  · exact (reads_endWith_residual hp n w d).mono hsub

/-- A column takes its draft or draws from the residual. -/
lemma expect_atColumn (hq : Drafted q draw) (rest n : ℕ) (w : List ℤ) (d : ℤ) (g : List ℤ → ℝ≥0∞) :
    expect (atColumn vocab p q draw length rest n w d) g =
      ofReal (acceptProbability (p w) (q w) d) *
          expect (goOnWith vocab p q draw length rest n w d) g +
        ofReal (1 - acceptProbability (p w) (q w) d) *
          ∫⁻ x, meanAfter p n w g (clampToken (pickFromPMinusQ (p w) (q w) d x) 0 vocab) ∂unit := by
  have hkey : positionKey .speculativeCorrection length w.length ∉
      keysFrom length (w.length + 1) := by
    rw [positionKey_mem (by decide)]
    omega
  have hgoOn : Reads (keysAfterAccept length w.length)
      (goOnWith vocab p q draw length rest n w d) :=
    (reads_goOnWith hp hq rest n w d).mono (keysFrom_subset_keysAfterAccept length w.length)
  rw [← expect_pick_endWith hp n w (measurableSet_pickFromPMinusQ (p w) (q w) d) hkey]
  exact expect_takesDraft (hp w).toIsLaw d (accept_notMem_keysAfterAccept length w.length) hgoOn
    (reads_endWith_residual hp n w d) g

/-- The draft of a column, taken or replaced, has the law of the column. -/
lemma tsum_column (hq : Drafted q draw) (w : List ℤ)
    {goOn G : ℤ → ℝ≥0∞} (hgoOn : ∀ t, clampToken t 0 vocab = t → goOn t = G t) :
    ∫⁻ x, (ofReal (acceptProbability (p w) (q w) (draw w x)) * goOn (draw w x) +
        ofReal (1 - acceptProbability (p w) (q w) (draw w x)) *
          ∫⁻ y, G (clampToken (pickFromPMinusQ (p w) (q w) (draw w x) y) 0 vocab) ∂unit) ∂unit =
      tsum fun t => ofReal (weightOf (p w) t) * G t := by
  obtain ⟨d, hdraft, hnonneg, hsame⟩ := hq.lintegral w
  have hweight := weightOf_nonneg (hp w).nonneg
  have hone := tsum_pLessQAt d (hq.isEmpty_or_isLaw w)
  have haccept : ∀ t, 0 < pLessQAt t d (q w) → acceptProbability (p w) (q w) t =
      min (weightOf (p w) t / pLessQAt t d (q w)) 1 := by
    intro t ht
    have hselector : selectorQ (q w) t = pLessQAt t d (q w) := by
      rcases hsame t ht.ne' with rfl | hempty
      · exact selectorQ_eq_pLessQAt t (q w)
      · rw [pLessQAt, if_neg (by simp [hempty])]
    rw [acceptProbability, hselector, if_pos ht, min_comm]
  have hpone : (tsum fun t => ofReal (weightOf (p w) t)) = ofReal 1 := by
    rw [(hp w).tsum_weightOf, ofReal_one]
  have hresidual : ∀ t, ofReal (max 0 (weightOf (p w) t - pLessQAt t d (q w))) ≠ 0 →
      clampToken t 0 vocab = t := by
    refine fun t ht => clampToken_of_weightOf (hp w) fun hzero => ht ?_
    rw [max_eq_left (by linarith [hnonneg t]), ofReal_zero]
  have hR := residualMass_mul_lintegral (hp w).toIsLaw (hq.isEmpty_or_isLaw w) d
    fun t => G (clampToken t 0 vocab)
  have hmass : (tsum fun t => ofReal (max 0 (weightOf (p w) t - pLessQAt t d (q w)))) =
      ofReal (residualMass (p w) (q w) d).toReal := by
    rw [ENNReal.ofReal_toReal, residualMass]
    apply ne_top_of_le_ne_top ENNReal.one_ne_top
    rw [← (hp w).tsum_weightOf]
    refine ENNReal.tsum_le_tsum fun t => ENNReal.ofReal_le_ofReal ?_
    exact max_le (hweight t) (by linarith [hnonneg t])
  rw [tsum_clampToken hresidual, residualMass, hmass] at hR
  rw [hdraft fun t => ofReal (acceptProbability (p w) (q w) t) * goOn t +
    ofReal (1 - acceptProbability (p w) (q w) t) *
      ∫⁻ y, G (clampToken (pickFromPMinusQ (p w) (q w) t y) 0 vocab) ∂unit,
    ← Residual.mean_accept_or_residual hweight hnonneg zero_le_one ENNReal.toReal_nonneg
      zero_le_one hpone hone hmass (by ring) haccept hR, ofReal_one]
  refine tsum_congr fun t => ?_
  rcases (hnonneg t).eq_or_lt with hzero | hpos
  · rw [← hzero, ofReal_zero, zero_mul, zero_mul]
  · have hpick : ∀ x, pickFromPMinusQ (p w) (q w) t x = pickFromPMinusQ (p w) (q w) d x := by
      intro x
      rcases hsame t hpos.ne' with rfl | hempty
      · rfl
      · simp only [pickFromPMinusQ, hempty, Bool.false_eq_true, if_false]
    simp only [hpick, one_mul]
    by_cases ht : weightOf (p w) t = 0
    · rw [haccept t hpos, ht, zero_div, min_eq_left zero_le_one, ofReal_zero, zero_mul,
        zero_mul]
    · rw [hgoOn t (clampToken_of_weightOf (hp w) ht)]

/-- From any column on, a round and target sampling after it have the target's law. -/
theorem expect_chainOutput (hq : Drafted q draw) {rest n : ℕ}
    (hn : rest < n) (w : List ℤ) (g : List ℤ → ℝ≥0∞) :
    expect (chainOutput vocab p q draw length rest n w w) g = mean (targetLaw p) n w g := by
  induction rest generalizing n w g with
  | zero =>
    obtain ⟨n, rfl⟩ : ∃ m, n = m + 1 := ⟨n - 1, by omega⟩
    have hkey : positionKey .speculativeBonus length w.length ∉ keysFrom length (w.length + 1) := by
      rw [positionKey_mem (by decide)]
      omega
    rw [funext (chainOutput_zero vocab p q draw length n w),
      expect_pick_endWith hp n w (measurableSet_pickFromSupport (p w) (-1)) hkey,
      lintegral_pickFromSupport (hp w) fun t => meanAfter p n w g (clampToken t 0 vocab),
      tsum_clampToken fun t ht => clampToken_of_weightOf (hp w) fun hzero => ht (by simp [hzero])]
    rfl
  | succ rest ih =>
    obtain ⟨n, rfl⟩ : ∃ m, n = m + 1 := ⟨n - 1, by omega⟩
    have hgoOn : ∀ t, clampToken t 0 vocab = t →
        expect (goOnWith vocab p q draw length rest n w t) g = meanAfter p n w g t := by
      intro t ht
      rw [funext (goOnWith_eq_cons ht p q draw length rest n w)]
      exact ih (Nat.lt_of_succ_lt_succ hn) (w ++ [t]) fun y => g (t :: y)
    rw [funext (chainOutput_succ vocab p q draw length rest n w),
      expect_seq (Set.disjoint_singleton_left.mpr (pathSelectKey_notMem_keysAtColumn length _))
        (reads_draw (hq.measurable w) (Set.mem_singleton _)) (reads_atColumn hp hq rest n w),
      expect_draw (hq.measurable w)]
    simp only [expect_atColumn hp hq]
    rw [tsum_column hp hq w hgoOn]
    rfl

end

end Law

/-- Token-wise speculative sampling is lossless.  For every target law on the vocabulary, every
drafting law (or determined drafts without shortlists) and every extent, the round's tokens followed
by target sampling come out as any string of at most `extent + 1` tokens with the product of the
target's conditionals. -/
theorem chain_acceptance_lossless (vocab k : ℕ) (p q : List ℤ → Candidates ℝ)
    (draw : List ℤ → ℝ → ℤ) (hp : ∀ w, IsTargetLaw vocab (p w)) (hq : Drafted q draw) (extent : ℤ)
    (length : ℕ) (counts : Option (ℤ → ℕ)) (x : List ℤ)
    (hx : x.length ≤ clampExtent extent k + 1) :
    tape Key {u | (chainTokens vocab k p q draw extent length counts (clampExtent extent k + 1)
        u).take x.length = x} = joint (targetLaw p) [] x := by
  have hreads : Reads (keysFrom length 0) (chainOutput vocab p q draw length (clampExtent extent k)
      (clampExtent extent k + 1) [] []) :=
    reads_chainOutput hp hq _ _ (Nat.le_refl _)
  simp only [chainTokens_eq_chainOutput]
  rw [tape_eq_expect hreads fun y => y.take x.length = x,
    expect_chainOutput hp hq (Nat.lt_succ_self _)]
  exact mean_take (fun w => (hp w).tsum_weightOf) [] hx

/-- A law that gives two tokens the same weight. -/
noncomputable def fairLaw (s t : ℤ) : Candidates ℝ := [(s, 1 / 2), (t, 1 / 2)]

lemma isTargetLaw_fairLaw {vocab : ℕ} {s t : ℤ} (hst : s ≠ t) (hs : 0 ≤ s ∧ s < vocab)
    (ht : 0 ≤ t ∧ t < vocab) : IsTargetLaw vocab (fairLaw s t) where
  distinct := by simp [fairLaw, hst]
  nonneg := by simp [fairLaw]
  one := by norm_num [fairLaw]
  inVocab := by simp [fairLaw, hs, ht]

/-- A target on the tokens 0 and 1 with drafts from the tokens 1 and 2. -/
theorem chain_acceptance_lossless_shifted :
    tape Key {u | (chainTokens 2 1 (fun _ => fairLaw 0 1) (fun _ => fairLaw 1 2)
        (sampleTarget fun _ => fairLaw 1 2) 1 0 none 2 u).take 2 = [0, 1]} =
      joint (targetLaw fun _ => fairLaw 0 1) [] [0, 1] := by
  have hp : ∀ w : List ℤ, IsTargetLaw 2 ((fun _ => fairLaw 0 1) w) :=
    fun _ => isTargetLaw_fairLaw (by decide) (by decide) (by decide)
  have hq : ∀ w : List ℤ, IsTargetLaw 3 ((fun _ => fairLaw 1 2) w) :=
    fun _ => isTargetLaw_fairLaw (by decide) (by decide) (by decide)
  exact chain_acceptance_lossless 2 1 _ _ _ hp
    (Or.inl ⟨fun w => (hq w).toIsLaw, samples_sampleTarget hq⟩) 1 0 none [0, 1] (by decide)

end NInfer.SpeculativeRound
