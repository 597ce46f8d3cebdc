import NInfer.Ops.ChainAcceptance
import NInfer.Ops.PLess

/-!
# Block verification

Under p-less sampling a drafted chain is verified as a block (`speculative_p_less_block_verify`).
The round gives every prefix of the drafts a weight, `p_0 = 1` and
`p_i = min (p_{i-1} p'(d_i) / q(d_i)) 1`, and a threshold `h_i`; it commits the longest prefix whose
uniform is below its threshold, then a token from the residual `max 0 (p_i p' - q)` of that prefix,
or a bonus token if the prefix is the whole chain.

The number of committed tokens depends on all uniforms, but seen from the end of the chain the law
is simple: the prefix `w` or one of its extensions is committed with probability `p_w`, and the
tokens after `w` then have the target's law (`expect_blockFrom`).  For the whole round this is
`block_verification_lossless`.
-/

namespace NInfer.SpeculativeRound

open Sampling InverseCdf Autoregressive Draws MeasureTheory
open scoped ENNReal
open ENNReal (ofReal ofReal_eq_zero ofReal_mul ofReal_ne_top ofReal_one ofReal_sub ofReal_zero)

/-- The uniform that prefix `i` is compared with. -/
def blockAcceptKey (length i : ℕ) : Key := ⟨length + 1, .speculativeBlockAccept, i⟩

/-! ## The device function -/

section Device

variable {K : Type} [Field K] [LinearOrder K]

/-- The weight of a prefix from that of the prefix before it. -/
def blockWeight (previous pd qd : K) : K := if qd > 0 then min (previous * pd / qd) 1 else 0

/-- The loop over the shortlist: the target's mass on it and the residual's, each token once. -/
def coverLoop (prob : ℤ → K) (p : K) (shortlist : Candidates K) :
    Candidates K → List ℤ → K × K → K × K
  | [], _, acc => acc
  | c :: rest, seen, (covered, excess) =>
    if c.1 ∈ seen then coverLoop prob p shortlist rest (c.1 :: seen) (covered, excess)
    else coverLoop prob p shortlist rest (c.1 :: seen)
      (covered + prob c.1, excess + max (p * prob c.1 - selectorQ shortlist c.1) 0)

/-- `covered` and `excess`. -/
def coverage (prob : ℤ → K) (p : K) (draft : ℤ) (shortlist : Candidates K) : K × K :=
  if shortlist.isEmpty then (prob draft, max (p * prob draft - 1) 0)
  else coverLoop prob p shortlist shortlist [] (0, 0)

/-- The residual's mass as the kernel computes it from the shortlist. -/
def coveredMass (prob : ℤ → K) (p : K) (draft : ℤ) (shortlist : Candidates K) : K :=
  let cover := coverage prob p draft shortlist
  max (p * (1 - min cover.1 1) + cover.2) 0

/-- `denom`. -/
def blockDenominator (prob : ℤ → K) (p : K) (draft : ℤ) (shortlist : Candidates K) : K :=
  coveredMass prob p draft shortlist + 1 - p

/-- The threshold of a prefix that is not the whole chain. -/
def blockThreshold (prob : ℤ → K) (p : K) (draft : ℤ) (shortlist : Candidates K) : K :=
  if blockDenominator prob p draft shortlist > 0 then
    coveredMass prob p draft shortlist / blockDenominator prob p draft shortlist
  else 1

/-- The loop of `speculative_p_less_block_verify` from hop `i + 1` on; `best` is the prefix found so
far and its weight. -/
def blockLoop (columnProb : ℕ → ℤ → K) (shortlists : ℕ → Candidates K) (drafts : List ℤ)
    (extent length : ℕ) (u : Key → K) : ℕ → ℕ → K → ℕ × K → ℕ × K
  | 0, _, _, best => best
  | rest + 1, i, previous, best =>
    let d := drafts.getD i 0
    let p := blockWeight previous (columnProb i d) (pLessQAt d d (shortlists i))
    let h := if i + 1 < extent then
        blockThreshold (columnProb (i + 1)) p (drafts.getD (i + 1) 0) (shortlists (i + 1))
      else p
    blockLoop columnProb shortlists drafts extent length u rest (i + 1) p
      (if u (blockAcceptKey length (i + 1)) ≤ h then (i + 1, p) else best)

/-- `speculative_p_less_block_verify`: `tau` and `tau_weight`. -/
def blockVerify (columnProb : ℕ → ℤ → K) (shortlists : ℕ → Candidates K) (drafts : List ℤ)
    (extent length : ℕ) (u : Key → K) : ℕ × K :=
  blockLoop columnProb shortlists drafts extent length u extent 0 1 (0, 1)

/-- The token that follows the committed prefix. -/
def blockToken (vocab block : ℕ) (columns : ℕ → Column K) (shortlists : ℕ → Candidates K)
    (drafts : List ℤ) (extent length : ℕ) (u : Key → K) (best : ℕ × K) : ℤ :=
  if best.1 < extent then
    pLessResidual (columns best.1) block vocab best.2
      (u (positionKey .speculativeCorrection length best.1)) (drafts.getD best.1 0)
      (shortlists best.1)
  else
    pLessInverseCdf (columns best.1) block vocab (u (positionKey .speculativeBonus length best.1))

/-- The residual that the round draws from is empty, so that its pick falls back. -/
def emptyResidual (vocab block : ℕ) (columns : ℕ → Column K) (shortlists : ℕ → Candidates K)
    (drafts : List ℤ) (extent : ℕ) (best : ℕ × K) : Prop :=
  best.1 < extent ∧ ¬ blockMass ((columns best.1).residualWeight vocab best.2
    (drafts.getD best.1 0) (shortlists best.1)) block vocab > 0

/-- Some hop of the loop has no positive denominator, so that its threshold falls back. -/
def zeroDenominator (columnProb : ℕ → ℤ → K) (shortlists : ℕ → Candidates K) (drafts : List ℤ)
    (extent : ℕ) : ℕ → ℕ → K → Prop
  | 0, _, _ => False
  | rest + 1, i, previous =>
    let d := drafts.getD i 0
    let p := blockWeight previous (columnProb i d) (pLessQAt d d (shortlists i))
    (i + 1 < extent ∧ ¬ blockDenominator (columnProb (i + 1)) p (drafts.getD (i + 1) 0)
      (shortlists (i + 1)) > 0) ∨
    zeroDenominator columnProb shortlists drafts extent rest (i + 1) p

/-- The p-less branch of `speculative_accept_greedy_drafts_kernel`. -/
def blockRound (vocab k block : ℕ) (columns : ℕ → Column K) (shortlists : ℕ → Candidates K)
    (drafts : List ℤ) (extent : ℤ) (length : ℕ) (counts : Option (ℤ → ℕ)) (u : Key → K) :
    Committed :=
  let n := clampExtent extent k
  let best := blockVerify (fun i => pLessProb (columns i) vocab) shortlists drafts n length u
  commitChain vocab k drafts length counts best.1
    (blockToken vocab block columns shortlists drafts n length u best)

/-- Sampling from the target. -/
def samplePLess (block vocab : ℕ) (p : List ℤ → Column K) (w : List ℤ) (u : K) : ℤ :=
  pLessInverseCdf (p w) block vocab u

/-- A round whose `k` drafts are drawn one after the other, and then target sampling until there are
`n` tokens. -/
def blockTokens (vocab k block : ℕ) (p : List ℤ → Column K) (q : List ℤ → Candidates K)
    (draw : List ℤ → K → ℤ) (extent : ℤ) (length : ℕ) (counts : Option (ℤ → ℕ)) (n : ℕ)
    (u : Key → K) : List ℤ :=
  let drafts := tokens draw (pathSelectKey length) u k []
  let licensed := (blockRound vocab k block (fun i => p (drafts.take i))
    (fun i => q (drafts.take i)) drafts extent length counts u).licensed
  licensed ++ tokens (samplePLess block vocab p) (positionKey .decode length) u
    (n - licensed.length) licensed

/-! ## The round from a prefix on -/

/-- The end of a round at prefix `w` with weight `c`: the residual's token, and whether the residual
was empty. -/
def stopAt (vocab block : ℕ) (p : List ℤ → Column K) (q : List ℤ → Candidates K) (length : ℕ)
    (w : List ℤ) (c : K) (d : ℤ) (u : Key → K) : List ℤ × Bool :=
  ([pLessResidual (p w) block vocab c (u (positionKey .speculativeCorrection length w.length)) d
      (q w)],
    ¬ blockMass ((p w).residualWeight vocab c d (q w)) block vocab > 0)

/-- The extensions of a prefix have precedence over the prefix itself. -/
def preferLater (d : ℤ) (stop : Option (List ℤ × Bool)) :
    Option (List ℤ × Bool) → Option (List ℤ × Bool)
  | some (y, empty) => some (d :: y, empty)
  | none => stop

/-- The tokens after prefix `w` with weight `c`, if `w` or an extension of it is committed. -/
def blockFrom (vocab block : ℕ) (p : List ℤ → Column K) (q : List ℤ → Candidates K)
    (draw : List ℤ → K → ℤ) (length : ℕ) (u : Key → K) :
    ℕ → List ℤ → K → Option (List ℤ × Bool)
  | 0, w, c =>
    if u (blockAcceptKey length w.length) ≤ c then
      some ([pLessInverseCdf (p w) block vocab
        (u (positionKey .speculativeBonus length w.length))], false)
    else none
  | rest + 1, w, c =>
    let d := draw w (u (pathSelectKey length w.length))
    preferLater d
      (if u (blockAcceptKey length w.length) ≤
          blockThreshold (pLessProb (p w) vocab) c d (q w) then
        some (stopAt vocab block p q length w c d u)
      else none)
      (blockFrom vocab block p q draw length u rest (w ++ [d])
        (blockWeight c (pLessProb (p w) vocab d) (pLessQAt d d (q w))))

/-- The whole round: the empty prefix is always there to be committed. -/
def blockRoot (vocab block : ℕ) (p : List ℤ → Column K) (q : List ℤ → Candidates K)
    (draw : List ℤ → K → ℤ) (length : ℕ) (u : Key → K) : ℕ → Option (List ℤ × Bool)
  | 0 => some ([pLessInverseCdf (p []) block vocab
      (u (positionKey .speculativeBonus length 0))], false)
  | rest + 1 =>
    let d := draw [] (u (pathSelectKey length 0))
    preferLater d (some (stopAt vocab block p q length [] 1 d u))
      (blockFrom vocab block p q draw length u rest [d]
        (blockWeight 1 (pLessProb (p []) vocab d) (pLessQAt d d (q []))))

/-- What the loop has found, against what the recursion over prefixes ends with. -/
structure LoopEnds (vocab block : ℕ) (p : List ℤ → Column K) (q : List ℤ → Candidates K)
    (drafts : List ℤ) (extent length : ℕ) (u : Key → K) (w : List ℤ)
    (outcome : Option (List ℤ × Bool)) (best result : ℕ × K) : Prop where
  found : ∀ y empty, outcome = some (y, empty) →
    drafts.take result.1 ++ [blockToken vocab block (fun i => p (drafts.take i))
      (fun i => q (drafts.take i)) drafts extent length u result] = w ++ y ∧
    (emptyResidual vocab block (fun i => p (drafts.take i)) (fun i => q (drafts.take i)) drafts
      extent result ↔ empty = true) ∧ result.1 ≤ extent
  missed : outcome = none → result = best

section Loop

variable {vocab block : ℕ} {p : List ℤ → Column K} {q : List ℤ → Candidates K}
  {draw : List ℤ → K → ℤ} {length : ℕ} {u : Key → K} {k extent : ℕ} {w drafts : List ℤ} {c : K}
  {b : ℕ × K}

/-- A round that stops at a prefix before the end of the chain. -/
lemma loopEnds_stopAt (htake : drafts.take w.length = w) (hextent : w.length < extent) {d : ℤ}
    (hd : drafts.getD w.length 0 = d) :
    LoopEnds vocab block p q drafts extent length u w
      (some (stopAt vocab block p q length w c d u)) b (w.length, c) := by
  refine ⟨?_, fun h => absurd h (by simp)⟩
  intro y empty h
  obtain ⟨rfl, rfl⟩ := Prod.mk.inj (Option.some.inj h)
  refine ⟨?_, ?_, hextent.le⟩
  · simp only [blockToken, hextent, if_true, htake, hd]
  · simp only [emptyResidual, hextent, true_and, htake, hd, decide_eq_true_eq]

/-- The loop from prefix `w` on does what the recursion over prefixes does. -/
lemma blockLoop_ends {rest : ℕ} (hrest : rest ≤ k)
    (hdrafts : drafts = w ++ tokens draw (pathSelectKey length) u k w)
    (hextent : extent = w.length + rest) :
    LoopEnds vocab block p q drafts extent length u w
      (blockFrom vocab block p q draw length u rest w c) b
      (blockLoop (fun i => pLessProb (p (drafts.take i)) vocab) (fun i => q (drafts.take i)) drafts
        extent length u rest w.length c
        (if u (blockAcceptKey length w.length) ≤
            (if w.length < extent then
              blockThreshold (pLessProb (p w) vocab) c (drafts.getD w.length 0) (q w)
            else c) then
          (w.length, c)
        else b)) := by
  have htake : drafts.take w.length = w := by rw [hdrafts, List.take_left]
  induction rest generalizing k w c b with
  | zero =>
    rw [blockFrom, blockLoop, if_neg (by omega : ¬ w.length < extent)]
    by_cases hpass : u (blockAcceptKey length w.length) ≤ c
    · rw [if_pos hpass, if_pos hpass]
      refine ⟨?_, fun h => absurd h (by simp)⟩
      intro y empty h
      obtain ⟨rfl, rfl⟩ := Prod.mk.inj (Option.some.inj h)
      simp [blockToken, emptyResidual, htake, hextent]
    · rw [if_neg hpass, if_neg hpass]
      exact ⟨fun y empty h => absurd h (by simp), fun _ => rfl⟩
  | succ rest ih =>
    obtain ⟨k, rfl⟩ : ∃ k', k = k' + 1 := ⟨k - 1, by omega⟩
    simp only [blockFrom, blockLoop]
    rw [tokens] at hdrafts
    generalize draw w (u (pathSelectKey length w.length)) = d at hdrafts ⊢
    have hget : drafts.getD w.length 0 = d := by simp [hdrafts]
    have hlater : w.length < extent := by omega
    have htake' : drafts.take (w.length + 1) = w ++ [d] := by
      rw [hdrafts, ← List.singleton_append, ← List.append_assoc, List.take_left' (by simp)]
    simp only [hget, htake, hlater, if_true, htake']
    generalize blockWeight c (pLessProb (p w) vocab d) (pLessQAt d d (q w)) = c'
    have hends := ih (w := w ++ [d]) (c := c') (k := k)
      (b := if u (blockAcceptKey length w.length) ≤
          blockThreshold (pLessProb (p w) vocab) c d (q w) then (w.length, c) else b)
      (by omega) (by simp [hdrafts]) (by simp [hextent]; omega) (by simpa using htake')
    rw [List.length_append, List.length_singleton] at hends
    cases houtcome : blockFrom vocab block p q draw length u rest (w ++ [d]) c' with
    | some outcome =>
      obtain ⟨y, empty⟩ := outcome
      rw [houtcome] at hends
      refine ⟨?_, fun h => absurd h (by simp [preferLater])⟩
      intro y' empty' h
      obtain ⟨rfl, rfl⟩ := Prod.mk.inj (Option.some.inj h)
      simpa using hends.found y empty rfl
    | none =>
      rw [hends.missed houtcome]
      by_cases hpass : u (blockAcceptKey length w.length) ≤
          blockThreshold (pLessProb (p w) vocab) c d (q w)
      · rw [if_pos hpass, if_pos hpass]
        exact loopEnds_stopAt htake hlater hget
      · rw [if_neg hpass, if_neg hpass]
        exact ⟨fun y empty h => absurd h (by simp [preferLater]), fun _ => rfl⟩

/-- The round does what the recursion over prefixes does from the empty prefix. -/
lemma blockVerify_ends (vocab block : ℕ) (p : List ℤ → Column K) (q : List ℤ → Candidates K)
    {n : ℕ} (hn : n ≤ k)
    (hdrafts : drafts = tokens draw (pathSelectKey length) u k []) :
    ∃ outcome, blockRoot vocab block p q draw length u n = some outcome ∧
      LoopEnds vocab block p q drafts n length u [] (some outcome) (0, 1)
        (blockVerify (fun i => pLessProb (p (drafts.take i)) vocab) (fun i => q (drafts.take i))
          drafts n length u) := by
  cases n with
  | zero =>
    refine ⟨_, rfl, ?_, fun h => absurd h (by simp)⟩
    intro y empty h
    obtain ⟨rfl, rfl⟩ := Prod.mk.inj (Option.some.inj h)
    simp [blockVerify, blockLoop, blockToken, emptyResidual]
  | succ rest =>
    obtain ⟨k, rfl⟩ : ∃ k', k = k' + 1 := ⟨k - 1, by omega⟩
    simp only [blockRoot]
    rw [tokens] at hdrafts
    generalize draw [] (u (pathSelectKey length 0)) = d at hdrafts ⊢
    have hget : drafts.getD 0 0 = d := by simp [hdrafts]
    have htake : drafts.take (0 + 1) = [d] := by simp [hdrafts]
    generalize hc : blockWeight 1 (pLessProb (p []) vocab d) (pLessQAt d d (q [])) = c
    have hends : LoopEnds vocab block p q drafts (rest + 1) length u [d]
        (blockFrom vocab block p q draw length u rest [d] c) (0, 1)
        (blockVerify (fun i => pLessProb (p (drafts.take i)) vocab) (fun i => q (drafts.take i))
          drafts (rest + 1) length u) := by
      simp only [blockVerify, blockLoop, hget, htake, List.take_zero, hc]
      exact blockLoop_ends (by omega : rest ≤ k) hdrafts (Nat.add_comm rest 1)
    cases houtcome : blockFrom vocab block p q draw length u rest [d] c with
    | some outcome =>
      refine ⟨_, rfl, ?_, fun h => absurd h (by simp)⟩
      intro y empty h
      obtain ⟨rfl, rfl⟩ := Prod.mk.inj (Option.some.inj h)
      exact hends.found _ _ houtcome
    | none =>
      rw [hends.missed houtcome]
      exact ⟨_, rfl, loopEnds_stopAt (w := []) List.take_zero (Nat.succ_pos rest) hget⟩

end Loop

end Device

/-! ## Weights and thresholds -/

section Threshold

variable {prob : ℤ → ℝ} {c : ℝ} {d : ℤ} {shortlist : Candidates ℝ}

lemma blockWeight_mem {previous pd qd : ℝ} (hprevious : 0 ≤ previous) (hpd : 0 ≤ pd) :
    0 ≤ blockWeight previous pd qd ∧ blockWeight previous pd qd ≤ 1 := by
  unfold blockWeight
  split
  case isTrue hqd =>
    exact ⟨le_min (div_nonneg (mul_nonneg hprevious hpd) hqd.le) zero_le_one, min_le_right _ _⟩
  case isFalse => exact ⟨le_refl 0, zero_le_one⟩

/-- Without repeated tokens the loop over the shortlist sums up. -/
lemma coverLoop_eq {rest : Candidates ℝ} {seen : List ℤ} (hdistinct : (rest.map Prod.fst).Nodup)
    (hseen : ∀ t ∈ rest.map Prod.fst, t ∉ seen) (covered excess : ℝ) :
    coverLoop prob c shortlist rest seen (covered, excess) =
      (covered + ((rest.map Prod.fst).map prob).sum,
        excess + ((rest.map Prod.fst).map fun t => max (c * prob t - selectorQ shortlist t) 0).sum)
      := by
  induction rest generalizing seen covered excess with
  | nil => simp [coverLoop]
  | cons a rest ih =>
    rw [List.map_cons, List.nodup_cons] at hdistinct
    rw [coverLoop, if_neg (hseen a.1 List.mem_cons_self), ih hdistinct.2]
    · simp [add_assoc]
    · intro t ht hmem
      rcases List.mem_cons.mp hmem with rfl | hmem
      · exact hdistinct.1 ht
      · exact hseen t (List.mem_cons_of_mem _ ht) hmem

/-- The tokens that the draft's law can have. -/
def proposed (d : ℤ) (shortlist : Candidates ℝ) : List ℤ :=
  if shortlist.isEmpty then [d] else shortlist.map Prod.fst

lemma proposed_nodup (hlaw : shortlist.isEmpty = true ∨ IsLaw shortlist) :
    (proposed d shortlist).Nodup := by
  unfold proposed
  split
  · exact List.nodup_singleton d
  case isFalse hempty => exact (hlaw.resolve_left hempty).distinct

lemma pLessQAt_of_not_proposed {t : ℤ} (ht : t ∉ proposed d shortlist) :
    pLessQAt t d shortlist = 0 := by
  unfold proposed at ht
  unfold pLessQAt
  split at ht
  case isTrue hempty =>
    rw [if_pos hempty]
    simpa using ht
  case isFalse hempty =>
    rw [if_neg hempty, selectorQ, if_neg hempty, weightOf_of_not_mem ht]

lemma coverage_eq (hlaw : shortlist.isEmpty = true ∨ IsLaw shortlist) :
    coverage prob c d shortlist = (((proposed d shortlist).map prob).sum,
      ((proposed d shortlist).map fun t => max (c * prob t - pLessQAt t d shortlist) 0).sum) := by
  unfold coverage proposed
  by_cases hempty : shortlist.isEmpty = true
  · simp [hempty, pLessQAt]
  · have hselector : ∀ t, pLessQAt t d shortlist = selectorQ shortlist t := fun t => if_neg hempty
    rw [if_neg hempty, if_neg hempty, coverLoop_eq (hlaw.resolve_left hempty).distinct (by simp)]
    simp only [zero_add, hselector]

/-- A sum over distinct tokens. -/
lemma ofReal_sum_map {ids : List ℤ} (hids : ids.Nodup) {f : ℤ → ℝ} (hf : ∀ t, 0 ≤ f t) :
    ofReal (ids.map f).sum = tsum fun t => if t ∈ ids then ofReal (f t) else 0 := by
  rw [← List.sum_toFinset f hids, ENNReal.ofReal_sum_of_nonneg fun t _ => hf t,
    tsum_eq_sum (s := ids.toFinset)]
  · refine Finset.sum_congr rfl fun t ht => ?_
    rw [if_pos (List.mem_toFinset.mp ht)]
  · intro t ht
    rw [if_neg fun hmem => ht (List.mem_toFinset.mpr hmem)]

/-- The mass that the kernel computes from the shortlist is that of the residual. -/
theorem ofReal_coveredMass (hprob : ∀ t, 0 ≤ prob t) (hone : (tsum fun t => ofReal (prob t)) = 1)
    (hc : 0 ≤ c) (hlaw : shortlist.isEmpty = true ∨ IsLaw shortlist) :
    ofReal (coveredMass prob c d shortlist) =
      tsum fun t => ofReal (max 0 (c * prob t - pLessQAt t d shortlist)) := by
  have hids := proposed_nodup (d := d) hlaw
  simp only [coveredMass, coverage_eq hlaw]
  have hcovered := ofReal_sum_map hids hprob
  have hexcess := ofReal_sum_map hids
    fun t => le_max_right (c * prob t - pLessQAt t d shortlist) 0
  have hnonneg : 0 ≤ ((proposed d shortlist).map prob).sum :=
    List.sum_nonneg (by simpa using fun t _ => hprob t)
  have hexcess₀ : 0 ≤ ((proposed d shortlist).map
      fun t => max (c * prob t - pLessQAt t d shortlist) 0).sum :=
    List.sum_nonneg (by simp)
  generalize ((proposed d shortlist).map prob).sum = covered at hcovered hnonneg ⊢
  -- The target's mass outside of the shortlist.
  have hsplit : ofReal covered +
      (tsum fun t => (if t ∈ proposed d shortlist then 0 else ofReal (prob t))) = 1 := by
    rw [hcovered, ← ENNReal.tsum_add, ← hone]
    refine tsum_congr fun t => ?_
    by_cases ht : t ∈ proposed d shortlist
    · simp [ht]
    · simp [ht]
  have hle : covered ≤ 1 := by
    rw [← ENNReal.ofReal_le_one, ← hsplit]
    exact le_self_add
  have houtside : (tsum fun t => (if t ∈ proposed d shortlist then 0 else ofReal (prob t))) =
      ofReal (1 - covered) := by
    rw [ofReal_sub _ hnonneg, ofReal_one, ← hsplit,
      ENNReal.add_sub_cancel_left ofReal_ne_top]
  have hfinal : ∀ t, ofReal (max 0 (c * prob t - pLessQAt t d shortlist)) =
      (if t ∈ proposed d shortlist then
        ofReal (max (c * prob t - pLessQAt t d shortlist) 0) else 0) +
      ofReal c * (if t ∈ proposed d shortlist then 0 else ofReal (prob t)) := by
    intro t
    by_cases ht : t ∈ proposed d shortlist
    · rw [if_pos ht, if_pos ht, mul_zero, add_zero, max_comm]
    · rw [if_neg ht, if_neg ht, zero_add, pLessQAt_of_not_proposed ht, sub_zero,
        max_eq_right (mul_nonneg hc (hprob t)), ofReal_mul hc]
  have hterm : 0 ≤ c * (1 - covered) := mul_nonneg hc (by linarith)
  rw [tsum_congr hfinal, ENNReal.tsum_add, ← hexcess, ENNReal.tsum_mul_left, houtside,
    min_eq_left hle, max_eq_left (by linarith), ENNReal.ofReal_add hterm hexcess₀,
    ofReal_mul hc, add_comm]

lemma coveredMass_nonneg (prob : ℤ → ℝ) (c : ℝ) (d : ℤ) (shortlist : Candidates ℝ) :
    0 ≤ coveredMass prob c d shortlist := le_max_right _ _

lemma blockThreshold_mem (hc : c ≤ 1) :
    0 ≤ blockThreshold prob c d shortlist ∧ blockThreshold prob c d shortlist ≤ 1 := by
  have hmass := coveredMass_nonneg prob c d shortlist
  unfold blockThreshold
  split
  case isTrue hpos =>
    refine ⟨div_nonneg hmass hpos.le, (div_le_one hpos).mpr ?_⟩
    rw [blockDenominator]
    linarith
  case isFalse => exact ⟨zero_le_one, le_refl 1⟩

/-- The threshold makes up for the rejected mass, also where it falls back. -/
lemma blockThreshold_mul (hc : c ≤ 1) :
    blockThreshold prob c d shortlist * (coveredMass prob c d shortlist + 1 - c) =
      coveredMass prob c d shortlist := by
  have hmass := coveredMass_nonneg prob c d shortlist
  unfold blockThreshold
  split
  case isTrue hpos => exact div_mul_cancel₀ _ hpos.ne'
  case isFalse hzero =>
    rw [blockDenominator] at hzero
    linarith

/-- The denominator is only zero for a prefix of weight one whose column has the draft's law. -/
lemma blockDenominator_nonpos_iff (hprob : ∀ t, 0 ≤ prob t)
    (hone : (tsum fun t => ofReal (prob t)) = 1)
    (hlaw : shortlist.isEmpty = true ∨ IsLaw shortlist) (hc : 0 ≤ c) (hc₁ : c ≤ 1) :
    ¬ blockDenominator prob c d shortlist > 0 ↔
      c = 1 ∧ ∀ t, prob t = pLessQAt t d shortlist := by
  have hmass := coveredMass_nonneg prob c d shortlist
  have hcovered := ofReal_coveredMass (d := d) hprob hone hc hlaw
  have hqone := tsum_pLessQAt d hlaw
  rw [blockDenominator]
  constructor
  · intro hzero
    have hc' : c = 1 := by linarith
    have hmass' : coveredMass prob c d shortlist = 0 := by linarith
    refine ⟨hc', ?_⟩
    rw [hmass', ofReal_zero, eq_comm, ENNReal.tsum_eq_zero] at hcovered
    have hle : ∀ t, prob t ≤ pLessQAt t d shortlist := by
      intro t
      have hterm := ofReal_eq_zero.mp (hcovered t)
      rw [hc', one_mul] at hterm
      linarith [le_max_right 0 (prob t - pLessQAt t d shortlist)]
    by_contra hne
    obtain ⟨t, ht⟩ := not_forall.mp hne
    have hlt : ofReal (prob t) < ofReal (pLessQAt t d shortlist) := by
      rw [ENNReal.ofReal_lt_ofReal_iff_of_nonneg (hprob t)]
      exact lt_of_le_of_ne (hle t) ht
    have hsum := ENNReal.tsum_lt_tsum (by rw [hone]; exact ENNReal.one_ne_top)
      (fun s => ENNReal.ofReal_le_ofReal (hle s)) hlt
    rw [hone, hqone] at hsum
    exact lt_irrefl 1 hsum
  · rintro ⟨rfl, heq⟩
    have hzero : ofReal (coveredMass prob 1 d shortlist) = 0 := by
      rw [hcovered, ENNReal.tsum_eq_zero]
      intro t
      rw [heq t, one_mul, sub_self, max_self, ofReal_zero]
    have := ofReal_eq_zero.mp hzero
    linarith

end Threshold

/-! ## The law of a round -/

/-- The target's conditional laws. -/
noncomputable def pLessLaw (vocab : ℕ) (p : List ℤ → Column ℝ) (w : List ℤ) (t : ℤ) : ℝ :=
  pLessProb (p w) vocab t

/-- The keys that are read from prefix `i` on, up to the end of the round. -/
def blockKeysFrom (length i : ℕ) : Set Key :=
  {key | key.purpose ≠ .decode ∧
    (key.purpose = .pathSelect ∨ key.purpose = .speculativeBlockAccept → i ≤ key.sub) ∧
    (key.purpose = .speculativeCorrection ∨ key.purpose = .speculativeBonus →
      length + i + 1 ≤ key.position)}

/-- The keys with which prefix `i` stops. -/
def stopKeys (length i : ℕ) : Set Key :=
  {blockAcceptKey length i, positionKey .speculativeCorrection length i}

section Law

variable {vocab block length : ℕ} {p : List ℤ → Column ℝ} {q : List ℤ → Candidates ℝ}
  {draw : List ℤ → ℝ → ℤ}

lemma blockKeysFrom_anti {i j : ℕ} (h : i ≤ j) :
    blockKeysFrom length j ⊆ blockKeysFrom length i := by
  rintro key ⟨hpurpose, hsub, hposition⟩
  refine ⟨hpurpose, fun hkey => Nat.le_trans h (hsub hkey), fun hkey => ?_⟩
  have := hposition hkey
  omega

lemma pathSelectKey_mem_block (i : ℕ) : pathSelectKey length i ∈ blockKeysFrom length i := by
  simp [blockKeysFrom, pathSelectKey]

lemma blockAcceptKey_mem_block (i : ℕ) : blockAcceptKey length i ∈ blockKeysFrom length i := by
  simp [blockKeysFrom, blockAcceptKey]

lemma correctionKey_mem_block (i : ℕ) :
    positionKey .speculativeCorrection length i ∈ blockKeysFrom length i := by
  simp [blockKeysFrom, positionKey]

lemma bonusKey_mem_block (i : ℕ) :
    positionKey .speculativeBonus length i ∈ blockKeysFrom length i := by
  simp [blockKeysFrom, positionKey]

lemma stopKeys_subset (i : ℕ) : stopKeys length i ⊆ blockKeysFrom length i := by
  rintro key (rfl | rfl)
  · exact blockAcceptKey_mem_block i
  · exact correctionKey_mem_block i

lemma disjoint_stopKeys (i : ℕ) : Disjoint (blockKeysFrom length (i + 1)) (stopKeys length i) := by
  rw [Set.disjoint_right]
  rintro key (rfl | rfl) ⟨-, hsub, hposition⟩
  · have := hsub (Or.inr rfl)
    simp [blockAcceptKey] at this
  · have := hposition (Or.inl rfl)
    simp [positionKey] at this

lemma pathSelectKey_notMem_block (i : ℕ) :
    pathSelectKey length i ∉ blockKeysFrom length (i + 1) ∪ stopKeys length i := by
  rintro (⟨-, hsub, -⟩ | hstop | hstop)
  · have := hsub (Or.inl rfl)
    simp [pathSelectKey] at this
  · simp [pathSelectKey, blockAcceptKey] at hstop
  · simp [pathSelectKey, positionKey] at hstop

lemma samples_samplePLess (hp : ∀ w, IsPLessLaw vocab (p w)) (hblock : 0 < block) :
    Samples (pLessLaw vocab p) (samplePLess block vocab p) :=
  samples_of_lintegral (fun w => measurableSet_pLessInverseCdf (p w) block vocab)
    fun w => lintegral_pLessInverseCdf (hp w) hblock

lemma reads_stopAt {S : Set Key} (w : List ℤ)
    (hS : positionKey .speculativeCorrection length w.length ∈ S) (c : ℝ) (d : ℤ) :
    Reads S fun u => some (stopAt vocab block p q length w c d u) :=
  Reads.map (reads_draw (measurableSet_pLessResidual (p w) block vocab c d (q w)) hS) fun t =>
    some ([t], decide ¬ blockMass ((p w).residualWeight vocab c d (q w)) block vocab > 0)

/-- The decision of a prefix that is not the whole chain. -/
noncomputable def stopIf (vocab block : ℕ) (p : List ℤ → Column ℝ) (q : List ℤ → Candidates ℝ)
    (length : ℕ) (w : List ℤ) (c : ℝ) (d : ℤ) (u : Key → ℝ) : Option (List ℤ × Bool) :=
  if u (blockAcceptKey length w.length) ≤ blockThreshold (pLessProb (p w) vocab) c d (q w) then
    some (stopAt vocab block p q length w c d u)
  else none

lemma reads_stopIf (w : List ℤ) (c : ℝ) (d : ℤ) :
    Reads (stopKeys length w.length) (stopIf vocab block p q length w c d) :=
  reads_ite (Set.mem_insert _ _) measurableSet_Iic
    (reads_stopAt w (Set.mem_insert_of_mem _ (Set.mem_singleton _)) c d) (reads_const _ none)

lemma reads_preferLater {S : Set Key} {stop later : (Key → ℝ) → Option (List ℤ × Bool)}
    (hlater : Reads S later) (hstop : Reads S stop) (d : ℤ) :
    Reads S fun u => preferLater d (stop u) (later u) :=
  hlater.seq (Y := fun o u => preferLater d (stop u) o) fun o =>
    Reads.map hstop fun s => preferLater d s o

lemma reads_blockFrom (hq : Drafted q draw) (rest : ℕ) (w : List ℤ) (c : ℝ) :
    Reads (blockKeysFrom length w.length) fun u =>
      blockFrom vocab block p q draw length u rest w c := by
  induction rest generalizing w c with
  | zero =>
    apply reads_ite (blockAcceptKey_mem_block w.length) measurableSet_Iic
    · exact Reads.map (reads_draw (measurableSet_pLessInverseCdf (p w) block vocab)
        (bonusKey_mem_block w.length)) fun t => some ([t], false)
    · exact reads_const _ none
  | succ rest ih =>
    have hdraw : Reads (blockKeysFrom length w.length) fun u =>
        draw w (u (pathSelectKey length w.length)) :=
      reads_draw (hq.measurable w) (pathSelectKey_mem_block w.length)
    refine hdraw.seq (Y := fun d u => preferLater d (stopIf vocab block p q length w c d u)
      (blockFrom vocab block p q draw length u rest (w ++ [d])
        (blockWeight c (pLessProb (p w) vocab d) (pLessQAt d d (q w))))) fun d => ?_
    have hlater := (ih (w ++ [d]) (blockWeight c (pLessProb (p w) vocab d)
      (pLessQAt d d (q w)))).mono (blockKeysFrom_anti (i := w.length) (by simp))
    exact reads_preferLater hlater ((reads_stopIf w c d).mono (stopKeys_subset w.length)) d

lemma tsum_pLessLaw (hp : ∀ w, IsPLessLaw vocab (p w)) (w : List ℤ) :
    (tsum fun t => ofReal (pLessLaw vocab p w t)) = 1 := (hp w).tsum_eq_one

/-- The mean over target sampling after a round that ended from prefix `v` on; a round that fell
back on an empty residual counts as infinite, so that a finite mean excludes it. -/
noncomputable def continued (vocab : ℕ) (p : List ℤ → Column ℝ) (n : ℕ) (v : List ℤ)
    (g : List ℤ → ℝ≥0∞) : Option (List ℤ × Bool) → ℝ≥0∞
  | none => 0
  | some (_, true) => ⊤
  | some (y, false) =>
    let licensed := y.map fun token => clampToken token 0 vocab
    mean (pLessLaw vocab p) (n - licensed.length) (v ++ licensed) fun z => g (licensed ++ z)

/-- The mean over the strings that start with `t` after `w`. -/
noncomputable def pLessMeanAfter (vocab : ℕ) (p : List ℤ → Column ℝ) (n : ℕ) (w : List ℤ)
    (g : List ℤ → ℝ≥0∞) (t : ℤ) : ℝ≥0∞ :=
  mean (pLessLaw vocab p) n (w ++ [t]) fun y => g (t :: y)

lemma continued_singleton (n : ℕ) (w : List ℤ) (g : List ℤ → ℝ≥0∞) (t : ℤ) :
    continued vocab p (n + 1) w g (some ([t], false)) =
      pLessMeanAfter vocab p n w g (clampToken t 0 vocab) := by
  simp [continued, pLessMeanAfter]

lemma continued_cons {d : ℤ} (hd : clampToken d 0 vocab = d) (n : ℕ) (w : List ℤ)
    (g : List ℤ → ℝ≥0∞) (y : List ℤ) (empty : Bool) :
    continued vocab p (n + 1) w g (some (d :: y, empty)) =
      continued vocab p n (w ++ [d]) (fun z => g (d :: z)) (some (y, empty)) := by
  cases empty with
  | true => rfl
  | false => simp [continued, hd]

lemma clampToken_of_pLessProb (column : Column ℝ) {t : ℤ} (ht : pLessProb column vocab t ≠ 0) :
    clampToken t 0 vocab = t := by
  have hdomain : column.inDomain vocab t := by
    by_contra hnot
    exact ht (if_pos (Or.inr hnot))
  exact if_pos ⟨hdomain.1, hdomain.2.1⟩

/-- What the pick from the residual is worth; an empty residual is worth infinitely much. -/
noncomputable def residualMean (vocab block : ℕ) (p : List ℤ → Column ℝ)
    (q : List ℤ → Candidates ℝ) (n : ℕ) (w : List ℤ) (c : ℝ) (d : ℤ) (g : List ℤ → ℝ≥0∞) : ℝ≥0∞ :=
  if blockMass ((p w).residualWeight vocab c d (q w)) block vocab > 0 then
    ∫⁻ x, pLessMeanAfter vocab p n w g
      (clampToken (pLessResidual (p w) block vocab c x d (q w)) 0 vocab) ∂unit
  else ⊤

lemma expect_stopAt (n : ℕ) (w : List ℤ) (c : ℝ) (d : ℤ) (g : List ℤ → ℝ≥0∞) :
    expect (fun u => some (stopAt vocab block p q length w c d u)) (continued vocab p (n + 1) w g) =
      residualMean vocab block p q n w c d g := by
  have hpick := measurableSet_pLessResidual (p w) block vocab c d (q w)
  unfold residualMean
  split
  case isTrue hpos =>
    simp only [← continued_singleton]
    rw [← expect_draw hpick (positionKey .speculativeCorrection length w.length)
      fun t => continued vocab p (n + 1) w g (some ([t], false))]
    simp [expect, stopAt, hpos]
  case isFalse hzero =>
    simp [expect, stopAt, hzero, continued]

/-- The residual's mass is what the threshold is computed from. -/
lemma ofReal_coveredMass_mul_residualMean (hp : ∀ w, IsPLessLaw vocab (p w)) (hblock : 0 < block)
    (hlaw : ∀ w, (q w).isEmpty = true ∨ IsLaw (q w)) {d : ℤ} (w : List ℤ)
    (hd : ∀ t, 0 ≤ pLessQAt t d (q w)) {c : ℝ} (hc : 0 ≤ c) (n : ℕ) (g : List ℤ → ℝ≥0∞) :
    ofReal (coveredMass (pLessProb (p w) vocab) c d (q w)) *
        residualMean vocab block p q n w c d g =
      tsum fun t => ofReal (max 0 (c * pLessProb (p w) vocab t - pLessQAt t d (q w))) *
        pLessMeanAfter vocab p n w g t := by
  have hresidual : ∀ t : ℤ, ¬ (0 ≤ t ∧ t < vocab) → (p w).residualWeight vocab c d (q w) t = 0 :=
    (p w).residualWeight_of_not_vocab c d (q w)
  have hmass : ofReal (coveredMass (pLessProb (p w) vocab) c d (q w)) =
      ofReal (blockMass ((p w).residualWeight vocab c d (q w)) block vocab) := by
    rw [ofReal_coveredMass (hp w).pLessProb_nonneg (hp w).tsum_eq_one hc (hlaw w),
      ofReal_blockMass hblock hresidual]
    exact tsum_congr fun t => ((hp w).ofReal_residualWeight hd c t).symm
  have hinside : ∀ t, ofReal (max 0 (c * pLessProb (p w) vocab t - pLessQAt t d (q w))) ≠
      0 → clampToken t 0 vocab = t := by
    refine fun t ht => clampToken_of_pLessProb (p w) fun hzero => ht ?_
    rw [hzero, max_eq_left (by linarith [hd t]), ofReal_zero]
  rw [hmass, residualMean]
  split
  case isTrue hpos =>
    rw [blockMass_mul_lintegral_pLessResidual (hp w) hblock hd c
      fun t => pLessMeanAfter vocab p n w g (clampToken t 0 vocab), tsum_clampToken hinside]
  case isFalse hempty =>
    have hnone : ofReal (blockMass ((p w).residualWeight vocab c d (q w)) block vocab) =
        0 := ENNReal.ofReal_of_nonpos (not_lt.mp hempty)
    have hterms := hnone
    rw [ofReal_blockMass hblock hresidual, ENNReal.tsum_eq_zero] at hterms
    rw [hnone, zero_mul, eq_comm, ENNReal.tsum_eq_zero]
    intro t
    rw [← (hp w).ofReal_residualWeight hd c t, hterms t, zero_mul]

/-- A value that only counts if an extension of the prefix is committed. -/
def ifLater (value : List ℤ × Bool → ℝ≥0∞) : Option (List ℤ × Bool) → ℝ≥0∞
  | none => 0
  | some outcome => value outcome

/-- One if no extension of the prefix is committed. -/
def ifNone : Option (List ℤ × Bool) → ℝ≥0∞
  | none => 1
  | some _ => 0

/-- A prefix stops if none of its extensions is committed. -/
lemma expect_preferLater {later stop : (Key → ℝ) → Option (List ℤ × Bool)} {i : ℕ}
    (hlater : Reads (blockKeysFrom length (i + 1)) later)
    (hstop : Reads (stopKeys length i) stop) (d : ℤ) (value : Option (List ℤ × Bool) → ℝ≥0∞) :
    expect (fun u => preferLater d (stop u) (later u)) value =
      expect later (ifLater fun o => value (some (d :: o.1, o.2))) +
        expect later ifNone * expect stop value := by
  have hstage : ∀ o, Reads (stopKeys length i) fun u => preferLater d (stop u) o :=
    fun o => Reads.map hstop fun s => preferLater d s o
  rw [expect_seq (Y := fun o u => preferLater d (stop u) o) (disjoint_stopKeys i) hlater hstage,
    ← expect_mul_const hlater, ← expect_add hlater]
  congr 1
  funext o
  cases o with
  | none => simp [preferLater, ifLater, ifNone]
  | some outcome => simp [preferLater, ifLater, ifNone, expect_const]

/-- The programs that end from prefix `v` on as often as its weight says, and then with the target's
law. -/
def CommitsWith (vocab : ℕ) (p : List ℤ → Column ℝ) (later : (Key → ℝ) → Option (List ℤ × Bool))
    (n : ℕ) (v : List ℤ) (c : ℝ) : Prop :=
  ∀ g, expect later (continued vocab p n v g) = ofReal c * mean (pLessLaw vocab p) n v g

section Commits

variable {later : (Key → ℝ) → Option (List ℤ × Bool)} {S : Set Key} {n : ℕ} {w v : List ℤ} {c : ℝ}

lemma CommitsWith.expect_ifNone (h : CommitsWith vocab p later n v c) (hreads : Reads S later)
    (hp : ∀ w, IsPLessLaw vocab (p w)) (hc : 0 ≤ c) :
    expect later ifNone = ofReal (1 - c) := by
  have hmean := mean_const (tsum_pLessLaw hp)
  -- Counted with an empty residual as infinite on both sides, none and some make one.
  have hpoint : ∀ o, ifNone o + continued vocab p n v (fun _ => 1) o =
      1 + continued vocab p n v (fun _ => 0) o := by
    intro o
    rcases o with _ | ⟨y, _ | _⟩
    · simp [ifNone, continued]
    · simp [ifNone, continued, hmean]
    · simp [continued]
  have hsum := congrArg (expect later) (funext hpoint)
  rw [expect_add hreads, expect_add hreads, h, h, hmean, hmean, mul_one] at hsum
  rw [ofReal_sub _ hc]
  refine ENNReal.eq_sub_of_add_eq ofReal_ne_top ?_
  rw [hsum]
  simp [expect]

lemma CommitsWith.expect_ifLater {d : ℤ} (h : CommitsWith vocab p later n (w ++ [d]) c)
    (hd : clampToken d 0 vocab = d) (g : List ℤ → ℝ≥0∞) :
    expect later (ifLater fun o => continued vocab p (n + 1) w g (some (d :: o.1, o.2))) =
      ofReal c * pLessMeanAfter vocab p n w g d := by
  rw [pLessMeanAfter, ← h]
  congr 1
  funext o
  cases o with
  | none => rfl
  | some outcome => exact continued_cons hd n w g outcome.1 outcome.2

lemma CommitsWith.expect_ifLater_of_zero (h : CommitsWith vocab p later n v 0)
    (hreads : Reads S later) (hp : ∀ w, IsPLessLaw vocab (p w)) (value : List ℤ × Bool → ℝ≥0∞) :
    expect later (ifLater value) = 0 := by
  have hbound : ∀ o, ifLater value o ≤ continued vocab p n v (fun _ => 1) o * ⊤ := by
    intro o
    rcases o with _ | ⟨y, _ | _⟩
    · simp [ifLater]
    · simp [continued, mean_const (tsum_pLessLaw hp)]
    · simp [continued]
  apply le_antisymm _ zero_le
  apply le_trans (expect_mono hbound)
  rw [expect_mul_const hreads, h, ofReal_zero, zero_mul, zero_mul]

end Commits

/-- With a shortlist, the weights that are subtracted do not depend on the draft. -/
lemma pLessQAt_congr {shortlist : Candidates ℝ} (h : shortlist.isEmpty = false) (t d d' : ℤ) :
    pLessQAt t d shortlist = pLessQAt t d' shortlist := by
  simp only [pLessQAt, h, Bool.false_eq_true, if_false]

lemma residualMean_congr {w : List ℤ} (h : (q w).isEmpty = false) (n : ℕ) (c : ℝ) (d d' : ℤ)
    (g : List ℤ → ℝ≥0∞) :
    residualMean vocab block p q n w c d g = residualMean vocab block p q n w c d' g := by
  have hweight : (p w).residualWeight vocab c d (q w) = (p w).residualWeight vocab c d' (q w) := by
    funext t
    simp only [Column.residualWeight, pLessQAt_congr h t d d']
  simp only [residualMean, pLessResidual, hweight]

lemma blockThreshold_congr {shortlist : Candidates ℝ} (h : shortlist.isEmpty = false)
    (prob : ℤ → ℝ) (c : ℝ) (d d' : ℤ) :
    blockThreshold prob c d shortlist = blockThreshold prob c d' shortlist := by
  simp only [blockThreshold, blockDenominator, coveredMass, coverage, h, Bool.false_eq_true,
    if_false]

section

variable (hp : ∀ w, IsPLessLaw vocab (p w))

include hp

/-- The mean over the drafts of a prefix of weight `c`, if a draft leads on with its weight and
otherwise the prefix stops with probability `h`. -/
lemma lintegral_step (hq : Drafted q draw) (hblock : 0 < block)
    {n : ℕ} {w : List ℤ} {c : ℝ} (hc : 0 ≤ c) {h : ℤ → ℝ} (hh : ∀ d, 0 ≤ h d)
    (hcongr : (q w).isEmpty = false → ∀ d d', h d = h d')
    (hbalance : ∀ d, h d * (coveredMass (pLessProb (p w) vocab) c d (q w) + 1 - c) =
      coveredMass (pLessProb (p w) vocab) c d (q w)) (g : List ℤ → ℝ≥0∞) {goOn : ℤ → ℝ≥0∞}
    (hgoOn : ∀ d, goOn d = ofReal (blockWeight c (pLessProb (p w) vocab d)
      (pLessQAt d d (q w))) * pLessMeanAfter vocab p n w g d) :
    ∫⁻ x, (goOn (draw w x) + ofReal (1 - blockWeight c (pLessProb (p w) vocab (draw w x))
        (pLessQAt (draw w x) (draw w x) (q w))) *
        (ofReal (h (draw w x)) * residualMean vocab block p q n w c (draw w x) g)) ∂unit =
      ofReal c * mean (pLessLaw vocab p) (n + 1) w g := by
  obtain ⟨d, hdraft, hnonneg, hsame⟩ := hq.lintegral w
  have hprob := (hp w).pLessProb_nonneg
  have hone := tsum_pLessQAt d (hq.isEmpty_or_isLaw w)
  have hscaled : ∀ t, ofReal (c * pLessProb (p w) vocab t) =
      ofReal c * ofReal (pLessProb (p w) vocab t) :=
    fun t => ofReal_mul hc
  have hsum : (tsum fun t => ofReal (c * pLessProb (p w) vocab t)) = ofReal c := by
    simp only [hscaled]
    rw [ENNReal.tsum_mul_left, (hp w).tsum_eq_one, mul_one]
  have hweight : ∀ t, 0 < pLessQAt t d (q w) →
      blockWeight c (pLessProb (p w) vocab t) (pLessQAt t t (q w)) =
        min (c * pLessProb (p w) vocab t / pLessQAt t d (q w)) 1 := by
    intro t ht
    have hsameQ : pLessQAt t t (q w) = pLessQAt t d (q w) := by
      rcases hsame t ht.ne' with rfl | hempty
      · rfl
      · exact pLessQAt_congr hempty t t d
    rw [blockWeight, hsameQ, if_pos ht]
  have hresidual := (ofReal_coveredMass (d := d) hprob (hp w).tsum_eq_one hc
    (hq.isEmpty_or_isLaw w)).symm
  have hR := ofReal_coveredMass_mul_residualMean hp hblock hq.isEmpty_or_isLaw w hnonneg hc n g
  have hmean := Residual.mean_accept_or_residual (fun t => mul_nonneg hc (hprob t)) hnonneg hc
    (coveredMass_nonneg _ c d (q w)) (hh d) hsum hone hresidual (hbalance d) hweight hR
  rw [hdraft fun t => goOn t + ofReal (1 - blockWeight c (pLessProb (p w) vocab t)
    (pLessQAt t t (q w))) *
      (ofReal (h t) * residualMean vocab block p q n w c t g), mean,
    ← ENNReal.tsum_mul_left]
  simp only [hscaled, mul_assoc] at hmean
  refine Eq.trans (tsum_congr fun t => ?_) hmean
  by_cases hzero : pLessQAt t d (q w) = 0
  · rw [hzero, ofReal_zero, zero_mul, zero_mul]
  · rw [hgoOn]
    rcases hsame t hzero with rfl | hempty
    · rfl
    · rw [hcongr hempty t d, residualMean_congr hempty n c t d]

/-- A draft leads on as often as the weight of the extended prefix says. -/
lemma expect_ifLater_blockFrom (hq : Drafted q draw)
    {rest n : ℕ} {w : List ℤ} {c : ℝ} {d : ℤ} {c' : ℝ}
    (hc' : c' = blockWeight c (pLessProb (p w) vocab d) (pLessQAt d d (q w)))
    (hlater : CommitsWith vocab p
      (fun u => blockFrom vocab block p q draw length u rest (w ++ [d]) c') n (w ++ [d]) c')
    (g : List ℤ → ℝ≥0∞) :
    expect (fun u => blockFrom vocab block p q draw length u rest (w ++ [d]) c')
        (ifLater fun o => continued vocab p (n + 1) w g (some (d :: o.1, o.2))) =
      ofReal c' * pLessMeanAfter vocab p n w g d := by
  by_cases hd : pLessProb (p w) vocab d = 0
  · have hzero : c' = 0 := by
      rw [hc', hd, blockWeight, mul_zero, zero_div, min_eq_left zero_le_one, ite_self]
    rw [hzero] at hlater ⊢
    rw [hlater.expect_ifLater_of_zero (reads_blockFrom hq rest (w ++ [d]) 0) hp,
      ofReal_zero, zero_mul]
  · exact hlater.expect_ifLater (clampToken_of_pLessProb (p w) hd) g

/-- One step back along the chain: a prefix of weight `c` commits with its weight, if its extensions
do and its own decision makes up for the rejected mass. -/
lemma expect_step (hq : Drafted q draw) (hblock : 0 < block)
    {rest n : ℕ} {w : List ℤ} {c : ℝ} (hc : 0 ≤ c) {h : ℤ → ℝ} (hh : ∀ d, 0 ≤ h d)
    (hcongr : (q w).isEmpty = false → ∀ d d', h d = h d')
    (hbalance : ∀ d, h d * (coveredMass (pLessProb (p w) vocab) c d (q w) + 1 - c) =
      coveredMass (pLessProb (p w) vocab) c d (q w))
    (hlater : ∀ d c', 0 ≤ c' → c' ≤ 1 → CommitsWith vocab p
      (fun u => blockFrom vocab block p q draw length u rest (w ++ [d]) c') n (w ++ [d]) c')
    {stop : ℤ → (Key → ℝ) → Option (List ℤ × Bool)}
    (hreads : ∀ d, Reads (stopKeys length w.length) (stop d)) (g : List ℤ → ℝ≥0∞)
    (hstop : ∀ d, expect (stop d) (continued vocab p (n + 1) w g) =
      ofReal (h d) * residualMean vocab block p q n w c d g) :
    expect (fun u =>
      let d := draw w (u (pathSelectKey length w.length))
      preferLater d (stop d u) (blockFrom vocab block p q draw length u rest (w ++ [d])
        (blockWeight c (pLessProb (p w) vocab d) (pLessQAt d d (q w)))))
        (continued vocab p (n + 1) w g) =
      ofReal c * mean (pLessLaw vocab p) (n + 1) w g := by
  have hfrom : ∀ d, Reads (blockKeysFrom length (w.length + 1)) fun u =>
      blockFrom vocab block p q draw length u rest (w ++ [d])
        (blockWeight c (pLessProb (p w) vocab d) (pLessQAt d d (q w))) := by
    intro d
    have hlength : w.length + 1 = (w ++ [d]).length := by simp
    rw [hlength]
    exact reads_blockFrom hq rest (w ++ [d]) _
  have hbody : ∀ d, Reads (blockKeysFrom length (w.length + 1) ∪ stopKeys length w.length) fun u =>
      preferLater d (stop d u) (blockFrom vocab block p q draw length u rest (w ++ [d])
        (blockWeight c (pLessProb (p w) vocab d) (pLessQAt d d (q w)))) :=
    fun d => reads_preferLater ((hfrom d).mono Set.subset_union_left)
      ((hreads d).mono Set.subset_union_right) d
  have hmean : ∀ d, expect (fun u => preferLater d (stop d u)
        (blockFrom vocab block p q draw length u rest (w ++ [d])
          (blockWeight c (pLessProb (p w) vocab d) (pLessQAt d d (q w)))))
        (continued vocab p (n + 1) w g) =
      ofReal (blockWeight c (pLessProb (p w) vocab d) (pLessQAt d d (q w))) *
          pLessMeanAfter vocab p n w g d +
        ofReal (1 - blockWeight c (pLessProb (p w) vocab d) (pLessQAt d d (q w))) *
          (ofReal (h d) * residualMean vocab block p q n w c d g) := by
    intro d
    obtain ⟨hweight, hweight₁⟩ : 0 ≤ blockWeight c (pLessProb (p w) vocab d) (pLessQAt d d (q w)) ∧
        blockWeight c (pLessProb (p w) vocab d) (pLessQAt d d (q w)) ≤ 1 :=
      blockWeight_mem hc ((hp w).pLessProb_nonneg d)
    have hcommits := hlater d _ hweight hweight₁
    rw [expect_preferLater (hfrom d) (hreads d), expect_ifLater_blockFrom hp hq rfl hcommits,
      hcommits.expect_ifNone (hfrom d) hp hweight, hstop]
  have hfresh : Disjoint {pathSelectKey length w.length}
      (blockKeysFrom length (w.length + 1) ∪ stopKeys length w.length) :=
    Set.disjoint_singleton_left.mpr (pathSelectKey_notMem_block w.length)
  rw [expect_seq hfresh (reads_draw (hq.measurable w) (Set.mem_singleton _)) hbody,
    expect_draw (hq.measurable w)]
  simp only [hmean]
  exact lintegral_step hp hq hblock hc hh hcongr hbalance g fun d => rfl

/-- From any prefix on, the round commits the prefix or an extension with the prefix's weight, and
the tokens after the prefix then have the target's law. -/
theorem expect_blockFrom (hq : Drafted q draw)
    (hblock : 0 < block) {rest n : ℕ} (hn : rest < n) (w : List ℤ) {c : ℝ} (hc : 0 ≤ c)
    (hc₁ : c ≤ 1) :
    CommitsWith vocab p (fun u => blockFrom vocab block p q draw length u rest w c) n w c := by
  intro g
  induction rest generalizing n w c g with
  | zero =>
    obtain ⟨n, rfl⟩ : ∃ m, n = m + 1 := ⟨n - 1, by omega⟩
    have hpick := measurableSet_pLessInverseCdf (p w) block vocab
    have hkey : blockAcceptKey length w.length ∉
        ({positionKey .speculativeBonus length w.length} : Set Key) := by
      simp [blockAcceptKey, positionKey]
    have hbonus : Reads {positionKey .speculativeBonus length w.length} fun u =>
        some ([pLessInverseCdf (p w) block vocab
          (u (positionKey .speculativeBonus length w.length))], false) :=
      Reads.map (reads_draw hpick (Set.mem_singleton _)) fun t => some ([t], false)
    simp only [blockFrom]
    rw [expect_le hc hc₁ hkey hbonus (reads_const _ none), expect_const, continued, mul_zero,
      add_zero]
    rw [expect_map _ fun t => some ([t], false), expect_draw hpick]
    simp only [continued_singleton]
    rw [lintegral_pLessInverseCdf (hp w) hblock fun t =>
      pLessMeanAfter vocab p n w g (clampToken t 0 vocab),
      tsum_clampToken fun t ht => clampToken_of_pLessProb (p w) fun hzero => ht (by simp [hzero]),
      mean]
    rfl
  | succ rest ih =>
    obtain ⟨n, rfl⟩ : ∃ m, n = m + 1 := ⟨n - 1, by omega⟩
    have hstop : ∀ d, expect (stopIf vocab block p q length w c d) (continued vocab p (n + 1) w g) =
        ofReal (blockThreshold (pLessProb (p w) vocab) c d (q w)) *
          residualMean vocab block p q n w c d g := by
      intro d
      obtain ⟨hmem, hmem₁⟩ : 0 ≤ blockThreshold (pLessProb (p w) vocab) c d (q w) ∧
          blockThreshold (pLessProb (p w) vocab) c d (q w) ≤ 1 := blockThreshold_mem hc₁
      have hdecide : stopIf vocab block p q length w c d = fun u =>
          if u (blockAcceptKey length w.length) ≤ blockThreshold (pLessProb (p w) vocab) c d (q w)
          then some (stopAt vocab block p q length w c d u) else none := rfl
      have hkey : blockAcceptKey length w.length ∉
          ({positionKey .speculativeCorrection length w.length} : Set Key) := by
        simp [blockAcceptKey, positionKey]
      rw [hdecide, expect_le hmem hmem₁ hkey (reads_stopAt w (Set.mem_singleton _) c d)
        (reads_const _ none), expect_const, continued, mul_zero, add_zero, expect_stopAt]
    exact expect_step hp hq hblock hc
      (fun d => (blockThreshold_mem hc₁).1)
      (fun hempty d d' => blockThreshold_congr hempty _ c d d')
      (fun d => blockThreshold_mul hc₁)
      (fun d c' hc' hc'₁ g => ih (Nat.lt_of_succ_lt_succ hn) (w ++ [d]) hc' hc'₁ g)
      (fun d => reads_stopIf w c d) g hstop

end

lemma reads_blockRoot (hq : Drafted q draw) (n : ℕ) :
    Reads (blockKeysFrom length 0) fun u => blockRoot vocab block p q draw length u n := by
  cases n with
  | zero =>
    exact Reads.map (reads_draw (measurableSet_pLessInverseCdf (p []) block vocab)
      (bonusKey_mem_block 0)) fun t => some ([t], false)
  | succ rest =>
    have hdraw : Reads (blockKeysFrom length 0) fun u => draw [] (u (pathSelectKey length 0)) :=
      reads_draw (hq.measurable []) (pathSelectKey_mem_block 0)
    refine hdraw.seq (Y := fun d u => preferLater d (some (stopAt vocab block p q length [] 1 d u))
      (blockFrom vocab block p q draw length u rest [d]
        (blockWeight 1 (pLessProb (p []) vocab d) (pLessQAt d d (q []))))) fun d => ?_
    have hlater : Reads (blockKeysFrom length 0) fun u =>
        blockFrom vocab block p q draw length u rest [d]
          (blockWeight 1 (pLessProb (p []) vocab d) (pLessQAt d d (q []))) :=
      (reads_blockFrom hq rest [d] _).mono (blockKeysFrom_anti (Nat.zero_le [d].length))
    exact reads_preferLater hlater (reads_stopAt [] (correctionKey_mem_block 0) 1 d) d

/-- The whole round always commits, and what it commits has the target's law. -/
theorem expect_blockRoot (hp : ∀ w, IsPLessLaw vocab (p w)) (hq : Drafted q draw)
    (hblock : 0 < block) {rest n : ℕ} (hn : rest < n) :
    CommitsWith vocab p (fun u => blockRoot vocab block p q draw length u rest) n [] 1 := by
  intro g
  obtain ⟨n, rfl⟩ : ∃ m, n = m + 1 := ⟨n - 1, by omega⟩
  cases rest with
  | zero =>
    have hpick := measurableSet_pLessInverseCdf (p []) block vocab
    simp only [blockRoot]
    rw [expect_map _ fun t => some ([t], false), expect_draw hpick]
    simp only [continued_singleton]
    rw [lintegral_pLessInverseCdf (hp []) hblock fun t =>
      pLessMeanAfter vocab p n [] g (clampToken t 0 vocab),
      tsum_clampToken fun t ht => clampToken_of_pLessProb (p []) fun hzero => ht (by simp [hzero]),
      mean, ofReal_one, one_mul]
    rfl
  | succ rest =>
    refine expect_step (w := []) (h := fun _ => 1) hp hq hblock zero_le_one (fun _ => zero_le_one)
      (fun _ _ _ => rfl) (fun d => by ring)
      (fun d c' hc' hc'₁ => expect_blockFrom hp hq hblock (by omega) ([] ++ [d]) hc' hc'₁)
      (fun d => reads_stopAt [] (Set.mem_insert_of_mem _ (Set.mem_singleton _)) 1 d) g fun d => ?_
    rw [expect_stopAt, ofReal_one, one_mul]

/-- Target sampling after a round that ended as `outcome`. -/
noncomputable def blockOutput (vocab block : ℕ) (p : List ℤ → Column ℝ) (length n : ℕ)
    (outcome : Option (List ℤ × Bool)) (u : Key → ℝ) : List ℤ :=
  let licensed := (outcome.elim [] Prod.fst).map fun token => clampToken token 0 vocab
  licensed ++ tokens (samplePLess block vocab p) (positionKey .decode length) u
    (n - licensed.length) licensed

lemma blockTokens_eq_blockOutput (k : ℕ) (extent : ℤ) (counts : Option (ℤ → ℕ)) (n : ℕ)
    (u : Key → ℝ) :
    blockTokens vocab k block p q draw extent length counts n u =
      blockOutput vocab block p length n
        (blockRoot vocab block p q draw length u (clampExtent extent k)) u := by
  have hle := clampExtent_le extent k
  obtain ⟨⟨y, empty⟩, hroot, hends⟩ := blockVerify_ends vocab block p q hle
    (rfl : tokens draw (pathSelectKey length) u k [] = _)
  obtain ⟨htokens, -, haccepted⟩ := hends.found y empty rfl
  rw [blockTokens, blockRound, licensed_commitChain _ _ _ _ _ _ (by rw [length_tokens]; omega),
    htokens, hroot]
  rfl

section

variable (hp : ∀ w, IsPLessLaw vocab (p w))

include hp

lemma reads_blockOutput (hblock : 0 < block) (n : ℕ) (outcome : Option (List ℤ × Bool)) :
    Reads {key | key.purpose = .decode} (blockOutput vocab block p length n outcome) := by
  unfold blockOutput
  generalize (outcome.elim [] Prod.fst).map (fun token => clampToken token 0 vocab) = licensed
  have htokens : Reads {key | key.purpose = .decode} fun u => tokens (samplePLess block vocab p)
      (positionKey .decode length) u (n - licensed.length) licensed :=
    reads_tokens (samples_samplePLess hp hblock) _ _ fun _ _ => rfl
  exact Reads.map htokens (licensed ++ ·)

lemma expect_blockOutput (hblock : 0 < block) (n : ℕ)
    (y : List ℤ) (empty : Bool) (g : List ℤ → ℝ≥0∞) :
    expect (blockOutput vocab block p length n (some (y, empty))) g =
      continued vocab p n [] g (some (y, false)) :=
  expect_tokens (samples_samplePLess hp hblock) (positionKey_injective .decode length) _ _
    fun z => g (_ ++ z)

/-- A round and target sampling after it have the target's law. -/
theorem expect_blockTokens (hq : Drafted q draw)
    (hblock : 0 < block) {rest n : ℕ} (hn : rest < n) (g : List ℤ → ℝ≥0∞) :
    expect (fun u => blockOutput vocab block p length n
      (blockRoot vocab block p q draw length u rest) u) g = mean (pLessLaw vocab p) n [] g := by
  have hroot : CommitsWith vocab p (fun u => blockRoot vocab block p q draw length u rest) n [] 1 :=
    expect_blockRoot hp hq hblock hn
  have hreads : Reads (blockKeysFrom length 0) fun u =>
      blockRoot vocab block p q draw length u rest := reads_blockRoot hq rest
  have hdisjoint : Disjoint (blockKeysFrom length 0) {key | key.purpose = .decode} := by
    rw [Set.disjoint_left]
    rintro key ⟨hpurpose, -⟩ hdecode
    exact hpurpose hdecode
  rw [expect_seq hdisjoint hreads (reads_blockOutput hp hblock n)]
  have hmean := hroot g
  have hzero := hroot fun _ => 0
  rw [ofReal_one, one_mul] at hmean hzero
  rw [mean_const (tsum_pLessLaw hp)] at hzero
  have hnone := hroot.expect_ifNone hreads hp zero_le_one
  rw [sub_self, ofReal_zero] at hnone
  -- Both sides differ only where the residual is empty or nothing is committed.
  apply le_antisymm
  · have hbound : ∀ o, expect (blockOutput vocab block p length n o) g ≤
        continued vocab p n [] g o + ifNone o * ⊤ := by
      intro o
      rcases o with _ | ⟨y, _ | _⟩
      · simp [ifNone]
      · rw [expect_blockOutput hp hblock]
        exact le_self_add
      · simp [continued]
    apply le_trans (expect_mono hbound)
    rw [expect_add hreads, expect_mul_const hreads, hmean, hnone, zero_mul, add_zero]
  · have hbound : ∀ o, continued vocab p n [] g o ≤
        expect (blockOutput vocab block p length n o) g +
          continued vocab p n [] (fun _ => 0) o := by
      intro o
      rcases o with _ | ⟨y, _ | _⟩
      · simp [continued]
      · rw [expect_blockOutput hp hblock]
        exact le_self_add
      · simp [continued]
    rw [← hmean]
    apply le_trans (expect_mono hbound)
    rw [expect_add hreads, hzero, add_zero]

/-- The residual that a round draws from is almost never empty. -/
theorem tape_emptyResidual (hq : Drafted q draw) (hblock : 0 < block) {n k : ℕ} (hn : n ≤ k) :
    tape Key {u | emptyResidual vocab block
      (fun i => p ((tokens draw (pathSelectKey length) u k []).take i))
      (fun i => q ((tokens draw (pathSelectKey length) u k []).take i))
      (tokens draw (pathSelectKey length) u k []) n
      (blockVerify
        (fun i => pLessProb (p ((tokens draw (pathSelectKey length) u k []).take i)) vocab)
        (fun i => q ((tokens draw (pathSelectKey length) u k []).take i))
        (tokens draw (pathSelectKey length) u k []) n length u)} = 0 := by
  have hreads : Reads (blockKeysFrom length 0) fun u =>
      blockRoot vocab block p q draw length u n := reads_blockRoot hq n
  have hzero : expect (fun u => blockRoot vocab block p q draw length u n)
      (continued vocab p (n + 1) [] fun _ => 0) = _ :=
    expect_blockRoot hp hq hblock (Nat.lt_succ_self n) fun _ => 0
  rw [mean_const (tsum_pLessLaw hp), mul_zero] at hzero
  have hbound : ∀ o : Option (List ℤ × Bool), (if o.elim false Prod.snd = true then 1 else 0) ≤
      continued vocab p (n + 1) [] (fun _ => 0) o := by
    intro o
    rcases o with _ | ⟨y, _ | _⟩
    · simp
    · simp
    · simp [continued]
  have hflag : tape Key {u |
      (blockRoot vocab block p q draw length u n).elim false Prod.snd = true} = 0 := by
    apply le_antisymm _ zero_le
    rw [tape_eq_expect hreads fun o => o.elim false Prod.snd = true]
    exact le_of_le_of_eq (expect_mono hbound) hzero
  refine measure_mono_null ?_ hflag
  intro u hu
  obtain ⟨⟨y, empty⟩, hroot, hends⟩ := blockVerify_ends vocab block p q hn
    (rfl : tokens draw (pathSelectKey length) u k [] = _)
  have hempty := (hends.found y empty rfl).2.1.mp hu
  simp [hroot, hempty]

end

end Law

/-- Block verification is lossless.  For every p-less target, every drafting law (or determined
drafts without shortlists) and every extent, the round's tokens followed by target sampling come out
as any string of at most `extent + 1` tokens with the product of the target's conditionals.  The
residual that the round draws from is empty with probability zero.  A threshold falls back on one
only for a prefix of weight one whose column has the draft's law. -/
theorem block_verification_lossless (vocab k block : ℕ) (hblock : 0 < block)
    (p : List ℤ → Column ℝ) (q : List ℤ → Candidates ℝ) (draw : List ℤ → ℝ → ℤ)
    (hp : ∀ w, IsPLessLaw vocab (p w)) (hq : Drafted q draw) (extent : ℤ) (length : ℕ)
    (counts : Option (ℤ → ℕ)) :
    (∀ x : List ℤ, x.length ≤ clampExtent extent k + 1 →
      tape Key {u | (blockTokens vocab k block p q draw extent length counts
        (clampExtent extent k + 1) u).take x.length = x} = joint (pLessLaw vocab p) [] x) ∧
    tape Key {u | emptyResidual vocab block
      (fun i => p ((tokens draw (pathSelectKey length) u k []).take i))
      (fun i => q ((tokens draw (pathSelectKey length) u k []).take i))
      (tokens draw (pathSelectKey length) u k []) (clampExtent extent k)
      (blockVerify
        (fun i => pLessProb (p ((tokens draw (pathSelectKey length) u k []).take i)) vocab)
        (fun i => q ((tokens draw (pathSelectKey length) u k []).take i))
        (tokens draw (pathSelectKey length) u k []) (clampExtent extent k) length u)} = 0 ∧
    ∀ w d c, 0 ≤ c → c ≤ 1 →
      (¬ blockDenominator (pLessProb (p w) vocab) c d (q w) > 0 ↔
        c = 1 ∧ ∀ t, pLessProb (p w) vocab t = pLessQAt t d (q w)) := by
  refine ⟨?_, tape_emptyResidual hp hq hblock (clampExtent_le extent k), ?_⟩
  · intro x hx
    have hroot : Reads (blockKeysFrom length 0) fun u =>
        blockRoot vocab block p q draw length u (clampExtent extent k) := reads_blockRoot hq _
    have hreads : Reads Set.univ fun u => blockOutput vocab block p length
        (clampExtent extent k + 1) (blockRoot vocab block p q draw length u (clampExtent extent k))
        u :=
      (hroot.mono (Set.subset_univ _)).seq fun o =>
        (reads_blockOutput hp hblock _ o).mono (Set.subset_univ _)
    simp only [blockTokens_eq_blockOutput]
    rw [tape_eq_expect hreads fun y => y.take x.length = x,
      expect_blockTokens hp hq hblock (Nat.lt_succ_self _)]
    exact mean_take (tsum_pLessLaw hp) [] hx
  · intro w d c hc hc₁
    exact blockDenominator_nonpos_iff (hp w).pLessProb_nonneg (hp w).tsum_eq_one
      (hq.isEmpty_or_isLaw w) hc hc₁

/-- A column that gives each token of the vocabulary the same weight. -/
def uniformColumn (vocab : ℕ) {K : Type} [Field K] : Column K where
  suppressed := fun _ => false
  drawExp := fun _ => 1
  admitted := vocab
  fallback := 0

lemma isPLessLaw_uniformColumn {vocab : ℕ} (hvocab : 0 < vocab) :
    IsPLessLaw vocab (uniformColumn vocab : Column ℝ) where
  nonneg := fun _ _ => zero_le_one
  admitted := by
    have hweight : ∀ v ∈ Finset.range vocab,
        (uniformColumn vocab : Column ℝ).weight vocab v = 1 := by
      intro v hv
      simp [Column.weight, Column.inDomain, uniformColumn, Finset.mem_range.mp hv]
    rw [Finset.sum_congr rfl hweight]
    simp [uniformColumn]
  pos := by simpa [uniformColumn] using hvocab

/-- A target on the tokens 0 and 1 with two drafts from the tokens 1 and 2. -/
theorem block_verification_lossless_shifted :
    tape Key {u | (blockTokens 2 2 1 (fun _ => uniformColumn 2) (fun _ => fairLaw 1 2)
        (sampleTarget fun _ => fairLaw 1 2) 2 0 none 3 u).take 3 = [1, 0, 1]} =
      joint (pLessLaw 2 fun _ => uniformColumn 2) [] [1, 0, 1] := by
  have hp : ∀ w : List ℤ, IsPLessLaw 2 ((fun _ => uniformColumn 2) w) :=
    fun _ => isPLessLaw_uniformColumn Nat.two_pos
  have hq : ∀ w : List ℤ, IsTargetLaw 3 ((fun _ => fairLaw 1 2) w) :=
    fun _ => isTargetLaw_fairLaw (by decide) (by decide) (by decide)
  have hdrafted : Drafted (fun _ => fairLaw 1 2) (sampleTarget fun _ => fairLaw 1 2) :=
    Or.inl ⟨fun w => (hq w).toIsLaw, samples_sampleTarget hq⟩
  exact (block_verification_lossless 2 2 1 Nat.one_pos _ _ _ hp hdrafted 2 0 none).1 [1, 0, 1]
    (by decide)

/-- A zero denominator is not an event of probability zero.  It is certain for two drafts without
shortlists in a vocabulary of one token. -/
theorem zeroDenominator_certain :
    (∀ w : List ℤ, IsPLessLaw 1 ((fun _ => uniformColumn 1) w)) ∧
    Drafted (fun _ => []) (fun _ _ => 0) ∧
    tape Key {u | zeroDenominator (fun _ => pLessProb (uniformColumn 1 : Column ℝ) 1) (fun _ => [])
      (tokens (fun _ _ => 0) (pathSelectKey 0) u 2 []) 2 2 0 1} = 1 := by
  refine ⟨fun _ => isPLessLaw_uniformColumn Nat.one_pos,
    Or.inr ⟨fun _ => rfl, fun _ => 0, fun _ _ => rfl⟩, ?_⟩
  have hprob : pLessProb (uniformColumn 1 : Column ℝ) 1 0 = 1 := by
    simp [pLessProb, uniformColumn, Column.inDomain]
  have hweight : blockWeight 1 (1 : ℝ) (pLessQAt 0 0 []) = 1 := by
    simp [blockWeight, pLessQAt]
  have hcertain : ∀ u : Key → ℝ, u ∈ {u | zeroDenominator
      (fun _ => pLessProb (uniformColumn 1 : Column ℝ) 1) (fun _ => [])
      (tokens (fun _ _ => 0) (pathSelectKey 0) u 2 []) 2 2 0 1} := by
    intro u
    left
    simp [tokens, hprob, hweight, blockDenominator, coveredMass, coverage]
  rw [Set.eq_univ_of_forall hcertain, measure_univ]

end NInfer.SpeculativeRound
