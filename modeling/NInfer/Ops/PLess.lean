import NInfer.Ops.Sampling

/-!
# Picking a token from a p-less law

Under p-less sampling the target law is not a list of candidates: every token of the vocabulary has
a weight (the exponential of its logit if it passes the gate), and the law divides the weights by
the admitted mass.  A block of threads picks from it together.  Each thread sums the weights of its
tokens, a scan over the threads gives every thread its interval of goals, and the thread whose
interval has the goal scans its tokens (`sampling_p_less_inverse_cdf`, `sampling_p_less_residual`).

For a goal within the total, the block picks what one scan over all tokens picks
(`blockPick_eq_scan`), so its law is that of the weights.
-/

namespace NInfer.Sampling

open InverseCdf Draws MeasureTheory
open scoped ENNReal
open ENNReal (ofReal ofReal_zero)

/-! ## The device functions -/

section Device

variable {K : Type} [Field K] [LinearOrder K]

/-- A column under p-less sampling: which tokens are suppressed, the weights of the survivors
(`sampling_p_less_draw_exp`), their mass and the fallback of its support. -/
structure Column (K : Type) where
  suppressed : ℤ → Bool
  drawExp : ℤ → K
  admitted : K
  fallback : ℤ

/-- `sampling_p_less_in_domain`. -/
def Column.inDomain (column : Column K) (vocab : ℕ) (v : ℤ) : Prop :=
  v ≥ 0 ∧ v < vocab ∧ column.suppressed v = false

instance (column : Column K) (vocab : ℕ) (v : ℤ) : Decidable (column.inDomain vocab v) := by
  unfold Column.inDomain
  infer_instance

/-- `sampling_p_less_prob`. -/
def pLessProb (column : Column K) (vocab : ℕ) (token : ℤ) : K :=
  if ¬ column.admitted > 0 ∨ ¬ column.inDomain vocab token then 0
  else if column.drawExp token > 0 then column.drawExp token / column.admitted else 0

/-- The tokens of a thread of a block: `for (v = tid; v < vocab; v += block)`. -/
def threadTokens (block vocab tid : ℕ) : List ℤ :=
  ((List.range vocab).filter fun v => v % block = tid).map Int.ofNat

/-- What a thread adds to its mass: its tokens with a positive weight. -/
def threadWeights (weight : ℤ → K) (block vocab tid : ℕ) : Candidates K :=
  ((threadTokens block vocab tid).map fun v => (v, weight v)).filter fun c => c.2 > 0

/-- The pick of a thread whose goals start at `exclusive`, and `-1` without one. -/
def threadPick (goal sum exclusive : K) (weights : Candidates K) : ℤ :=
  let inclusive := exclusive + total weights
  if total weights > 0 ∧ goal ≥ exclusive ∧ (goal < inclusive ∨ inclusive = sum) then
    scan goal weights exclusive (-1)
  else -1

/-- The pick of the first thread that has one. -/
def firstPick (goal sum : K) (fallback : ℤ) : List (Candidates K) → K → ℤ
  | [], _ => fallback
  | weights :: rest, exclusive =>
    let pick := threadPick goal sum exclusive weights
    if pick ≥ 0 then pick else firstPick goal sum fallback rest (exclusive + total weights)

/-- The weights of all threads. -/
def blockWeights (weight : ℤ → K) (block vocab : ℕ) : List (Candidates K) :=
  (List.range block).map (threadWeights weight block vocab)

/-- The mass of a block. -/
def blockMass (weight : ℤ → K) (block vocab : ℕ) : K :=
  ((blockWeights weight block vocab).map total).sum

/-- An inverse-CDF pick by a block. -/
def blockPick (weight : ℤ → K) (block vocab : ℕ) (fallback : ℤ) (u : K) : ℤ :=
  let sum := blockMass weight block vocab
  firstPick (u * sum) sum fallback (blockWeights weight block vocab) 0

/-- The weight of a token in the inverse CDF. -/
def Column.weight (column : Column K) (vocab : ℕ) (v : ℤ) : K :=
  if column.inDomain vocab v then column.drawExp v else 0

/-- `sampling_p_less_inverse_cdf`. -/
def pLessInverseCdf (column : Column K) (block vocab : ℕ) (u : K) : ℤ :=
  if ¬ blockMass (column.weight vocab) block vocab > 0 then column.fallback
  else blockPick (column.weight vocab) block vocab column.fallback u

/-- The weight of a token in the residual: `w p' - q` for the survivors. -/
def Column.residualWeight (column : Column K) (vocab : ℕ) (w : K) (draftId : ℤ)
    (shortlist : Candidates K) (v : ℤ) : K :=
  if column.inDomain vocab v ∧ column.drawExp v > 0 then
    w * column.drawExp v * (1 / column.admitted) - pLessQAt v draftId shortlist
  else 0

/-- `sampling_p_less_residual`. -/
def pLessResidual (column : Column K) (block vocab : ℕ) (w : K) (u : K) (draftId : ℤ)
    (shortlist : Candidates K) : ℤ :=
  if ¬ column.admitted > 0 then column.fallback
  else
    let weight := column.residualWeight vocab w draftId shortlist
    if ¬ blockMass weight block vocab > 0 then pLessInverseCdf column block vocab u
    else blockPick weight block vocab column.fallback u

end Device

/-! ## A block picks what one scan picks -/

variable {weight : ℤ → ℝ} {block vocab : ℕ}

lemma nonneg_of_mem_threadWeights {tid : ℕ} {c : ℤ × ℝ}
    (h : c ∈ threadWeights weight block vocab tid) : 0 ≤ c.1 ∧ 0 ≤ c.2 := by
  obtain ⟨hmem, hpos⟩ := List.mem_filter.mp h
  obtain ⟨v, hv, rfl⟩ := List.mem_map.mp hmem
  obtain ⟨m, -, rfl⟩ := List.mem_map.mp hv
  exact ⟨Int.natCast_nonneg m, le_of_lt (by simpa using hpos)⟩

/-- For a goal below the sum, the threads' picks are one scan over their weights. -/
lemma firstPick_eq_scan {threads : List (Candidates ℝ)} {goal sum exclusive : ℝ}
    (hnonneg : ∀ weights ∈ threads, ∀ c ∈ weights, 0 ≤ c.1 ∧ 0 ≤ c.2) (hgoal : exclusive ≤ goal)
    (hsum : exclusive + total threads.flatten = sum) (hlt : goal < sum) (fallback picked : ℤ) :
    firstPick goal sum fallback threads exclusive =
      scan goal threads.flatten exclusive picked := by
  induction threads generalizing exclusive picked with
  | nil =>
    rw [List.flatten_nil, total_nil] at hsum
    linarith
  | cons weights rest ih =>
    have hhead : ∀ c ∈ weights, 0 ≤ c.2 := fun c hc => (hnonneg weights List.mem_cons_self c hc).2
    have hrest : ∀ ws ∈ rest, ∀ c ∈ ws, 0 ≤ c.1 ∧ 0 ≤ c.2 :=
      fun ws hws => hnonneg ws (List.mem_cons_of_mem _ hws)
    rw [List.flatten_cons, total_append] at hsum
    rw [firstPick, List.flatten_cons]
    rcases lt_or_ge goal (exclusive + total weights) with hin | hpast
    · -- The goal is in this thread's interval.
      have hpos : 0 < total weights := by linarith
      have hmem := scan_mem goal exclusive (ne_nil_of_total_pos hpos) (-1)
      obtain ⟨c, hc, hpick⟩ := List.mem_map.mp hmem
      have hthread : threadPick goal sum exclusive weights = scan goal weights exclusive (-1) :=
        if_pos ⟨hpos, hgoal, Or.inl hin⟩
      rw [hthread, if_pos (by rw [← hpick]; exact (hnonneg weights List.mem_cons_self c hc).1),
        scan_append_of_lt rest.flatten hgoal hin picked (-1)]
    · have htotal : 0 < total rest.flatten := by linarith
      have hthread : threadPick goal sum exclusive weights = -1 := by
        apply if_neg
        rintro ⟨-, -, hin | hlast⟩
        · linarith
        · linarith
      simp only [hthread, if_neg (by decide : ¬ (-1 : ℤ) ≥ 0)]
      rw [ih hrest hpast (by linarith) picked,
        scan_append_of_ge hhead hpast (ne_nil_of_total_pos htotal)]

lemma total_flatten (threads : List (Candidates ℝ)) :
    total threads.flatten = (threads.map total).sum := by
  induction threads with
  | nil => rfl
  | cons weights rest ih => rw [List.flatten_cons, total_append, ih, List.map_cons, List.sum_cons]

lemma blockWeights_nonneg (weight : ℤ → ℝ) (block vocab : ℕ) :
    ∀ weights ∈ blockWeights weight block vocab, ∀ c ∈ weights, 0 ≤ c.1 ∧ 0 ≤ c.2 := by
  intro weights hweights c hc
  obtain ⟨tid, -, rfl⟩ := List.mem_map.mp hweights
  exact nonneg_of_mem_threadWeights hc

lemma blockPick_eq_scan {x : ℝ} (hx : x ∈ Set.Ico (0 : ℝ) 1)
    (hpos : 0 < blockMass weight block vocab) (fallback : ℤ) :
    blockPick weight block vocab fallback x =
      scan (x * total (blockWeights weight block vocab).flatten)
        (blockWeights weight block vocab).flatten 0 fallback := by
  rw [total_flatten]
  apply firstPick_eq_scan (blockWeights_nonneg weight block vocab)
  · exact mul_nonneg hx.1 hpos.le
  · rw [zero_add, total_flatten, blockMass]
  · exact mul_lt_of_lt_one_left hpos hx.2

/-! ## The law of a block's pick -/

lemma sum_map_range (n : ℕ) (f : ℕ → ℝ≥0∞) :
    ((List.range n).map f).sum = ∑ v ∈ Finset.range n, f v := by
  induction n with
  | zero => rfl
  | succ n ih => simp [List.range_succ, Finset.sum_range_succ, ih]

/-- Every token belongs to one thread. -/
lemma sum_over_threads (hblock : 0 < block) (l : List ℕ) (f : ℕ → ℝ≥0∞) :
    ((List.range block).map fun tid => ((l.filter fun v => v % block = tid).map f).sum).sum =
      (l.map f).sum := by
  induction l with
  | nil => simp
  | cons v l ih =>
    have hsplit : ∀ tid, (((v :: l).filter fun v => v % block = tid).map f).sum =
        (if v % block = tid then f v else 0) + ((l.filter fun v => v % block = tid).map f).sum := by
      intro tid
      by_cases h : v % block = tid
      · simp [h]
      · simp [h]
    have hone : ((List.range block).map fun tid => if v % block = tid then f v else 0).sum =
        f v := by
      rw [sum_map_range]
      simp [Nat.mod_lt v hblock]
    simp only [hsplit]
    rw [List.sum_map_add, hone, ih, List.map_cons, List.sum_cons]

/-- A sum over the tokens of the vocabulary. -/
lemma tsum_vocab {f : ℤ → ℝ≥0∞} (hf : ∀ t : ℤ, ¬ (0 ≤ t ∧ t < vocab) → f t = 0) :
    (tsum fun t => f t) = ∑ v ∈ Finset.range vocab, f v := by
  rw [tsum_eq_sum (s := (Finset.range vocab).map Nat.castEmbedding), Finset.sum_map]
  · rfl
  · intro t ht
    apply hf
    rintro ⟨hnonneg, hlt⟩
    obtain ⟨m, rfl⟩ := Int.eq_ofNat_of_zero_le hnonneg
    apply ht
    rw [Finset.mem_map]
    exact ⟨m, Finset.mem_range.mpr (by omega), rfl⟩

/-- A sum over the threads' weights is a sum over the tokens. -/
lemma sum_blockWeights (hblock : 0 < block)
    (hweight : ∀ t : ℤ, ¬ (0 ≤ t ∧ t < vocab) → weight t = 0) (G : ℤ → ℝ≥0∞) :
    (((blockWeights weight block vocab).flatten).map fun c => ofReal c.2 * G c.1).sum =
      tsum fun t => ofReal (weight t) * G t := by
  have hthread : ∀ tid, ((threadWeights weight block vocab tid).map
      fun c => ofReal c.2 * G c.1).sum =
      (((List.range vocab).filter fun v => v % block = tid).map
        fun v : ℕ => ofReal (weight v) * G v).sum := by
    intro tid
    rw [threadWeights, sum_map_filter, threadTokens, List.map_map, List.map_map]
    congr 1
    apply List.map_congr_left
    intro v _
    rcases lt_or_ge 0 (weight v) with hpos | hneg
    · simp [hpos]
    · simp [ENNReal.ofReal_of_nonpos hneg]
  have hblocks : ((List.range block).map
      ((List.sum ∘ List.map fun c => ofReal c.2 * G c.1) ∘
        threadWeights weight block vocab)).sum =
      ∑ v ∈ Finset.range vocab, ofReal (weight v) * G v := by
    rw [← sum_map_range, ← sum_over_threads hblock (List.range vocab)]
    congr 1
    exact List.map_congr_left fun tid _ => hthread tid
  rw [List.map_flatten, List.sum_flatten, blockWeights, List.map_map, List.map_map, hblocks,
    tsum_vocab]
  intro t ht
  rw [hweight t ht, ofReal_zero, zero_mul]

/-- The block's mass times the mean of its pick. -/
theorem blockMass_mul_lintegral (hblock : 0 < block)
    (hweight : ∀ t : ℤ, ¬ (0 ≤ t ∧ t < vocab) → weight t = 0) {pick : ℝ → ℤ} {fallback : ℤ}
    (hpick : 0 < blockMass weight block vocab → ∀ x,
      pick x = blockPick weight block vocab fallback x) (G : ℤ → ℝ≥0∞) :
    ofReal (blockMass weight block vocab) * ∫⁻ x, G (pick x) ∂unit =
      tsum fun t => ofReal (weight t) * G t := by
  have hnonneg : ∀ c ∈ (blockWeights weight block vocab).flatten, 0 ≤ c.2 := by
    intro c hc
    obtain ⟨weights, hweights, hmem⟩ := List.mem_flatten.mp hc
    exact (blockWeights_nonneg weight block vocab weights hweights c hmem).2
  have hscan : 0 < total (blockWeights weight block vocab).flatten → ∀ x ∈ Set.Ico (0 : ℝ) 1,
      pick x = scan (x * total (blockWeights weight block vocab).flatten)
        (blockWeights weight block vocab).flatten 0 fallback := by
    intro hpos x hx
    have hmass : 0 < blockMass weight block vocab := by rwa [blockMass, ← total_flatten]
    rw [hpick hmass, blockPick_eq_scan hx hmass]
  rw [← sum_blockWeights hblock hweight, ← total_mul_lintegral hnonneg hscan, total_flatten,
    blockMass]

lemma ofReal_blockMass (hblock : 0 < block)
    (hweight : ∀ t : ℤ, ¬ (0 ≤ t ∧ t < vocab) → weight t = 0) :
    ofReal (blockMass weight block vocab) = tsum fun t => ofReal (weight t) := by
  have hpick : 0 < blockMass weight block vocab → ∀ x,
      blockPick weight block vocab 0 x = blockPick weight block vocab 0 x := fun _ _ => rfl
  simpa using blockMass_mul_lintegral hblock hweight hpick fun _ => 1

lemma measurableSet_threadPick (sum exclusive : ℝ) (weights : Candidates ℝ) (t : ℤ) :
    MeasurableSet {x : ℝ | threadPick (x * sum) sum exclusive weights = t} := by
  have hgoal : Measurable fun x : ℝ => x * sum := measurable_id.mul_const sum
  have hin : MeasurableSet {x : ℝ | total weights > 0 ∧ x * sum ≥ exclusive ∧
      (x * sum < exclusive + total weights ∨ exclusive + total weights = sum)} :=
    (MeasurableSet.const _).inter ((measurableSet_le measurable_const hgoal).inter
      ((measurableSet_lt hgoal measurable_const).union (MeasurableSet.const _)))
  exact measurableSet_ite hin (measurableSet_scan weights sum exclusive (-1) t)
    (MeasurableSet.const _)

lemma measurableSet_firstPick (sum : ℝ) (fallback t : ℤ) (threads : List (Candidates ℝ))
    (exclusive : ℝ) :
    MeasurableSet {x : ℝ | firstPick (x * sum) sum fallback threads exclusive = t} := by
  induction threads generalizing exclusive with
  | nil => exact MeasurableSet.const (fallback = t)
  | cons weights rest ih =>
    have hpick := measurableSet_threadPick sum exclusive weights
    have hfound : MeasurableSet {x : ℝ | threadPick (x * sum) sum exclusive weights ≥ 0} := by
      have hunion : {x : ℝ | threadPick (x * sum) sum exclusive weights ≥ 0} =
          ⋃ s ∈ {s : ℤ | s ≥ 0}, {x | threadPick (x * sum) sum exclusive weights = s} := by
        ext x
        simp
      rw [hunion]
      exact MeasurableSet.biUnion (Set.to_countable _) fun s _ => hpick s
    exact measurableSet_ite hfound (hpick t) (ih _)

lemma measurableSet_pLessInverseCdf (column : Column ℝ) (block vocab : ℕ) (t : ℤ) :
    MeasurableSet {x | pLessInverseCdf column block vocab x = t} :=
  measurableSet_ite (MeasurableSet.const _) (MeasurableSet.const _)
    (measurableSet_firstPick _ _ _ _ _)

lemma measurableSet_pLessResidual (column : Column ℝ) (block vocab : ℕ) (w : ℝ) (draftId : ℤ)
    (shortlist : Candidates ℝ) (t : ℤ) :
    MeasurableSet {x | pLessResidual column block vocab w x draftId shortlist = t} :=
  measurableSet_ite (MeasurableSet.const _) (MeasurableSet.const _)
    (measurableSet_ite (MeasurableSet.const _) (measurableSet_pLessInverseCdf column block vocab t)
      (measurableSet_firstPick _ _ _ _ _))

/-! ## p-less laws -/

/-- A column whose admitted mass is the sum of its weights, and not zero. -/
structure IsPLessLaw (vocab : ℕ) (column : Column ℝ) : Prop where
  nonneg : ∀ t, column.inDomain vocab t → 0 ≤ column.drawExp t
  admitted : column.admitted = ∑ v ∈ Finset.range vocab, column.weight vocab v
  pos : 0 < column.admitted

variable {column : Column ℝ} {w : ℝ} {draftId : ℤ} {shortlist : Candidates ℝ}

lemma Column.weight_of_not_vocab (column : Column ℝ) (t : ℤ) (ht : ¬ (0 ≤ t ∧ t < vocab)) :
    column.weight vocab t = 0 :=
  if_neg fun h => ht ⟨h.1, h.2.1⟩

lemma IsPLessLaw.weight_nonneg (h : IsPLessLaw vocab column) (t : ℤ) :
    0 ≤ column.weight vocab t := by
  unfold Column.weight
  split
  case isTrue hdomain => exact h.nonneg t hdomain
  case isFalse => exact le_refl 0

lemma IsPLessLaw.pLessProb_eq (h : IsPLessLaw vocab column) (t : ℤ) :
    pLessProb column vocab t = column.weight vocab t / column.admitted := by
  unfold pLessProb Column.weight
  by_cases hdomain : column.inDomain vocab t
  · rw [if_neg (by simp [h.pos, hdomain]), if_pos hdomain]
    rcases (h.nonneg t hdomain).eq_or_lt with hzero | hpos
    · rw [← hzero, if_neg (lt_irrefl 0), zero_div]
    · rw [if_pos hpos]
  · rw [if_pos (Or.inr hdomain), if_neg hdomain, zero_div]

lemma IsPLessLaw.pLessProb_nonneg (h : IsPLessLaw vocab column) (t : ℤ) :
    0 ≤ pLessProb column vocab t := by
  rw [h.pLessProb_eq]
  exact div_nonneg (h.weight_nonneg t) h.pos.le

lemma blockMass_nonneg (weight : ℤ → ℝ) (block vocab : ℕ) : 0 ≤ blockMass weight block vocab := by
  apply List.sum_nonneg
  intro mass hmass
  obtain ⟨weights, hweights, rfl⟩ := List.mem_map.mp hmass
  exact total_nonneg fun c hc => (blockWeights_nonneg weight block vocab weights hweights c hc).2

section

variable (h : IsPLessLaw vocab column)

include h

lemma IsPLessLaw.tsum_weight :
    (tsum fun t => ofReal (column.weight vocab t)) = ofReal column.admitted := by
  rw [tsum_vocab, h.admitted, ENNReal.ofReal_sum_of_nonneg]
  · intro v _
    exact h.weight_nonneg v
  · intro t ht
    rw [column.weight_of_not_vocab t ht, ofReal_zero]

lemma IsPLessLaw.blockMass_eq (hblock : 0 < block) :
    blockMass (column.weight vocab) block vocab = column.admitted := by
  apply (ENNReal.ofReal_eq_ofReal_iff (blockMass_nonneg _ block vocab) h.pos.le).mp
  rw [ofReal_blockMass hblock column.weight_of_not_vocab, h.tsum_weight]

lemma IsPLessLaw.tsum_pLessProb (G : ℤ → ℝ≥0∞) :
    ofReal column.admitted * (tsum fun t => ofReal (pLessProb column vocab t) * G t) =
      tsum fun t => ofReal (column.weight vocab t) * G t := by
  rw [← ENNReal.tsum_mul_left]
  refine tsum_congr fun t => ?_
  rw [← mul_assoc, ← ENNReal.ofReal_mul h.pos.le, h.pLessProb_eq, mul_div_cancel₀ _ h.pos.ne']

/-- The inverse CDF of a column draws from its law. -/
theorem lintegral_pLessInverseCdf (hblock : 0 < block) (G : ℤ → ℝ≥0∞) :
    ∫⁻ x, G (pLessInverseCdf column block vocab x) ∂unit =
      tsum fun t => ofReal (pLessProb column vocab t) * G t := by
  have hpick : 0 < blockMass (column.weight vocab) block vocab → ∀ x,
      pLessInverseCdf column block vocab x =
        blockPick (column.weight vocab) block vocab column.fallback x :=
    fun hpos x => if_neg (not_not.mpr hpos)
  have hmean := blockMass_mul_lintegral hblock column.weight_of_not_vocab hpick G
  rw [h.blockMass_eq hblock, ← h.tsum_pLessProb] at hmean
  refine (ENNReal.mul_right_inj ?_ ENNReal.ofReal_ne_top).mp hmean
  rw [Ne, ENNReal.ofReal_eq_zero, not_le]
  exact h.pos

lemma IsPLessLaw.tsum_eq_one : (tsum fun t => ofReal (pLessProb column vocab t)) = 1 := by
  have hone := lintegral_pLessInverseCdf h Nat.one_pos fun _ => 1
  simp only [lintegral_const, measure_univ, mul_one] at hone
  exact hone.symm

/-- The residual's weights are what the weighted law has over the draft's. -/
lemma IsPLessLaw.ofReal_residualWeight
    (hq : ∀ t, 0 ≤ pLessQAt t draftId shortlist) (w : ℝ) (t : ℤ) :
    ofReal (column.residualWeight vocab w draftId shortlist t) =
      ofReal (max 0 (w * pLessProb column vocab t - pLessQAt t draftId shortlist)) := by
  rw [h.pLessProb_eq]
  unfold Column.residualWeight Column.weight
  by_cases hdomain : column.inDomain vocab t
  · rcases (h.nonneg t hdomain).eq_or_lt with hzero | hpos
    · rw [if_neg (by simp [← hzero]), if_pos hdomain, ← hzero, zero_div,
        max_eq_left (by linarith [hq t])]
    · rw [if_pos ⟨hdomain, hpos⟩, if_pos hdomain, mul_assoc, mul_one_div, ENNReal.ofReal_max,
        ofReal_zero, max_eq_right zero_le]
  · rw [if_neg fun hin => hdomain hin.1, if_neg hdomain, zero_div, max_eq_left (by linarith [hq t])]

end

lemma Column.residualWeight_of_not_vocab (column : Column ℝ) (w : ℝ) (draftId : ℤ)
    (shortlist : Candidates ℝ) (t : ℤ) (ht : ¬ (0 ≤ t ∧ t < vocab)) :
    column.residualWeight vocab w draftId shortlist t = 0 :=
  if_neg fun h => ht ⟨h.1.1, h.1.2.1⟩

/-- The residual's mass times the mean of its pick. -/
theorem blockMass_mul_lintegral_pLessResidual (h : IsPLessLaw vocab column) (hblock : 0 < block)
    (hq : ∀ t, 0 ≤ pLessQAt t draftId shortlist) (w : ℝ) (G : ℤ → ℝ≥0∞) :
    ofReal (blockMass (column.residualWeight vocab w draftId shortlist) block vocab) *
        ∫⁻ x, G (pLessResidual column block vocab w x draftId shortlist) ∂unit =
      tsum fun t => ofReal (max 0 (w * pLessProb column vocab t - pLessQAt t draftId shortlist)) *
        G t := by
  have hpick : 0 < blockMass (column.residualWeight vocab w draftId shortlist) block vocab → ∀ x,
      pLessResidual column block vocab w x draftId shortlist =
        blockPick (column.residualWeight vocab w draftId shortlist) block vocab
          column.fallback x := by
    intro hpos x
    rw [pLessResidual, if_neg (not_not.mpr h.pos)]
    exact if_neg (not_not.mpr hpos)
  rw [blockMass_mul_lintegral hblock (column.residualWeight_of_not_vocab w draftId shortlist) hpick]
  exact tsum_congr fun t => by rw [h.ofReal_residualWeight hq]

end NInfer.Sampling
