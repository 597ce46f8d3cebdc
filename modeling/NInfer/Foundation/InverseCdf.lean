import NInfer.Foundation.Draws

/-!
# Inverse-CDF picks from a list of weights

`scan` walks a list of weighted items with a running sum and stops at the first item whose sum
exceeds the goal.  With a goal drawn uniformly below the total weight, the scan picks every item
with probability proportional to its weight (`lintegral_scan`).
-/

namespace NInfer.InverseCdf

open MeasureTheory Set Draws
open scoped ENNReal
open ENNReal (ofReal)

section Scan

variable {τ K : Type} [Add K] [LT K] [DecidableLT K]

/-- The first item at which the running sum passes the goal, or the last one. -/
def scan (goal : K) : List (τ × K) → K → τ → τ
  | [], _, picked => picked
  | (item, weight) :: rest, acc, _ =>
    if goal < acc + weight then item else scan goal rest (acc + weight) item

end Scan

section Scan

variable {τ K : Type} [Add K] [LT K] [DecidableLT K]

lemma scan_picked (goal acc : K) {weights : List (τ × K)} (h : weights ≠ []) (picked picked' : τ) :
    scan goal weights acc picked = scan goal weights acc picked' := by
  cases weights with
  | nil => exact absurd rfl h
  | cons w rest => rfl

lemma scan_mem (goal acc : K) {weights : List (τ × K)} (h : weights ≠ []) (picked : τ) :
    scan goal weights acc picked ∈ weights.map Prod.fst := by
  induction weights generalizing acc picked with
  | nil => exact absurd rfl h
  | cons w rest ih =>
    rw [scan, List.map_cons, List.mem_cons]
    split
    · exact Or.inl rfl
    · by_cases hrest : rest = []
      · rw [hrest]
        exact Or.inl rfl
      · exact Or.inr (ih _ hrest _)

end Scan

/-- The total weight of a list. -/
def total {τ K : Type} [AddMonoid K] (weights : List (τ × K)) : K := (weights.map Prod.snd).sum

@[simp] lemma total_nil {τ K : Type} [AddMonoid K] : total ([] : List (τ × K)) = 0 := rfl

@[simp] lemma total_cons {τ K : Type} [AddMonoid K] (w : τ × K) (rest : List (τ × K)) :
    total (w :: rest) = w.2 + total rest := by
  simp [total]

/-- The weight of the first entry for an item, and zero without one. -/
def weightOf {τ K : Type} [DecidableEq τ] [Zero K] : List (τ × K) → τ → K
  | [], _ => 0
  | w :: rest, item => if w.1 = item then w.2 else weightOf rest item

variable {τ : Type} {weights : List (τ × ℝ)}

lemma total_nonneg (h : ∀ w ∈ weights, 0 ≤ w.2) : 0 ≤ total weights := by
  apply List.sum_nonneg
  intro x hx
  obtain ⟨w, hw, rfl⟩ := List.mem_map.mp hx
  exact h w hw

lemma ne_nil_of_total_pos (h : 0 < total weights) : weights ≠ [] := by
  rintro rfl
  exact absurd h (lt_irrefl 0)

@[simp] lemma total_append (weights more : List (τ × ℝ)) :
    total (weights ++ more) = total weights + total more := by
  simp [total]

/-- A goal within the first part of a list is found there. -/
lemma scan_append_of_lt {goal acc : ℝ} (more : List (τ × ℝ)) (hacc : acc ≤ goal)
    (hgoal : goal < acc + total weights) (picked picked' : τ) :
    scan goal (weights ++ more) acc picked = scan goal weights acc picked' := by
  induction weights generalizing acc picked picked' with
  | nil =>
    rw [total_nil] at hgoal
    linarith
  | cons w rest ih =>
    rw [List.cons_append, scan, scan]
    split
    case isTrue => rfl
    case isFalse hpass =>
      rw [total_cons] at hgoal
      exact ih (not_lt.mp hpass) (by linarith) _ _

/-- A goal past the first part of a list is searched in the rest. -/
lemma scan_append_of_ge {more : List (τ × ℝ)} {goal acc : ℝ} (hnonneg : ∀ w ∈ weights, 0 ≤ w.2)
    (hgoal : acc + total weights ≤ goal) (hmore : more ≠ []) (picked picked' : τ) :
    scan goal (weights ++ more) acc picked = scan goal more (acc + total weights) picked' := by
  induction weights generalizing acc picked with
  | nil =>
    rw [List.nil_append, total_nil, add_zero]
    exact scan_picked goal acc hmore picked picked'
  | cons w rest ih =>
    have hrest : ∀ v ∈ rest, 0 ≤ v.2 := fun v hv => hnonneg v (List.mem_cons_of_mem _ hv)
    have htotal := total_nonneg hrest
    rw [total_cons] at hgoal ⊢
    rw [List.cons_append, scan, if_neg (by linarith), ih hrest (by linarith), add_assoc]

lemma ofReal_total (h : ∀ w ∈ weights, 0 ≤ w.2) :
    ofReal (total weights) = (weights.map fun w => ofReal w.2).sum := by
  induction weights with
  | nil => simp
  | cons w rest ih =>
    have hrest : ∀ v ∈ rest, 0 ≤ v.2 := fun v hv => h v (List.mem_cons_of_mem _ hv)
    rw [total_cons, ENNReal.ofReal_add (h w List.mem_cons_self) (total_nonneg hrest), ih hrest,
      List.map_cons, List.sum_cons]

lemma measurableSet_scan (weights : List (τ × ℝ)) (mass acc : ℝ) (picked item : τ) :
    MeasurableSet {x : ℝ | scan (x * mass) weights acc picked = item} := by
  induction weights generalizing acc picked with
  | nil => exact MeasurableSet.const (picked = item)
  | cons w rest ih =>
    have hlt : MeasurableSet {x : ℝ | x * mass < acc + w.2} :=
      measurableSet_lt (measurable_id.mul_const mass) measurable_const
    exact measurableSet_ite hlt (MeasurableSet.const _) (ih _ _)

/-- The scan from a running sum `acc`, for draws whose goal is at least `acc`. -/
lemma lintegral_scan_from {mass acc : ℝ} (hmass : 0 < mass) (hnonneg : ∀ w ∈ weights, 0 ≤ w.2)
    (hacc : acc + total weights = mass) (picked : τ) (g : τ → ℝ≥0∞) :
    ∫⁻ x in Ico (acc / mass) 1, g (scan (x * mass) weights acc picked) =
      (weights.map fun w => ofReal (w.2 / mass) * g w.1).sum := by
  induction weights generalizing acc picked with
  | nil =>
    have hone : acc / mass = 1 := by
      rw [total_nil, add_zero] at hacc
      rw [hacc, div_self hmass.ne']
    simp [hone]
  | cons w rest ih =>
    have hw : 0 ≤ w.2 := hnonneg w List.mem_cons_self
    have hrest : ∀ v ∈ rest, 0 ≤ v.2 := fun v hv => hnonneg v (List.mem_cons_of_mem _ hv)
    have htotal := total_nonneg hrest
    rw [total_cons] at hacc
    have hlow : acc / mass ≤ (acc + w.2) / mass := by gcongr; linarith
    have hhigh : (acc + w.2) / mass ≤ 1 := by rw [div_le_one hmass]; linarith
    have hpick : ∫⁻ x in Ico (acc / mass) ((acc + w.2) / mass),
        g (scan (x * mass) (w :: rest) acc picked) = ofReal (w.2 / mass) * g w.1 := by
      have hconst : ∀ x ∈ Ico (acc / mass) ((acc + w.2) / mass),
          g (scan (x * mass) (w :: rest) acc picked) = g w.1 := by
        rintro x ⟨-, hx⟩
        rw [lt_div_iff₀ hmass] at hx
        simp [scan, hx]
      rw [setLIntegral_congr_fun measurableSet_Ico hconst, setLIntegral_const, Real.volume_Ico,
        mul_comm]
      ring_nf
    have hpass : ∫⁻ x in Ico ((acc + w.2) / mass) 1, g (scan (x * mass) (w :: rest) acc picked) =
        ∫⁻ x in Ico ((acc + w.2) / mass) 1, g (scan (x * mass) rest (acc + w.2) w.1) := by
      refine setLIntegral_congr_fun measurableSet_Ico ?_
      rintro x ⟨hx, -⟩
      rw [div_le_iff₀ hmass] at hx
      simp [scan, not_lt.mpr hx]
    rw [← Ico_union_Ico_eq_Ico hlow hhigh, lintegral_union measurableSet_Ico, hpick, hpass,
      ih hrest (by linarith), List.map_cons, List.sum_cons]
    rw [Set.disjoint_left]
    rintro x ⟨-, hx⟩ ⟨hx', -⟩
    exact absurd hx (not_lt.mpr hx')

/-- A scan with a uniform goal picks an item with probability proportional to its weight. -/
theorem lintegral_scan (hpos : 0 < total weights) (hnonneg : ∀ w ∈ weights, 0 ≤ w.2) (picked : τ)
    (g : τ → ℝ≥0∞) :
    ∫⁻ x, g (scan (x * total weights) weights 0 picked) ∂unit =
      (weights.map fun w => ofReal (w.2 / total weights) * g w.1).sum := by
  have hfrom := lintegral_scan_from hpos hnonneg (zero_add _) picked g
  rwa [zero_div] at hfrom

/-- The same for a picker that scans whenever there is some weight, whatever it does without. -/
theorem total_mul_lintegral (hnonneg : ∀ w ∈ weights, 0 ≤ w.2) {pick : ℝ → τ} {picked : τ}
    (hpick : 0 < total weights → ∀ x ∈ Ico (0 : ℝ) 1,
      pick x = scan (x * total weights) weights 0 picked) (g : τ → ℝ≥0∞) :
    ofReal (total weights) * ∫⁻ x, g (pick x) ∂unit =
      (weights.map fun w => ofReal w.2 * g w.1).sum := by
  rcases (total_nonneg hnonneg).eq_or_lt with hzero | hpos
  · have hweight : ∀ w ∈ weights, w.2 = 0 := by
      intro w hw
      apply le_antisymm _ (hnonneg w hw)
      rw [hzero]
      apply List.single_le_sum _ _ (List.mem_map_of_mem hw)
      intro r hr
      obtain ⟨v, hv, rfl⟩ := List.mem_map.mp hr
      exact hnonneg v hv
    rw [← hzero, ENNReal.ofReal_zero, zero_mul, List.map_congr_left (g := fun _ => 0), eq_comm]
    · simp
    · intro w hw
      simp [hweight w hw]
  · have hscan : ∫⁻ x, g (pick x) ∂unit =
        ∫⁻ x, g (scan (x * total weights) weights 0 picked) ∂unit :=
      setLIntegral_congr_fun measurableSet_Ico fun x hx => by simp only [hpick hpos x hx]
    rw [hscan, lintegral_scan hpos hnonneg, ← List.sum_map_mul_left]
    congr 1
    apply List.map_congr_left
    intro w _
    rw [← mul_assoc, ← ENNReal.ofReal_mul hpos.le, mul_div_cancel₀ _ hpos.ne']

lemma sum_map_filter {M : Type} [AddCommMonoid M] (weights : List (τ × ℝ)) (keep : τ × ℝ → Bool)
    (f : τ × ℝ → M) :
    ((weights.filter keep).map f).sum = (weights.map fun w => if keep w then f w else 0).sum := by
  induction weights with
  | nil => simp
  | cons w rest ih =>
    cases h : keep w with
    | true => simp [h, ih]
    | false => simp [h, ih]

/-! ## Weights of distinct items -/

section Distinct

variable [DecidableEq τ]

lemma weightOf_of_not_mem {item : τ} (h : item ∉ weights.map Prod.fst) :
    weightOf weights item = 0 := by
  induction weights with
  | nil => rfl
  | cons w rest ih =>
    rw [List.map_cons, List.mem_cons, not_or] at h
    rw [weightOf, if_neg (Ne.symm h.1), ih h.2]

lemma weightOf_nonneg (h : ∀ w ∈ weights, 0 ≤ w.2) (item : τ) : 0 ≤ weightOf weights item := by
  induction weights with
  | nil => exact le_refl 0
  | cons w rest ih =>
    rw [weightOf]
    split
    · exact h w List.mem_cons_self
    · exact ih fun v hv => h v (List.mem_cons_of_mem _ hv)

/-- A sum over the entries is a sum over the items, if no item occurs twice. -/
lemma sum_eq_tsum_weightOf (hdistinct : (weights.map Prod.fst).Nodup) (f : τ → ℝ → ℝ≥0∞)
    (hzero : ∀ item, f item 0 = 0) :
    (weights.map fun w => f w.1 w.2).sum = tsum fun item => f item (weightOf weights item) := by
  induction weights with
  | nil => simp [weightOf, hzero]
  | cons w rest ih =>
    rw [List.map_cons, List.nodup_cons] at hdistinct
    have hsplit : ∀ item, f item (weightOf (w :: rest) item) =
        (if item = w.1 then f w.1 w.2 else 0) + f item (weightOf rest item) := by
      intro item
      by_cases h : item = w.1
      · rw [h, weightOf, if_pos rfl, if_pos rfl, weightOf_of_not_mem hdistinct.1, hzero, add_zero]
      · rw [weightOf, if_neg (Ne.symm h), if_neg h, zero_add]
    rw [List.map_cons, List.sum_cons, ih hdistinct.2, tsum_congr hsplit, ENNReal.tsum_add,
      tsum_ite_eq]

end Distinct

end NInfer.InverseCdf
