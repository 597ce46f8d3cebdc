import Mathlib

/-!
# Programs that read keyed uniform draws

A randomised program as a function of a tape: a key names a draw, and `tape` makes all keys
independent and uniform on `[0, 1)`.  The law of a program with countably many results is given by
its expectations `expect X g`.

A program that first computes `X` and then `Y (X u)` from other keys has the expectation of the
two-stage experiment (`expect_seq`).  `Reads S X` says which keys a program looks at.  The remaining
lemmas are the leaves of such a calculation: one draw that is mapped to a result
(`expect_draw`), and one draw that is compared with a threshold (`expect_lt`, `expect_le`).
-/

namespace NInfer.Draws

open MeasureTheory ProbabilityTheory Set
open scoped ENNReal
open ENNReal (ofReal ofReal_one ofReal_sub)

variable {κ β γ : Type} {S T : Set κ} {X : (κ → ℝ) → β}

/-- The uniform law on `[0, 1)`. -/
noncomputable def unit : Measure ℝ := volume.restrict (Ico 0 1)

instance : IsProbabilityMeasure unit := ⟨by simp [unit]⟩

/-- Independent uniform draws, one for each key. -/
noncomputable def tape (κ : Type) : Measure (κ → ℝ) := Measure.infinitePi fun _ => unit

instance : IsProbabilityMeasure (tape κ) := by
  unfold tape
  infer_instance

/-- A result that a measurable condition chooses between two. -/
lemma measurableSet_ite {α : Type} {_ : MeasurableSpace α} {accepts : α → Prop}
    [DecidablePred accepts] (haccepts : MeasurableSet {x | accepts x}) {A B : α → β} {b : β}
    (hA : MeasurableSet {x | A x = b}) (hB : MeasurableSet {x | B x = b}) :
    MeasurableSet {x | (if accepts x then A x else B x) = b} := by
  have hsplit : {x | (if accepts x then A x else B x) = b} =
      ({x | accepts x} ∩ {x | A x = b}) ∪ ({x | accepts x}ᶜ ∩ {x | B x = b}) := by
    ext x
    by_cases h : accepts x
    · simp [h]
    · simp [h]
  rw [hsplit]
  exact (haccepts.inter hA).union (haccepts.compl.inter hB)

/-- What can be said from the draws with keys in `S`. -/
abbrev readable (S : Set κ) : MeasurableSpace (κ → ℝ) :=
  ⨆ k ∈ S, MeasurableSpace.comap (fun u => u k) inferInstance

lemma readable_mono (h : S ⊆ T) : readable S ≤ readable T := biSup_mono fun _ hk => h hk

lemma readable_le (S : Set κ) : readable S ≤ (inferInstance : MeasurableSpace (κ → ℝ)) :=
  iSup₂_le fun k _ => (measurable_pi_apply k).comap_le

/-- Draws under different keys are independent. -/
lemma indep_readable (h : Disjoint S T) : Indep (readable S) (readable T) (tape κ) := by
  apply indep_iSup_of_disjoint (fun k => (measurable_pi_apply k).comap_le) _ h
  exact iIndepFun_infinitePi (P := fun _ : κ => unit) (X := fun _ x => x) fun _ => measurable_id

/-- The result of `X` only depends on the draws with keys in `S`. -/
def Reads (S : Set κ) (X : (κ → ℝ) → β) : Prop := ∀ b, MeasurableSet[readable S] {u | X u = b}

lemma Reads.mono (hX : Reads S X) (h : S ⊆ T) : Reads T X :=
  fun b => readable_mono h _ (hX b)

lemma Reads.measurableSet (hX : Reads S X) (b : β) :
    MeasurableSet {u | X u = b} := readable_le S _ (hX b)

lemma reads_const (S : Set κ) (b : β) : Reads S fun _ => b := by
  intro c
  by_cases h : b = c
  · simp [h]
  · simp [h]

lemma measurableSet_draw {t : Set ℝ} (ht : MeasurableSet t) {k : κ} (hk : k ∈ S) :
    MeasurableSet[readable S] {u : κ → ℝ | u k ∈ t} :=
  le_biSup (fun k => MeasurableSpace.comap (fun u : κ → ℝ => u k) inferInstance) hk _ ⟨t, ht, rfl⟩

/-- A draw that is mapped to a result. -/
lemma reads_draw {f : ℝ → β} (hf : ∀ b, MeasurableSet {x | f x = b}) {k : κ} (hk : k ∈ S) :
    Reads S fun u => f (u k) :=
  fun b => measurableSet_draw (hf b) hk

lemma Reads.seq [Countable β] {Y : β → (κ → ℝ) → γ} (hX : Reads S X) (hY : ∀ b, Reads S (Y b)) :
    Reads S fun u => Y (X u) u := by
  intro c
  have hsplit : {u | Y (X u) u = c} = ⋃ b, {u | X u = b} ∩ {u | Y b u = c} := by
    ext u
    simp
  rw [hsplit]
  exact MeasurableSet.iUnion fun b => (hX b).inter (hY b c)

lemma Reads.map [Countable β] (hX : Reads S X) (f : β → γ) : Reads S fun u => f (X u) :=
  hX.seq fun b => reads_const S (f b)

/-- A draw that decides between two continuations. -/
lemma reads_ite {k : κ} (hk : k ∈ S) {accepts : ℝ → Prop} [DecidablePred accepts]
    (hmeas : MeasurableSet {x | accepts x}) {A B : (κ → ℝ) → β} (hA : Reads S A) (hB : Reads S B) :
    Reads S fun u => if accepts (u k) then A u else B u := by
  intro b
  exact measurableSet_ite (measurableSet_draw hmeas hk) (hA b) (hB b)

/-- The mean of `g` over the results of `X`. -/
noncomputable def expect (X : (κ → ℝ) → β) (g : β → ℝ≥0∞) : ℝ≥0∞ := ∫⁻ u, g (X u) ∂tape κ

lemma expect_const (b : β) (g : β → ℝ≥0∞) : expect (fun _ : κ → ℝ => b) g = g b := by
  simp [expect]

lemma expect_map (X : (κ → ℝ) → β) (f : β → γ) (g : γ → ℝ≥0∞) :
    expect (fun u => f (X u)) g = expect X fun b => g (f b) := rfl

lemma expect_mono {g h : β → ℝ≥0∞} (hle : ∀ b, g b ≤ h b) : expect X g ≤ expect X h :=
  lintegral_mono fun u => hle (X u)

variable [Countable β]

/-- An integral over a function with countably many values. -/
lemma lintegral_eq_tsum {α : Type} [MeasurableSpace α] {μ : Measure α} {X : α → β}
    (hX : ∀ b, MeasurableSet {u | X u = b}) (h : β → α → ℝ≥0∞) :
    ∫⁻ u, h (X u) u ∂μ = tsum fun b => ∫⁻ u in {u | X u = b}, h b u ∂μ := by
  have hdisjoint : Pairwise (Function.onFun Disjoint fun b => {u | X u = b}) := by
    intro b c hbc
    rw [Function.onFun, Set.disjoint_left]
    intro u hb hc
    exact hbc (hb.symm.trans hc)
  have hcover : ⋃ b, {u | X u = b} = univ := by
    ext u
    simp
  rw [← setLIntegral_univ, ← hcover, lintegral_iUnion hX hdisjoint]
  refine tsum_congr fun b => setLIntegral_congr_fun (hX b) ?_
  intro u hu
  have hu' : X u = b := hu
  simp only [hu']

lemma expect_eq_tsum (hX : Reads S X) (g : β → ℝ≥0∞) :
    expect X g = tsum fun b => tape κ {u | X u = b} * g b := by
  rw [expect, lintegral_eq_tsum hX.measurableSet fun b _ => g b]
  refine tsum_congr fun b => ?_
  rw [setLIntegral_const, mul_comm]

lemma expect_add (hX : Reads S X) (g h : β → ℝ≥0∞) :
    expect X (fun b => g b + h b) = expect X g + expect X h := by
  rw [expect_eq_tsum hX, expect_eq_tsum hX, expect_eq_tsum hX, ← ENNReal.tsum_add]
  exact tsum_congr fun b => mul_add _ _ _

lemma expect_mul_const (hX : Reads S X) (g : β → ℝ≥0∞) (c : ℝ≥0∞) :
    expect X (fun b => g b * c) = expect X g * c := by
  rw [expect_eq_tsum hX, expect_eq_tsum hX, ← ENNReal.tsum_mul_right]
  exact tsum_congr fun b => (mul_assoc _ _ _).symm

/-- The probability of an event as a mean. -/
lemma tape_eq_expect (hX : Reads S X) (event : β → Prop) [DecidablePred event] :
    tape κ {u | event (X u)} = expect X fun b => if event b then 1 else 0 := by
  have hmeas : MeasurableSet {u | event (X u)} := by
    have hunion : {u | event (X u)} = ⋃ b ∈ {b | event b}, {u | X u = b} := by
      ext u
      simp
    rw [hunion]
    exact MeasurableSet.biUnion (Set.to_countable _) fun b _ => hX.measurableSet b
  rw [expect, ← lintegral_indicator_one hmeas]
  congr 1
  simp [Set.indicator_apply]

/-- A second stage that reads other keys than the first is an independent experiment. -/
theorem expect_seq [Countable γ] {Y : β → (κ → ℝ) → γ} (h : Disjoint S T) (hX : Reads S X)
    (hY : ∀ b, Reads T (Y b)) (g : γ → ℝ≥0∞) :
    expect (fun u => Y (X u) u) g = expect X fun b => expect (Y b) g := by
  have hstage : ∀ b, ∫⁻ u in {u | X u = b}, g (Y b u) ∂tape κ =
      tape κ {u | X u = b} * expect (Y b) g := by
    intro b
    rw [expect_eq_tsum (hY b), lintegral_eq_tsum (hY b).measurableSet fun c _ => g c,
      ← ENNReal.tsum_mul_left]
    refine tsum_congr fun c => ?_
    have hindep := (Indep_iff _ _ _).mp (indep_readable h) _ _ (hX b) (hY b c)
    rw [setLIntegral_const, Measure.restrict_apply ((hY b).measurableSet c), Set.inter_comm,
      hindep, mul_comm (g c), mul_assoc]
  rw [expect, lintegral_eq_tsum hX.measurableSet fun b u => g (Y b u), expect_eq_tsum hX]
  exact tsum_congr hstage

/-- One draw that is mapped to a result. -/
lemma expect_draw {f : ℝ → β} (hf : ∀ b, MeasurableSet {x | f x = b}) (k : κ) (g : β → ℝ≥0∞) :
    expect (fun u => f (u k)) g = ∫⁻ x, g (f x) ∂unit := by
  have hkey := measurePreserving_eval_infinitePi (fun _ : κ => unit) k
  rw [expect_eq_tsum (reads_draw hf (Set.mem_univ k)), lintegral_eq_tsum hf fun b _ => g b]
  refine tsum_congr fun b => ?_
  rw [setLIntegral_const, mul_comm]
  congr 1
  exact hkey.measure_preimage (hf b).nullMeasurableSet

section Thresholds

variable {k : κ} {t : ℝ} {A B : (κ → ℝ) → β}

lemma unit_lt (h₁ : t ≤ 1) : unit {x | x < t} = ofReal t := by
  have hset : {x | x < t} ∩ Ico 0 1 = Ico 0 t := by
    ext x
    constructor
    · rintro ⟨hx, hx₀, -⟩
      exact ⟨hx₀, hx⟩
    · rintro ⟨hx₀, hx⟩
      exact ⟨hx, hx₀, lt_of_lt_of_le hx h₁⟩
  have hmeas : MeasurableSet {x : ℝ | x < t} := measurableSet_Iio
  rw [unit, Measure.restrict_apply hmeas, hset, Real.volume_Ico, sub_zero]

lemma unit_le (h₁ : t ≤ 1) : unit {x | x ≤ t} = ofReal t := by
  have hatom : NullSingletonClass unit := by
    unfold unit
    infer_instance
  rw [← unit_lt h₁]
  exact measure_congr Iio_ae_eq_Iic.symm

/-- A draw that decides between two continuations. -/
lemma expect_decide {accepts : ℝ → Prop} [DecidablePred accepts]
    (hmeas : MeasurableSet {x | accepts x}) (hk : k ∉ T) (hA : Reads T A) (hB : Reads T B)
    (g : β → ℝ≥0∞) :
    expect (fun u => if accepts (u k) then A u else B u) g =
      unit {x | accepts x} * expect A g + (1 - unit {x | accepts x}) * expect B g := by
  have htrue : {x | decide (accepts x) = true} = {x | accepts x} := by
    simp
  have hfalse : {x | decide (accepts x) = false} = {x | accepts x}ᶜ := by
    ext x
    simp
  have hbool : ∀ b : Bool, MeasurableSet {x | decide (accepts x) = b} := by
    intro b
    cases b with
    | true => rwa [htrue]
    | false => rw [hfalse]; exact hmeas.compl
  have hbranch : ∀ b : Bool, Reads T fun u => if b then A u else B u := by
    intro b
    cases b with
    | true => simpa using hA
    | false => simpa using hB
  have hstage := expect_seq (Set.disjoint_singleton_left.mpr hk)
    (reads_draw hbool (Set.mem_singleton k)) hbranch g
  simp only [decide_eq_true_eq] at hstage
  rw [hstage, expect_eq_tsum (reads_draw hbool (Set.mem_singleton k)), tsum_bool]
  have hkey := measurePreserving_eval_infinitePi (fun _ : κ => unit) k
  have htape : ∀ b : Bool, tape κ {u | decide (accepts (u k)) = b} =
      unit {x | decide (accepts x) = b} :=
    fun b => hkey.measure_preimage (hbool b).nullMeasurableSet
  rw [htape, htape, htrue, hfalse, prob_compl_eq_one_sub hmeas, add_comm]
  simp only [if_true, Bool.false_eq_true, if_false]

/-- A continuation that is taken with probability `t`. -/
lemma expect_lt (h₀ : 0 ≤ t) (h₁ : t ≤ 1) (hk : k ∉ T) (hA : Reads T A) (hB : Reads T B)
    (g : β → ℝ≥0∞) :
    expect (fun u => if u k < t then A u else B u) g =
      ofReal t * expect A g + ofReal (1 - t) * expect B g := by
  rw [expect_decide measurableSet_Iio hk hA hB, unit_lt h₁, ofReal_sub 1 h₀,
    ofReal_one]

lemma expect_le (h₀ : 0 ≤ t) (h₁ : t ≤ 1) (hk : k ∉ T) (hA : Reads T A) (hB : Reads T B)
    (g : β → ℝ≥0∞) :
    expect (fun u => if u k ≤ t then A u else B u) g =
      ofReal t * expect A g + ofReal (1 - t) * expect B g := by
  rw [expect_decide measurableSet_Iic hk hA hB, unit_le h₁, ofReal_sub 1 h₀,
    ofReal_one]

end Thresholds

end NInfer.Draws
