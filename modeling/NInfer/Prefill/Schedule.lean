import NInfer.Engine.Options
import NInfer.Foundation.Loop

/-!
# Prefill steps

A prompt is prefilled in steps.  `select_prefill_chunk` picks a nominal length from what remains and
from the width of the step; the step then ends earlier if a rewrite checkpoint, a closed turn or a
vision item lies inside it (`prefill_schedule.h`, `vision_prefill.h`).  Admission counts the steps
of a walk at the Shared width (`projected_prefill_work`), execution takes each step at the width of
its own pace.

Each of the three ways to end a step early is a `Cut`: it keeps the step nonempty, never makes it
longer, and is monotone in where the step starts and ends.  Cuts compose, so the walk is compared
with any other walk once and for all (`Job.work_next`).
-/

namespace NInfer.Prefill

/-- `select_prefill_chunk`. -/
def selectPrefillChunk (remaining maximum : ℕ) : ℕ :=
  let nominal := min remaining maximum
  if maximum > kIrregularPrefillSplit ∧ nominal > kIrregularPrefillSplit ∧
      nominal % kPrefillChunkAlignment ≠ 0 then
    kIrregularPrefillSplit
  else nominal

/-- `prefill_chunk_count`. -/
def prefillChunkCount (tokens maximum : ℕ) : ℕ :=
  iterations (· ≠ 0) (fun tokens => tokens - selectPrefillChunk tokens maximum) id tokens

/-- `cap_prefill_at_frontiers`; the frontiers are in token order. -/
def capPrefillAtFrontiers (start length : ℕ) (frontiers : List ℕ) : ℕ :=
  match frontiers.find? (start < ·) with
  | none => length
  | some next => min length (next - start)

/-- `VisionUseSpan`: the columns that read one vision item.  MTP reads the first embedding one
column before Text does. -/
structure VisionUseSpan where
  useBegin : ℕ
  textBegin : ℕ
  useEnd : ℕ

/-- `VisionChunkSelection`. -/
structure VisionChunkSelection where
  length : ℕ
  useIndex : Option ℕ

/-- The loop of `select_vision_prefill_chunk`. -/
def scanVisionUses (start : ℕ) : List VisionUseSpan → ℕ → ℕ → Option ℕ → ℕ × Option ℕ
  | [], _, stop, active => (stop, active)
  | use :: uses, index, stop, active =>
    if use.useEnd ≤ start then scanVisionUses start uses (index + 1) stop active
    else if use.useBegin ≥ stop then (stop, active)
    else
      match active with
      | none =>
        if start < use.textBegin then
          let stop := min stop use.textBegin
          (stop, if use.useBegin < stop then some index else none)
        else scanVisionUses start uses (index + 1) stop (some index)
      | some _ => (min stop use.useBegin, active)

/-- `select_vision_prefill_chunk`. -/
def selectVisionPrefillChunk (uses : List VisionUseSpan) (start length : ℕ) :
    VisionChunkSelection :=
  let (stop, active) := scanVisionUses start uses 0 (start + length) none
  ⟨stop - start, active⟩

/-- What the schedule reads of a prepared prompt. -/
structure PromptShape where
  tokens : ℕ
  hasMedia : Bool := false
  turnClosureFrontiers : List ℕ := []

/-- Ends a step at the rewrite checkpoint. -/
def capAtRewrite (start length : ℕ) : Option ℕ → ℕ
  | some frontier => if frontier > start then min length (frontier - start) else length
  | none => length

/-- The length of one step of `projected_prefill_work`. -/
def projectedChunk (prompt : PromptShape) (maximum : ℕ) (visionUses : List VisionUseSpan)
    (rewriteFrontier : Option ℕ) (start : ℕ) : ℕ :=
  let length := selectPrefillChunk (prompt.tokens - start) maximum
  let length := capAtRewrite start length rewriteFrontier
  let length :=
    if prompt.hasMedia then capPrefillAtFrontiers start length prompt.turnClosureFrontiers
    else length
  (selectVisionPrefillChunk visionUses start length).length

/-- `projected_prefill_work`. -/
def projectedPrefillWork (prompt : PromptShape) (reuseBase maximum : ℕ)
    (visionUses : List VisionUseSpan) (rewriteFrontier : Option ℕ) : ℕ :=
  if prompt.tokens = reuseBase then 1
  else
    iterations (· < prompt.tokens)
      (fun start => start + projectedChunk prompt maximum visionUses rewriteFrontier start)
      (prompt.tokens - ·) reuseBase

/-! ## Nominal lengths -/

section selectPrefillChunk

variable {remaining maximum : ℕ}

lemma selectPrefillChunk_le_remaining : selectPrefillChunk remaining maximum ≤ remaining := by
  unfold selectPrefillChunk
  simp only
  split <;> omega

lemma selectPrefillChunk_le_maximum : selectPrefillChunk remaining maximum ≤ maximum := by
  unfold selectPrefillChunk
  simp only
  split <;> omega

/-- A step is at least as long as a step of any width up to the irregular split. -/
lemma min_le_selectPrefillChunk {width : ℕ} (hwidth : width ≤ maximum)
    (hsplit : width ≤ kIrregularPrefillSplit) :
    min remaining width ≤ selectPrefillChunk remaining maximum := by
  unfold selectPrefillChunk
  simp only
  split <;> omega

lemma selectPrefillChunk_pos (hremaining : 0 < remaining) (hmaximum : 0 < maximum) :
    0 < selectPrefillChunk remaining maximum := by
  unfold selectPrefillChunk kIrregularPrefillSplit
  simp only
  split <;> omega

lemma selectPrefillChunk_of_le (hmaximum : maximum ≤ kIrregularPrefillSplit) :
    selectPrefillChunk remaining maximum = min remaining maximum := by
  unfold selectPrefillChunk
  simp only
  split <;> omega

end selectPrefillChunk

/-! ## Cuts -/

/-- A way to end a step `[start, stop)` early. -/
structure Cut (cut : ℕ → ℕ → ℕ) : Prop where
  lt : ∀ {start stop}, start < stop → start < cut start stop
  le : ∀ {start stop}, start < stop → cut start stop ≤ stop
  mono : ∀ {start stop start' stop'}, start < stop → start' < stop' → start ≤ start' →
    stop ≤ stop' → cut start stop ≤ cut start' stop'

lemma Cut.comp {c d : ℕ → ℕ → ℕ} (hc : Cut c) (hd : Cut d) :
    Cut fun start stop => d start (c start stop) where
  lt h := hd.lt (hc.lt h)
  le h := (hd.le (hc.lt h)).trans (hc.le h)
  mono h h' hstart hstop := hd.mono (hc.lt h) (hc.lt h') hstart (hc.mono h h' hstart hstop)

lemma Cut.none : Cut fun _ stop => stop where
  lt h := h
  le _ := le_rfl
  mono _ _ _ hstop := hstop

/-- A step ends at a boundary, if one lies ahead. -/
def stopAt (stop : ℕ) : Option ℕ → ℕ
  | some n => min stop n
  | none => stop

/-- Ending at the next of some increasing boundaries: `next start` is the first one above
`start`. -/
lemma Cut.ofNext {next : ℕ → Option ℕ} (hlt : ∀ {start n}, next start = some n → start < n)
    (hmono : ∀ {start start' n n'}, start ≤ start' → next start = some n →
      next start' = some n' → n ≤ n')
    (hnone : ∀ {start start' n}, start ≤ start' → next start = .none → next start' = some n →
      False) :
    Cut fun start stop => stopAt stop (next start) where
  lt {start stop} h := by
    cases hn : next start with
    | none => exact h
    | some n => exact lt_min h (hlt hn)
  le {start stop} _ := by
    cases next start with
    | none => exact le_rfl
    | some n => exact min_le_left ..
  mono {start stop start' stop'} _ _ hstart hstop := by
    cases hn : next start with
    | none =>
      cases hn' : next start' with
      | none => exact hstop
      | some n' => exact (hnone hstart hn hn').elim
    | some n =>
      cases hn' : next start' with
      | none => exact (min_le_left ..).trans hstop
      | some n' => exact min_le_min hstop (hmono hstart hn hn')

/-! ## The three cuts of a prefill step -/

/-- The rewrite checkpoint, if the step starts before it. -/
def rewriteNext (rewriteFrontier : Option ℕ) (start : ℕ) : Option ℕ :=
  rewriteFrontier.filter (start < ·)

lemma rewriteNext_eq_some {rewriteFrontier : Option ℕ} {start n : ℕ} :
    rewriteNext rewriteFrontier start = some n ↔ rewriteFrontier = some n ∧ start < n := by
  simp [rewriteNext]

lemma find?_lt_mono {l : List ℕ} (hl : l.Pairwise (· ≤ ·)) {start start' n n' : ℕ}
    (hstart : start ≤ start') (hn : l.find? (start < ·) = some n)
    (hn' : l.find? (start' < ·) = some n') : n ≤ n' := by
  induction l with
  | nil => cases hn
  | cons m l ih =>
    have hmem := List.mem_of_find?_eq_some hn'
    rw [List.find?_cons] at hn
    split at hn
    · cases hn
      rcases List.mem_cons.mp hmem with rfl | hmem
      · exact le_rfl
      · exact List.rel_of_pairwise_cons hl hmem
    · rename_i hm
      rw [List.find?_cons_of_neg
        (by simp only [decide_eq_false_iff_not] at hm; simpa using by omega)]
        at hn'
      exact ih hl.of_cons hn hn'

/-- `PreparedPrompt` stores the frontiers in token order. -/
lemma cut_frontiers {frontiers : List ℕ} (hl : frontiers.Pairwise (· ≤ ·)) :
    Cut fun start stop => stopAt stop (frontiers.find? (start < ·)) := by
  refine Cut.ofNext (fun h => by simpa using List.find?_some h)
    (fun hstart h h' => find?_lt_mono hl hstart h h') ?_
  intro start start' n hstart hnone hn
  have hmem := List.mem_of_find?_eq_some hn
  have hgt : start' < n := by simpa using List.find?_some hn
  have := List.find?_eq_none.mp hnone n hmem
  simp only [decide_eq_true_eq] at this
  omega

lemma cut_rewrite (rewriteFrontier : Option ℕ) :
    Cut fun start stop => stopAt stop (rewriteNext rewriteFrontier start) := by
  refine Cut.ofNext (fun h => (rewriteNext_eq_some.mp h).2) ?_ ?_
  · intro start start' n n' _ h h'
    have := (rewriteNext_eq_some.mp h).1.symm.trans (rewriteNext_eq_some.mp h').1
    simp only [Option.some.injEq] at this
    omega
  · intro start start' n hstart hnone hn
    obtain ⟨hf, hlt⟩ := rewriteNext_eq_some.mp hn
    have hsome : rewriteNext rewriteFrontier start = some n :=
      rewriteNext_eq_some.mpr ⟨hf, by omega⟩
    rw [hnone] at hsome
    cases hsome

/-- Vision items in prompt order, their consumer columns apart. -/
structure Placed (uses : List VisionUseSpan) : Prop where
  shape : ∀ use ∈ uses, use.useBegin ≤ use.textBegin ∧ use.textBegin < use.useEnd
  apart : uses.Pairwise fun a b => a.useEnd ≤ b.useBegin

variable {start : ℕ} {uses : List VisionUseSpan}

lemma Placed.tail {use : VisionUseSpan} (h : Placed (use :: uses)) : Placed uses :=
  ⟨fun u hu => h.shape u (List.mem_cons_of_mem _ hu), h.apart.of_cons⟩

/-- Where a step that starts at `start` must stop for the vision items. -/
def visionNext : List VisionUseSpan → ℕ → Option ℕ
  | [], _ => none
  | use :: uses, start =>
    if use.useEnd ≤ start then visionNext uses start
    else if start < use.textBegin then some use.textBegin
    else uses.head?.map (·.useBegin)

/-- A stop lies behind the step's start and before every later item. -/
lemma visionNext_spec (h : Placed uses) {n : ℕ} (hn : visionNext uses start = some n) :
    start < n ∧ ∃ use ∈ uses, start < use.useEnd ∧ use.useBegin ≤ n ∧ n ≤ use.textBegin := by
  induction uses with
  | nil => cases hn
  | cons use uses ih =>
    have hshape := h.shape use List.mem_cons_self
    unfold visionNext at hn
    split at hn
    · obtain ⟨hlt, u, hu, hrest⟩ := ih h.tail hn
      exact ⟨hlt, u, List.mem_cons_of_mem _ hu, hrest⟩
    split at hn
    · cases hn
      exact ⟨by assumption, use, List.mem_cons_self, by omega, hshape.1, le_rfl⟩
    · obtain ⟨v, hv, rfl⟩ := Option.map_eq_some_iff.mp hn
      have hv := List.mem_of_head? hv
      have hapart := List.rel_of_pairwise_cons h.apart hv
      have hvshape := h.shape v (List.mem_cons_of_mem _ hv)
      exact ⟨by omega, v, List.mem_cons_of_mem _ hv, by omega, le_rfl, hvshape.1⟩

lemma visionNext_mono (h : Placed uses) {start' n' : ℕ} (hstart : start ≤ start')
    (hn' : visionNext uses start' = some n') : ∃ n, visionNext uses start = some n ∧ n ≤ n' := by
  induction uses with
  | nil => cases hn'
  | cons use uses ih =>
    have hshape := h.shape use List.mem_cons_self
    unfold visionNext at hn' ⊢
    by_cases hend : use.useEnd ≤ start
    · rw [if_pos (by omega)] at hn'
      rw [if_pos hend]
      exact ih h.tail hn'
    · rw [if_neg hend]
      by_cases htext : start < use.textBegin
      · rw [if_pos htext]
        refine ⟨_, rfl, ?_⟩
        split at hn'
        · obtain ⟨hlt, -⟩ := visionNext_spec h.tail hn'
          omega
        split at hn'
        · cases hn'
          exact le_rfl
        · obtain ⟨v, hv, rfl⟩ := Option.map_eq_some_iff.mp hn'
          have hapart := List.rel_of_pairwise_cons h.apart (List.mem_of_head? hv)
          omega
      · rw [if_neg htext]
        split at hn'
        · -- The later step starts behind this item, so the next item is in both steps' way.
          cases uses with
          | nil => cases hn'
          | cons v uses =>
            refine ⟨v.useBegin, rfl, ?_⟩
            obtain ⟨-, u, hu, -, hle, -⟩ := visionNext_spec h.tail hn'
            rcases List.mem_cons.mp hu with rfl | hu
            · exact hle
            · have hapart := List.rel_of_pairwise_cons h.tail.apart hu
              have hvshape := h.shape v (by simp)
              omega
        · rw [if_neg (by omega)] at hn'
          exact ⟨n', hn', le_rfl⟩

lemma cut_vision (h : Placed uses) : Cut fun start stop => stopAt stop (visionNext uses start) := by
  refine Cut.ofNext (fun hn => (visionNext_spec h hn).1) ?_ ?_
  · intro start start' n n' hstart hn hn'
    obtain ⟨m, hm, hle⟩ := visionNext_mono h hstart hn'
    cases hm.symm.trans hn
    exact hle
  · intro start start' n hstart hnone hn
    obtain ⟨m, hm, -⟩ := visionNext_mono h hstart hn
    cases hm.symm.trans hnone

/-- The scan stops where `visionNext` says. -/
lemma scanVisionUses_fst (h : Placed uses) {stop : ℕ} (index : ℕ) (hlt : start < stop) :
    (scanVisionUses start uses index stop none).1 =
      stopAt stop (visionNext uses start) := by
  induction uses generalizing index with
  | nil => rfl
  | cons use uses ih =>
    have hshape := h.shape use List.mem_cons_self
    unfold scanVisionUses visionNext
    by_cases hend : use.useEnd ≤ start
    · rw [if_pos hend, if_pos hend]
      exact ih h.tail (index + 1)
    rw [if_neg hend, if_neg hend]
    by_cases htext : start < use.textBegin
    · split
      · show stop = min stop use.textBegin
        omega
      · rfl
    rw [if_neg (by omega)]
    simp only [htext, if_false]
    cases uses with
    | nil => rfl
    | cons v uses =>
      have hapart := List.rel_of_pairwise_cons h.apart List.mem_cons_self
      have hvshape := h.shape v (by simp)
      unfold scanVisionUses
      rw [if_neg (by omega)]
      split
      · show stop = min stop v.useBegin
        omega
      · rfl

/-! ### From lengths to stops -/

lemma add_capAtRewrite (rewriteFrontier : Option ℕ) (start length : ℕ) :
    start + capAtRewrite start length rewriteFrontier =
      stopAt (start + length) (rewriteNext rewriteFrontier start) := by
  cases rewriteFrontier with
  | none => rfl
  | some frontier =>
    by_cases hlt : start < frontier
    · rw [rewriteNext_eq_some.mpr ⟨rfl, hlt⟩]
      simp only [capAtRewrite, if_pos hlt, stopAt]
      omega
    · have hnone : rewriteNext (some frontier) start = none := by
        simpa [rewriteNext] using hlt
      rw [hnone]
      simp only [capAtRewrite, if_neg hlt, stopAt]

lemma add_capPrefillAtFrontiers (start length : ℕ) (frontiers : List ℕ) :
    start + capPrefillAtFrontiers start length frontiers =
      stopAt (start + length) (frontiers.find? (start < ·)) := by
  unfold capPrefillAtFrontiers
  cases h : frontiers.find? (start < ·) with
  | none => rfl
  | some n =>
    have hlt : start < n := by simpa using List.find?_some h
    simp only [stopAt]
    omega

lemma add_selectVisionPrefillChunk (h : Placed uses) {length : ℕ} (hpos : 0 < length) :
    start + (selectVisionPrefillChunk uses start length).length =
      stopAt (start + length) (visionNext uses start) := by
  have hlt : start < start + length := by omega
  have hscan := scanVisionUses_fst h 0 hlt
  have hcut := (cut_vision h).lt hlt
  rw [← hscan] at hcut ⊢
  exact Nat.add_sub_of_le hcut.le

/-! ## Chunk counts -/

section prefillChunkCount

variable {tokens maximum : ℕ}

lemma prefillChunkCount_decreases (hmaximum : 0 < maximum) (tokens : ℕ) (h : tokens ≠ 0) :
    id (tokens - selectPrefillChunk tokens maximum) < id tokens := by
  have : 0 < selectPrefillChunk tokens maximum := selectPrefillChunk_pos (by omega) hmaximum
  simp only [id]
  omega

lemma le_mul_prefillChunkCount (hmaximum : 0 < maximum) :
    tokens ≤ maximum * prefillChunkCount tokens maximum := by
  refine le_mul_iterations (Q := id) (prefillChunkCount_decreases hmaximum) ?_ ?_ tokens
  · intro tokens h
    exact not_not.mp h
  · intro tokens _
    have : selectPrefillChunk tokens maximum ≤ maximum := selectPrefillChunk_le_maximum
    simp only [id]
    omega

lemma prefillChunkCount_le_one (hle : tokens ≤ maximum)
    (hmaximum : maximum ≤ kIrregularPrefillSplit) : prefillChunkCount tokens maximum ≤ 1 := by
  by_cases h : tokens = 0
  · subst h
    exact Nat.zero_le 1
  · have hstep : prefillChunkCount tokens maximum =
        prefillChunkCount (tokens - selectPrefillChunk tokens maximum) maximum + 1 :=
      iterations_step (prefillChunkCount_decreases (by omega)) h
    rw [hstep, selectPrefillChunk_of_le hmaximum, Nat.min_eq_left hle, Nat.sub_self]
    exact le_rfl

/-- At a width of at least the irregular split, no chunk but the last is shorter than it. -/
lemma prefillChunkCount_le_split (tokens : ℕ) (hmaximum : kIrregularPrefillSplit ≤ maximum) :
    prefillChunkCount tokens maximum ≤
      (tokens + (kIrregularPrefillSplit - 1)) / kIrregularPrefillSplit := by
  refine iterations_le_potential
    (P := fun tokens => (tokens + (kIrregularPrefillSplit - 1)) / kIrregularPrefillSplit)
    (prefillChunkCount_decreases (by unfold kIrregularPrefillSplit at hmaximum; omega)) ?_ tokens
  intro tokens h
  have : min tokens kIrregularPrefillSplit ≤ selectPrefillChunk tokens maximum :=
    min_le_selectPrefillChunk hmaximum le_rfl
  unfold kIrregularPrefillSplit at *
  omega

/-- An aligned width is used in full until what remains is less; the rest goes in pieces of at
least the irregular split. -/
lemma prefillChunkCount_le_aligned (tokens : ℕ) (hmaximum : 0 < maximum)
    (haligned : maximum % kPrefillChunkAlignment = 0) :
    prefillChunkCount tokens maximum ≤ tokens / maximum +
      (tokens % maximum + (kIrregularPrefillSplit - 1)) / kIrregularPrefillSplit := by
  refine iterations_le_potential (P := fun tokens => tokens / maximum +
    (tokens % maximum + (kIrregularPrefillSplit - 1)) / kIrregularPrefillSplit)
    (prefillChunkCount_decreases hmaximum) ?_ tokens
  intro tokens h
  by_cases hlt : tokens < maximum
  · have hchunk : selectPrefillChunk tokens maximum = tokens ∨
        selectPrefillChunk tokens maximum = kIrregularPrefillSplit ∧
          kIrregularPrefillSplit < tokens := by
      unfold selectPrefillChunk
      simp only
      split <;> omega
    have hsub : tokens - selectPrefillChunk tokens maximum < maximum := by omega
    simp only [Nat.div_eq_of_lt hlt, Nat.mod_eq_of_lt hlt, Nat.div_eq_of_lt hsub,
      Nat.mod_eq_of_lt hsub]
    unfold kIrregularPrefillSplit at *
    omega
  · have hchunk : selectPrefillChunk tokens maximum = maximum := by
      unfold selectPrefillChunk
      rw [Nat.min_eq_right (Nat.le_of_not_lt hlt)]
      rw [if_neg (fun h => h.2.2 haligned)]
    have hdiv := Nat.div_eq_sub_div hmaximum (Nat.le_of_not_lt hlt)
    have hmod := Nat.mod_eq_sub_mod (Nat.le_of_not_lt hlt)
    simp only [hchunk, hmod]
    omega

end prefillChunkCount

/-! ## Jobs -/

/-- A prompt to prefill, with its vision consumers and the rewrite checkpoint to capture. -/
structure Job where
  prompt : PromptShape
  visionUses : List VisionUseSpan := []
  rewriteFrontier : Option ℕ := none
  placed : Placed visionUses
  sorted : prompt.turnClosureFrontiers.Pairwise (· ≤ ·)

namespace Job

variable (j : Job)

/-- The next closed turn, which only media prompts stop at. -/
def closureNext (start : ℕ) : Option ℕ :=
  if j.prompt.hasMedia then j.prompt.turnClosureFrontiers.find? (start < ·) else none

lemma cut_closure : Cut fun start stop => stopAt stop (j.closureNext start) := by
  unfold closureNext
  cases j.prompt.hasMedia with
  | true => exact cut_frontiers j.sorted
  | false => exact Cut.none

/-- Where a step `[start, stop)` of the job really stops. -/
def cut (start stop : ℕ) : ℕ :=
  let stop := stopAt stop (rewriteNext j.rewriteFrontier start)
  let stop := stopAt stop (j.closureNext start)
  stopAt stop (visionNext j.visionUses start)

lemma isCut : Cut j.cut :=
  ((cut_rewrite j.rewriteFrontier).comp j.cut_closure).comp (cut_vision j.placed)

/-- Where a step of the given width stops. -/
def next (width start : ℕ) : ℕ :=
  start + projectedChunk j.prompt width j.visionUses j.rewriteFrontier start

lemma chunk_pos {width : ℕ} (hwidth : 0 < width) (hstart : start < j.prompt.tokens) :
    0 < selectPrefillChunk (j.prompt.tokens - start) width :=
  selectPrefillChunk_pos (Nat.sub_pos_of_lt hstart) hwidth

lemma next_eq {width : ℕ} (hwidth : 0 < width) (hstart : start < j.prompt.tokens) :
    j.next width start =
      j.cut start (start + selectPrefillChunk (j.prompt.tokens - start) width) := by
  have hpos := j.chunk_pos hwidth hstart
  unfold next projectedChunk cut
  generalize selectPrefillChunk (j.prompt.tokens - start) width = length at hpos
  have hrewrite := add_capAtRewrite j.rewriteFrontier start length
  have hlt : start < start + length := by omega
  have hrewrite_lt := (cut_rewrite j.rewriteFrontier).lt hlt
  simp only [← hrewrite] at hrewrite_lt ⊢
  generalize capAtRewrite start length j.rewriteFrontier = length at hrewrite_lt ⊢
  have hclosure : start + (if j.prompt.hasMedia then
        capPrefillAtFrontiers start length j.prompt.turnClosureFrontiers else length) =
      stopAt (start + length) (j.closureNext start) := by
    unfold closureNext
    cases j.prompt.hasMedia with
    | true => exact add_capPrefillAtFrontiers ..
    | false => rfl
  have hclosure_lt := j.cut_closure.lt hrewrite_lt
  simp only [← hclosure] at hclosure_lt ⊢
  exact add_selectVisionPrefillChunk j.placed (by omega)

variable {width start : ℕ}

lemma lt_next (hwidth : 0 < width) (hstart : start < j.prompt.tokens) :
    start < j.next width start := by
  rw [j.next_eq hwidth hstart]
  exact j.isCut.lt (Nat.lt_add_of_pos_right (j.chunk_pos hwidth hstart))

lemma next_le_nominal (hwidth : 0 < width) (hstart : start < j.prompt.tokens) :
    j.next width start ≤ start + selectPrefillChunk (j.prompt.tokens - start) width := by
  rw [j.next_eq hwidth hstart]
  exact j.isCut.le (Nat.lt_add_of_pos_right (j.chunk_pos hwidth hstart))

lemma next_le_tokens (hwidth : 0 < width) (hstart : start < j.prompt.tokens) :
    j.next width start ≤ j.prompt.tokens := by
  have hle := @selectPrefillChunk_le_remaining (j.prompt.tokens - start) width
  have hnominal := j.next_le_nominal hwidth hstart
  omega

/-- No step crosses the rewrite checkpoint. -/
lemma next_le_rewrite {frontier : ℕ} (hwidth : 0 < width) (hstart : start < j.prompt.tokens)
    (hrewrite : j.rewriteFrontier = some frontier) (hlt : start < frontier) :
    j.next width start ≤ frontier := by
  have hpos := j.chunk_pos hwidth hstart
  rw [j.next_eq hwidth hstart]
  generalize selectPrefillChunk (j.prompt.tokens - start) width = length at hpos
  have hcut := (cut_rewrite j.rewriteFrontier).lt (Nat.lt_add_of_pos_right (n := start) hpos)
  calc j.cut start (start + length)
      ≤ stopAt (start + length) (rewriteNext j.rewriteFrontier start) :=
        (j.cut_closure.comp (cut_vision j.placed)).le hcut
    _ = min (start + length) frontier := by rw [rewriteNext_eq_some.mpr ⟨hrewrite, hlt⟩]; rfl
    _ ≤ frontier := min_le_right ..

/-! ### Walks -/

/-- The number of steps of the given width from `start` to the end of the prompt. -/
def work (width start : ℕ) : ℕ :=
  iterations (· < j.prompt.tokens) (j.next width) (j.prompt.tokens - ·) start

lemma next_decreases (hwidth : 0 < width) (start : ℕ) (hstart : start < j.prompt.tokens) :
    j.prompt.tokens - j.next width start < j.prompt.tokens - start := by
  have := j.lt_next hwidth hstart
  omega

/-- Steps at a width up to the irregular split are overtaken by no wider step. -/
lemma next_mono {width' start' : ℕ} (hwidth : 0 < width) (hle : width ≤ width')
    (hsplit : width ≤ kIrregularPrefillSplit) (hstart : start ≤ start')
    (hstart' : start' < j.prompt.tokens) : j.next width start ≤ j.next width' start' := by
  have hpos := j.chunk_pos hwidth (hstart.trans_lt hstart')
  have hmin : min (j.prompt.tokens - start') width ≤
      selectPrefillChunk (j.prompt.tokens - start') width' :=
    min_le_selectPrefillChunk hle hsplit
  rw [j.next_eq hwidth (by omega), j.next_eq (by omega) hstart']
  refine j.isCut.mono (by omega) (by omega) hstart ?_
  rw [selectPrefillChunk_of_le hsplit]
  omega

lemma work_anti {start' : ℕ} (hwidth : 0 < width) (hsplit : width ≤ kIrregularPrefillSplit)
    (hstart : start ≤ start') : j.work width start' ≤ j.work width start :=
  iterations_le (R := (· ≤ ·)) (j.next_decreases hwidth) (j.next_decreases hwidth)
    (fun _ _ h ht => h.trans_lt ht)
    (fun _ _ h ht => j.next_mono hwidth le_rfl hsplit h ht) hstart

/-- A step of the walk's own width, or of any width that is at least as large when the walk's width
is at most the irregular split, is worth one step of the walk. -/
lemma work_next {width' : ℕ} (hwidth : 0 < width)
    (hpace : width' = width ∨ width ≤ width' ∧ width ≤ kIrregularPrefillSplit)
    (hstart : start < j.prompt.tokens) :
    j.work width (j.next width' start) + 1 ≤ j.work width start := by
  have hstep : j.work width start = j.work width (j.next width start) + 1 :=
    iterations_step (j.next_decreases hwidth) hstart
  rcases hpace with rfl | ⟨hle, hsplit⟩
  · exact hstep.ge
  · have := j.work_anti hwidth hsplit (j.next_mono hwidth hle hsplit le_rfl hstart)
    omega

/-- The prefill units that a request at `cursor` has left. -/
def units (width cursor : ℕ) : ℕ :=
  projectedPrefillWork j.prompt cursor width j.visionUses j.rewriteFrontier

lemma units_tokens : j.units width j.prompt.tokens = 1 := if_pos rfl

lemma units_of_lt (hstart : start < j.prompt.tokens) :
    j.units width start = j.work width start := if_neg hstart.ne'

lemma units_pos (hwidth : 0 < width) (hstart : start ≤ j.prompt.tokens) :
    0 < j.units width start := by
  rcases hstart.eq_or_lt with rfl | hlt
  · rw [units_tokens]
    exact Nat.one_pos
  · rw [j.units_of_lt hlt, work, iterations_step (j.next_decreases hwidth) hlt]
    exact Nat.succ_pos _

/-- One step inside the prompt uses up one unit. -/
lemma units_next {width' : ℕ} (hwidth : 0 < width)
    (hpace : width' = width ∨ width ≤ width' ∧ width ≤ kIrregularPrefillSplit)
    (hstart : start < j.prompt.tokens) (hnext : j.next width' start < j.prompt.tokens) :
    j.units width (j.next width' start) + 1 ≤ j.units width start := by
  rw [j.units_of_lt hstart, j.units_of_lt hnext]
  exact j.work_next hwidth hpace hstart

/-- A prompt without anything to stop at inside takes its chunks one after another. -/
lemma units_le_prefillChunkCount (hwidth : 0 < width) (hmedia : j.prompt.hasMedia = false)
    (hvision : j.visionUses = [])
    (hrewrite : ∀ frontier, j.rewriteFrontier = some frontier → frontier = j.prompt.tokens)
    (hstart : start < j.prompt.tokens) :
    j.units width start ≤ prefillChunkCount (j.prompt.tokens - start) width := by
  have hnext : ∀ start, start < j.prompt.tokens →
      j.next width start = start + selectPrefillChunk (j.prompt.tokens - start) width := by
    intro start hstart
    have hle := @selectPrefillChunk_le_remaining (j.prompt.tokens - start) width
    rw [j.next_eq hwidth hstart, cut, closureNext, hmedia, hvision]
    cases hn : rewriteNext j.rewriteFrontier start with
    | none => rfl
    | some n =>
      have := hrewrite n (rewriteNext_eq_some.mp hn).1
      show min (start + selectPrefillChunk (j.prompt.tokens - start) width) n = _
      omega
  rw [j.units_of_lt hstart]
  refine Eq.le (iterations_eq (R := fun start tokens => start + tokens = j.prompt.tokens)
    (j.next_decreases hwidth) (prefillChunkCount_decreases hwidth) ?_ ?_ (by omega))
  · intro start tokens h
    omega
  · intro start tokens h hlt
    have hle := @selectPrefillChunk_le_remaining (j.prompt.tokens - start) width
    obtain rfl : tokens = j.prompt.tokens - start := by omega
    rw [hnext start hlt]
    omega

end Job

end NInfer.Prefill
