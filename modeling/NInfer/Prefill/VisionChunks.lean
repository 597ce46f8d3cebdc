import NInfer.Foundation.Fallible
import NInfer.Prefill.Schedule

/-!
# The vision items of a prefill

A chunk of a prefill reads the embeddings of one vision item at most (`vision_prefill.h`).
`Job.chunks` is the walk of `projected_prefill_work`, with the item that `prepare_chunk` looks up
for each chunk.  The walk ends, its chunks tile the prompt behind the reuse base, and the item of a
chunk is the only one with a consumer column in it (`vision_chunks_tile`).
-/

namespace NInfer.Prefill

variable {start : ℕ} {uses : List VisionUseSpan}

/-! ## The item of a chunk -/

/-- A step stops before the text of an item it does not start in. -/
lemma stopAt_visionNext_le (h : Placed uses) {stop : ℕ} {use : VisionUseSpan} (huse : use ∈ uses)
    (htext : start < use.textBegin) : stopAt stop (visionNext uses start) ≤ use.textBegin := by
  induction uses with
  | nil => cases huse
  | cons first uses ih =>
    have hshape := h.shape
    have hlater := List.pairwise_cons.mp h.apart
    unfold visionNext
    split
    · exact ih h.tail (by grind)
    split
    · grind [stopAt]
    · cases uses with
      | nil => grind
      | cons second uses =>
        have hthird := List.pairwise_cons.mp hlater.2
        grind [stopAt]

lemma scanVisionUses_le (index stop : ℕ) (active : Option ℕ) :
    (scanVisionUses start uses index stop active).1 ≤ stop := by
  fun_induction scanVisionUses start uses index stop active <;> grind

/-- The scan hands out the one item with a consumer in front of the stop it returns. -/
lemma scanVisionUses_snd (h : Placed uses) {stop : ℕ} (index : ℕ) (hlt : start < stop) (k : ℕ) :
    (scanVisionUses start uses index stop none).2 = some k ↔
      ∃ use, (use, k) ∈ uses.zipIdx index ∧ start < use.useEnd ∧
        use.useBegin < (scanVisionUses start uses index stop none).1 := by
  induction uses generalizing index with
  | nil => simp [scanVisionUses]
  | cons use uses ih =>
    have hshape := h.shape use (List.mem_cons_self ..)
    have hlater : ∀ v m, (v, m) ∈ uses.zipIdx (index + 1) → use.useEnd ≤ v.useBegin :=
      fun v m hv => List.rel_of_pairwise_cons h.apart (List.fst_mem_of_mem_zipIdx hv)
    simp only [List.zipIdx_cons, List.mem_cons, Prod.mk.injEq]
    unfold scanVisionUses
    by_cases hend : use.useEnd ≤ start
    · rw [if_pos hend, ih h.tail]
      grind
    rw [if_neg hend]
    by_cases htext : start < use.textBegin
    · grind
    rw [if_neg (by omega)]
    simp only [htext, if_false]
    cases uses with
    | nil => grind [scanVisionUses]
    | cons v uses =>
      have hapart := List.rel_of_pairwise_cons h.apart (List.mem_cons_self ..)
      have hvshape := h.shape v (by simp)
      have hlast : ∀ w m, (w, m) ∈ uses.zipIdx (index + 2) → v.useEnd ≤ w.useBegin :=
        fun w m hw => List.rel_of_pairwise_cons h.tail.apart (List.fst_mem_of_mem_zipIdx hw)
      unfold scanVisionUses
      rw [if_neg (by omega)]
      grind

/-- `prepare_chunk`, up to the item it looks up. -/
def prepareChunk (uses : List VisionUseSpan) (tokens start nominalLength : ℕ) :
    Except String VisionChunkSelection := do
  refuseIf (nominalLength = 0 ∨ start ≥ tokens) "Vision chunk range is empty or outside the prompt"
  let stop := min (start + nominalLength) tokens
  let selected := selectVisionPrefillChunk uses start (stop - start)
  refuseIf (selected.length = 0) "Vision chunk cap made no forward progress"
  return selected

namespace Job

/-- The nominal length of the chunk of `projected_prefill_work` at `start`. -/
def nominal (j : Job) (width start : ℕ) : ℕ :=
  let length := selectPrefillChunk (j.prompt.tokens - start) width
  let length := capAtRewrite start length j.rewriteFrontier
  if j.prompt.hasMedia then capPrefillAtFrontiers start length j.prompt.turnClosureFrontiers
  else length

/-- The chunk of `projected_prefill_work` at `start`. -/
def chunk (j : Job) (width start : ℕ) : VisionChunkSelection :=
  selectVisionPrefillChunk j.visionUses start (j.nominal width start)

/-- The first `fuel` chunks from `start` on, each with the column it starts at. -/
def chunks (j : Job) (width : ℕ) : ℕ → ℕ → List (ℕ × VisionChunkSelection)
  | 0, _ => []
  | fuel + 1, start =>
    if start < j.prompt.tokens then
      (start, j.chunk width start) :: j.chunks width fuel (start + (j.chunk width start).length)
    else []

/-- A chunk is neither empty nor wider than the limit, stops before the text of an item it does not
start in, and has the only item with a consumer in it. -/
structure Sound (j : Job) (width start : ℕ) (chunk : VisionChunkSelection) : Prop where
  pos : 0 < chunk.length
  le_width : chunk.length ≤ width
  text : ∀ use ∈ j.visionUses, start < use.textBegin → start + chunk.length ≤ use.textBegin
  item : ∀ i, chunk.useIndex = some i ↔ ∃ use, j.visionUses[i]? = some use ∧
    start < use.useEnd ∧ use.useBegin < start + chunk.length
  prepared : ∃ nominal, prepareChunk j.visionUses j.prompt.tokens start nominal = .ok chunk

variable (j : Job) {width start : ℕ}

lemma nominal_le (width start : ℕ) : j.nominal width start ≤ j.prompt.tokens - start := by
  have hle := @selectPrefillChunk_le_remaining (j.prompt.tokens - start) width
  unfold nominal capAtRewrite capPrefillAtFrontiers
  grind

lemma sound_chunk (hwidth : 0 < width) (hstart : start < j.prompt.tokens) :
    j.Sound width start (j.chunk width start) := by
  have hnext : start + (j.chunk width start).length = j.next width start := rfl
  have hlt := j.lt_next hwidth hstart
  -- the chunk is what the scan leaves of the nominal length
  have hscan : (scanVisionUses start j.visionUses 0 (start + j.nominal width start) none).1 ≤
    start + j.nominal width start := scanVisionUses_le ..
  have hlength : (j.chunk width start).length = (scanVisionUses start j.visionUses 0
    (start + j.nominal width start) none).1 - start := rfl
  refine ⟨by omega, ?_, fun use huse htext => ?_, fun i => ?_, j.nominal width start, ?_⟩
  · have hnominal := j.next_le_nominal hwidth hstart
    have hmax := @selectPrefillChunk_le_maximum (j.prompt.tokens - start) width
    omega
  · rw [hnext, j.next_eq hwidth hstart]
    exact stopAt_visionNext_le j.placed huse htext
  · rw [hlength, Nat.add_sub_of_le (by omega), chunk, selectVisionPrefillChunk,
      scanVisionUses_snd j.placed 0 (by omega)]
    simp only [List.mk_mem_zipIdx_iff_getElem?]
  · have hle := j.nominal_le width start
    refine refuseIf_bind_iff.mpr ⟨by omega, ?_⟩
    rw [Nat.min_eq_left (by omega)]
    simp only [Nat.add_sub_cancel_left]
    exact refuseIf_bind_iff.mpr ⟨by change (j.chunk width start).length ≠ 0; omega, rfl⟩

end Job

/-- The chunks follow each other from `start` to `stop`. -/
def Consecutive (stop : ℕ) : ℕ → List (ℕ × VisionChunkSelection) → Prop
  | start, [] => start = stop
  | start, (s, chunk) :: chunks => s = start ∧ Consecutive stop (s + chunk.length) chunks

/-- The walk over a prompt ends, and its sound chunks tile what the prompt has behind the base. -/
theorem vision_chunks_tile (j : Job) {width : ℕ} (hwidth : 0 < width) (base : ℕ) :
    ∃ chunks, (∀ fuel ≥ j.prompt.tokens - base, j.chunks width fuel base = chunks) ∧
      Consecutive (max base j.prompt.tokens) base chunks ∧
      ∀ start chunk, (start, chunk) ∈ chunks → j.Sound width start chunk := by
  induction hn : j.prompt.tokens - base using Nat.strongRecOn generalizing base with
  | _ n ih =>
    by_cases hlt : base < j.prompt.tokens
    · have hchunk := j.sound_chunk hwidth hlt
      have hpos := hchunk.pos
      have hle : base + (j.chunk width base).length ≤ j.prompt.tokens := j.next_le_tokens hwidth hlt
      obtain ⟨chunks, hfuel, htiles, hsound⟩ :=
        ih _ (by omega) (base + (j.chunk width base).length) rfl
      rw [max_eq_right hle] at htiles
      rw [max_eq_right hlt.le]
      refine ⟨(base, j.chunk width base) :: chunks, fun fuel hf => ?_, ⟨rfl, htiles⟩, ?_⟩
      · obtain ⟨fuel, rfl⟩ : ∃ f, fuel = f + 1 := ⟨fuel - 1, by omega⟩
        rw [Job.chunks, if_pos hlt, hfuel fuel (by omega)]
      · rintro start chunk (_ | ⟨_, hmem⟩)
        · exact hchunk
        · exact hsound start chunk hmem
    · refine ⟨[], fun fuel _ => ?_, by simp only [Consecutive]; omega, by simp⟩
      cases fuel with
      | zero => rfl
      | succ fuel => rw [Job.chunks, if_neg hlt]

/-- Two adjacent items that MTP reads one column early, a closed turn and a checkpoint. -/
def adjacentItems : Job where
  prompt := { tokens := 12, hasMedia := true, turnClosureFrontiers := [10] }
  visionUses := [⟨2, 3, 5⟩, ⟨5, 6, 8⟩]
  rewriteFrontier := some 9
  placed := ⟨by decide, by decide⟩
  sorted := by decide

theorem vision_chunks_tile_adjacentItems :
    ∃ chunks, (∀ fuel ≥ 11, adjacentItems.chunks 4 fuel 1 = chunks) ∧ Consecutive 12 1 chunks ∧
      ∀ start chunk, (start, chunk) ∈ chunks → adjacentItems.Sound 4 start chunk :=
  vision_chunks_tile adjacentItems (by decide) 1

end NInfer.Prefill
