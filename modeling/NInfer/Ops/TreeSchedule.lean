import NInfer.Foundation.ParentTree

/-!
# Compiling a draft tree into a step list

The recurrent layers verify a tree of draft columns by running one state through the columns'
transitions (`gated_delta_net`).  A kernel compiles the tree into a list of steps once per round
(`tree_schedule_kernel`); each layer then executes the list (`recurrent_bf16_body`).  A step
resumes from the live state, from the checkpoint or from one of three branch slots, applies the
transition of its column, and may save the result to a slot and emit the column.

Columns with several children are saved while a slot is free, and a slot is released when the last
child of its column starts.  A column whose parent is neither the previous column nor in a slot is
preceded by a replay of its parent's path.

This file shows that the list computes the tree recurrence, for any state and transition
(`tree_schedule_correct`): every column is emitted once and in order, from the state that the
transitions along its root path lead to.
-/

namespace NInfer.TreeSchedule

open ParentTree

/-! ## Steps and their words -/

/-- `kBranchSlots`. -/
abbrev kBranchSlots : ℕ := 3

/-- Where a step takes its state from. -/
inductive Resume where
  | live
  | checkpoint
  | slot (s : Fin kBranchSlots)
  deriving DecidableEq

structure Step where
  column : ℕ
  resume : Resume
  save : Option (Fin kBranchSlots)
  emit : Bool
  deriving DecidableEq

/-- Bits 0–2 of a step's code. -/
def Resume.code : Resume → ℕ
  | .live => 0
  | .checkpoint => 1
  | .slot s => 2 + s

/-- The code of a step: where it resumes, where it saves (`1 + slot`) and whether it emits. -/
def Step.code (step : Step) : ℕ :=
  step.resume.code ||| ((step.save.elim 0 fun s => 1 + (s : ℕ)) <<< 3) |||
    (if step.emit then 1 <<< 6 else 0)

/-- `column | code << 8`. -/
def Step.word (step : Step) : ℕ := step.column ||| (step.code <<< 8)

/-- The slot that a field of the code names, if it names one. -/
def slotField (field base : ℕ) : Option (Fin kBranchSlots) :=
  if h : base ≤ field ∧ field - base < kBranchSlots then some ⟨field - base, h.2⟩ else none

/-- How the executing kernel reads a step's code. -/
def Step.ofCode (column code : ℕ) : Step :=
  let resume := code &&& 7
  { column
    resume := if resume = 1 then .checkpoint else (slotField resume 2).elim .live .slot
    save := slotField ((code >>> 3) &&& 7) 1
    emit := code &&& (1 <<< 6) ≠ 0 }

/-- How the executing kernel reads a word. -/
def Step.ofWord (word : ℕ) : Step := Step.ofCode (word &&& 0xff) (word >>> 8)

lemma Step.ofCode_code (step : Step) : Step.ofCode step.column step.code = step := by
  obtain ⟨column, resume, save, emit⟩ := step
  have hcode : ∀ (s t : Fin kBranchSlots) (b : Bool), ∀ r ∈ [Resume.live, .checkpoint, .slot s],
      ∀ v ∈ [none, some t], Step.ofCode 0 (Step.code ⟨0, r, v, b⟩) = ⟨0, r, v, b⟩ := by decide
  have hresume : ∃ s, resume ∈ [Resume.live, .checkpoint, .slot s] := by
    cases resume with
    | live => exact ⟨0, by simp⟩
    | checkpoint => exact ⟨0, by simp⟩
    | slot s => exact ⟨s, by simp⟩
  have hsave : ∃ t, save ∈ [none, some t] := by
    cases save with
    | none => exact ⟨0, by simp⟩
    | some t => exact ⟨t, by simp⟩
  obtain ⟨s, hs⟩ := hresume
  obtain ⟨t, ht⟩ := hsave
  have h := hcode s t emit resume hs save ht
  simp only [Step.ofCode, Step.mk.injEq] at h ⊢
  exact h

/-- A word that the compiler writes is read back as the same step. -/
lemma Step.ofWord_word {step : Step} (h : step.column < 256) : Step.ofWord step.word = step := by
  have hword : step.word = step.code <<< 8 + step.column := by
    rw [Step.word, Nat.or_comm, Nat.shiftLeft_add_eq_or_of_lt h]
  have hcolumn : step.word &&& 0xff = step.column := by
    rw [show (0xff : ℕ) = 2 ^ 8 - 1 from rfl, Nat.and_two_pow_sub_one_eq_mod]
    omega
  have hcode : step.word >>> 8 = step.code := by
    omega
  rw [Step.ofWord, hcolumn, hcode, Step.ofCode_code]

/-! ## The compiler -/

/-- The local arrays of `tree_schedule_kernel`. -/
structure Compiler where
  children : ℕ → ℤ
  slotOf : ℕ → Option (Fin kBranchSlots) := fun _ => none
  free : Fin kBranchSlots → Bool := fun _ => true
  steps : List Step := []

/-- The number of children of each column, counted from the columns after the root. -/
def countChildren (columns : ℕ) (parent : ℕ → ℤ) : ℕ → ℤ :=
  (List.range' 1 (columns - 1)).foldl
    (fun children c =>
      if parent c ≥ 0 then
        Function.update children (parent c).toNat (children (parent c).toNat + 1)
      else children)
    fun _ => 0

/-- Steps that run a path from the checkpoint without emitting. -/
def replaySteps : List ℕ → List Step
  | [] => []
  | root :: rest =>
    ⟨root, .checkpoint, none, false⟩ :: rest.map fun c => ⟨c, .live, none, false⟩

/-- Where column `c` resumes, and the replay that has to precede it. -/
def resumeColumn (maxColumns : ℕ) (parent : ℕ → ℤ) (slotOf : ℕ → Option (Fin kBranchSlots))
    (c : ℕ) : Resume × List Step :=
  if parent c < 0 then (.checkpoint, [])
  else if parent c = (c : ℤ) - 1 then (.live, [])
  else
    match slotOf (parent c).toNat with
    | some s => (.slot s, [])
    | none => (.live, replaySteps (upPath parent maxColumns (parent c)).reverse)

/-- A column that starts is one remaining child fewer of its parent. -/
def takeChild (parent : ℕ → ℤ) (children : ℕ → ℤ) (c : ℕ) : ℕ → ℤ :=
  if parent c ≥ 0 then Function.update children (parent c).toNat (children (parent c).toNat - 1)
  else children

/-- The slot of a column is released when its last child starts. -/
def releaseSlot (parent : ℕ → ℤ) (children : ℕ → ℤ) (slotOf : ℕ → Option (Fin kBranchSlots))
    (free : Fin kBranchSlots → Bool) (c : ℕ) : Fin kBranchSlots → Bool :=
  if parent c ≥ 0 ∧ children (parent c).toNat = 0 then
    (slotOf (parent c).toNat).elim free fun s => Function.update free s true
  else free

/-- The lowest free slot, for a column with at least two children. -/
def saveSlot (children : ℕ → ℤ) (free : Fin kBranchSlots → Bool) (c : ℕ) :
    Option (Fin kBranchSlots) :=
  if children c ≥ 2 then (List.finRange kBranchSlots).find? free else none

/-- One iteration of the loop over the columns. -/
def Compiler.column (maxColumns : ℕ) (parent : ℕ → ℤ) (k : Compiler) (c : ℕ) : Compiler :=
  let resumed := resumeColumn maxColumns parent k.slotOf c
  let children := takeChild parent k.children c
  let free := releaseSlot parent children k.slotOf k.free c
  let save := saveSlot children free c
  { children
    slotOf := save.elim k.slotOf fun s => Function.update k.slotOf c (some s)
    free := save.elim free fun s => Function.update free s false
    steps := k.steps ++ resumed.2 ++ [⟨c, resumed.1, save, true⟩] }

/-- The columns of a row: `valid` of them if the row says so, and never none. -/
def rowColumns (valid : Option ℤ) (width : ℕ) : ℕ :=
  let columns := valid.getD width
  if columns < 1 then 1 else if columns > width then width else columns.toNat

/-- The steps of a tree with `columns` columns. -/
def treeSchedule (maxColumns : ℕ) (parent : ℕ → ℤ) (columns : ℕ) : List Step :=
  ((List.range columns).foldl (Compiler.column maxColumns parent)
    { children := countChildren columns parent }).steps

/-- `kGdnTreeMaxColumns`. -/
def kGdnTreeMaxColumns : ℕ := 16

/-- `kGdnTreeScheduleWords`. -/
def kGdnTreeScheduleWords : ℕ := 1 + kGdnTreeMaxColumns * (kGdnTreeMaxColumns + 1) / 2

/-- `tree_schedule_kernel`, for one row: the number of steps and the steps' words. -/
def treeScheduleKernel (maxColumns : ℕ) (parent : ℕ → ℤ) (valid : Option ℤ) (width : ℕ) : List ℕ :=
  let steps := treeSchedule maxColumns parent (rowColumns valid width)
  steps.length :: steps.map Step.word

/-! ## Execution -/

/-- The registers and branch slots of the executing kernel, and what it has emitted.  A register or
slot that was never written holds nothing. -/
structure Machine (σ : Type) where
  live : Option σ := none
  slots : Fin kBranchSlots → Option σ := fun _ => none
  emitted : List (ℕ × σ) := []

variable {σ : Type}

/-- The state that a step resumes from. -/
def Machine.source (m : Machine σ) (checkpoint : σ) : Resume → Option σ
  | .live => m.live
  | .checkpoint => some checkpoint
  | .slot s => m.slots s

/-- The machine after a step that arrived at `state`. -/
def Machine.store (m : Machine σ) (step : Step) (state : σ) : Machine σ where
  live := some state
  slots := step.save.elim m.slots fun s => Function.update m.slots s (some state)
  emitted := if step.emit then m.emitted ++ [(step.column, state)] else m.emitted

/-- One step; it fails if it resumes from something that was never written. -/
def Machine.step (F : ℕ → σ → σ) (checkpoint : σ) (m : Machine σ) (step : Step) :
    Option (Machine σ) :=
  (m.source checkpoint step.resume).map fun state => m.store step (F step.column state)

/-- The tree branch of `recurrent_bf16_body`, on decoded steps. -/
def execute (F : ℕ → σ → σ) (checkpoint : σ) (steps : List Step) : Option (Machine σ) :=
  steps.foldlM (Machine.step F checkpoint) {}

/-- The tree branch of `recurrent_bf16_body`: the first word says how many steps follow. -/
def executeSchedule (F : ℕ → σ → σ) (checkpoint : σ) (schedule : List ℕ) : Option (Machine σ) :=
  execute F checkpoint ((schedule.tail.take (schedule.headD 0)).map Step.ofWord)

/-- The transitions of a list of columns, in order. -/
def along (F : ℕ → σ → σ) (path : List ℕ) (state : σ) : σ := path.foldl (fun s c => F c s) state

/-- The column whose step last saved to slot `s`. -/
def lastSave (steps : List Step) (s : Fin kBranchSlots) : Option ℕ :=
  (steps.reverse.find? fun step => step.save = some s).map Step.column

/-! ## Remaining children -/

section Children

variable {n : ℕ} {parent : ℕ → ℤ}

/-- The children of column `j` among the columns `c, …, n - 1`. -/
def remaining (n : ℕ) (parent : ℕ → ℤ) (c j : ℕ) : ℕ :=
  (List.range' c (n - c)).countP fun d => parent d = j

lemma remaining_eq {c : ℕ} (hc : c < n) (j : ℕ) :
    remaining n parent c j = remaining n parent (c + 1) j + if parent c = j then 1 else 0 := by
  obtain ⟨k, hk⟩ : ∃ k, n - c = k + 1 := ⟨n - c - 1, by omega⟩
  have hk' : n - (c + 1) = k := by omega
  simp [remaining, hk, hk', List.range'_succ, List.countP_cons]

lemma remaining_pos {c q : ℕ} (hc : c < n) (hq : parent c = q) : 0 < remaining n parent c q := by
  rw [remaining_eq hc, if_pos hq]
  omega

lemma countChildren_eq (htree : ParentTree n parent) (j : ℕ) :
    countChildren n parent j = remaining n parent 0 j := by
  -- Each counted column adds one to its parent's entry.
  have hfold : ∀ (l : List ℕ) (children : ℕ → ℤ) (j : ℕ),
      (l.foldl (fun children c => if parent c ≥ 0 then
          Function.update children (parent c).toNat (children (parent c).toNat + 1)
        else children) children) j = children j + (l.countP fun d => parent d = j : ℕ) := by
    intro l
    induction l with
    | nil => intro children j; simp
    | cons c l ih =>
      intro children j
      rw [List.foldl_cons, ih, List.countP_cons]
      by_cases hpar : parent c ≥ 0
      · rw [if_pos hpar, Function.update_apply]
        by_cases hj : j = (parent c).toNat
        · rw [if_pos hj, if_pos (by simp; omega), ← hj]
          omega
        · rw [if_neg hj, if_neg (by simp; omega)]
          omega
      · rw [if_neg hpar, if_neg (by simp; omega)]
        omega
  have hroot : ¬ parent 0 = j := by rw [htree.root]; omega
  rw [countChildren, hfold]
  rcases Nat.eq_zero_or_pos n with rfl | hn
  · simp [remaining]
  · rw [remaining_eq hn, if_neg hroot, remaining]
    simp

/-- Starting column `c` leaves the remaining children of every column. -/
lemma takeChild_eq {c : ℕ} (hc : c < n) {children : ℕ → ℤ}
    (h : ∀ j, children j = remaining n parent c j) (j : ℕ) :
    takeChild parent children c j = remaining n parent (c + 1) j := by
  have hj := h j
  have hstep : remaining n parent c j = _ := remaining_eq hc j
  unfold takeChild
  split
  case isTrue hpar =>
    rw [Function.update_apply]
    split
    case isTrue hq =>
      rw [if_pos (by omega)] at hstep
      rw [← hq]
      omega
    case isFalse hq =>
      rw [if_neg (by omega)] at hstep
      omega
  case isFalse hpar =>
    rw [if_neg (by omega)] at hstep
    omega

end Children

/-! ## Saves -/

lemma lastSave_append_of_none {steps more : List Step} {s : Fin kBranchSlots}
    (h : ∀ step ∈ more, step.save ≠ some s) : lastSave (steps ++ more) s = lastSave steps s := by
  have hnone : more.reverse.find? (fun step => step.save = some s) = none := by
    rw [List.find?_eq_none]
    intro step hstep
    simpa using h step (List.mem_reverse.mp hstep)
  rw [lastSave, List.reverse_append, List.find?_append, hnone, Option.none_or, lastSave]

lemma lastSave_append_save (steps : List Step) {step : Step} {s : Fin kBranchSlots}
    (h : step.save = some s) : lastSave (steps ++ [step]) s = some step.column := by
  simp [lastSave, h]

lemma save_of_mem_replaySteps {path : List ℕ} {step : Step} (h : step ∈ replaySteps path) :
    step.save = none ∧ ∀ s, step.resume ≠ .slot s := by
  cases path with
  | nil => cases h
  | cons root rest =>
    rcases List.mem_cons.mp h with rfl | h
    · simp
    · obtain ⟨c, -, rfl⟩ := List.mem_map.mp h
      simp

lemma map_column_replaySteps (path : List ℕ) : (replaySteps path).map Step.column = path := by
  cases path with
  | nil => rfl
  | cons root rest => simp [replaySteps, Function.comp_def]

/-- The ways in which a column resumes. -/
lemma resumeColumn_cases {maxColumns n : ℕ} {parent : ℕ → ℤ} (htree : ParentTree n parent)
    (hbound : n ≤ maxColumns) (slotOf : ℕ → Option (Fin kBranchSlots)) {c : ℕ} (hc : c < n) :
    (c = 0 ∧ resumeColumn maxColumns parent slotOf c = (.checkpoint, [])) ∨
    ∃ q : ℕ, 0 < c ∧ parent c = q ∧ q < c ∧
      ((c = q + 1 ∧ resumeColumn maxColumns parent slotOf c = (.live, [])) ∨
       (∃ s, slotOf q = some s ∧ resumeColumn maxColumns parent slotOf c = (.slot s, [])) ∨
       (q + 1 < c ∧
        resumeColumn maxColumns parent slotOf c = (.live, replaySteps (rootPath parent q)))) := by
  rcases Nat.eq_zero_or_pos c with rfl | hpos
  · left
    refine ⟨rfl, ?_⟩
    rw [resumeColumn, if_pos (by rw [htree.root]; omega)]
  · right
    obtain ⟨hparent, hlt⟩ := htree.precedes c hpos hc
    obtain ⟨q, hq⟩ := Int.eq_ofNat_of_zero_le hparent
    refine ⟨q, hpos, hq, by omega, ?_⟩
    rw [resumeColumn, hq, if_neg (by omega), Int.toNat_natCast]
    by_cases hlast : (q : ℤ) = (c : ℤ) - 1
    · left
      exact ⟨by omega, if_pos hlast⟩
    · right
      rw [if_neg hlast]
      cases hslot : slotOf q with
      | some s => exact Or.inl ⟨s, rfl, rfl⟩
      | none =>
        have hpath := htree.upPath_eq (by omega : q < n) maxColumns (q + 1) (by omega) (by omega)
        exact Or.inr ⟨by omega, by simp only [hpath, rootPath]⟩

/-! ## Execution of the list -/

section Execution

variable (F : ℕ → σ → σ) (checkpoint : σ)

/-- The state of a column: the transitions along its root path, from the checkpoint. -/
def stateAt (parent : ℕ → ℤ) (c : ℕ) : σ := along F (rootPath parent c) checkpoint

lemma stateAt_zero {n : ℕ} {parent : ℕ → ℤ} (htree : ParentTree n parent) :
    stateAt F checkpoint parent 0 = F 0 checkpoint := by
  rw [stateAt, htree.rootPath_zero, along, List.foldl_cons, List.foldl_nil]

lemma stateAt_of_parent {n : ℕ} {parent : ℕ → ℤ} (htree : ParentTree n parent) {c q : ℕ}
    (hpos : 0 < c) (hc : c < n) (hq : parent c = q) :
    stateAt F checkpoint parent c = F c (stateAt F checkpoint parent q) := by
  rw [stateAt, htree.rootPath_of_parent hpos hc hq, along, List.foldl_append, List.foldl_cons,
    List.foldl_nil, stateAt, along]

lemma foldlM_liveSteps (path : List ℕ) (m : Machine σ) {state : σ} (hlive : m.live = some state) :
    (path.map fun c => (⟨c, .live, none, false⟩ : Step)).foldlM (Machine.step F checkpoint) m =
      some { m with live := some (along F path state) } := by
  induction path generalizing m state with
  | nil => simp [along, ← hlive]
  | cons c path ih =>
    have hstep : m.step F checkpoint ⟨c, .live, none, false⟩ =
        some { m with live := some (F c state) } := by
      simp [Machine.step, Machine.source, Machine.store, hlive]
    rw [List.map_cons, List.foldlM_cons, hstep, Option.bind_eq_bind, Option.bind_some, ih _ rfl]
    rfl

/-- A replay brings the live state to the end of its path and changes nothing else. -/
lemma foldlM_replaySteps (root : ℕ) (rest : List ℕ) (m : Machine σ) :
    (replaySteps (root :: rest)).foldlM (Machine.step F checkpoint) m =
      some { m with live := some (along F (root :: rest) checkpoint) } := by
  have hstep : m.step F checkpoint ⟨root, .checkpoint, none, false⟩ =
      some { m with live := some (F root checkpoint) } := by
    simp [Machine.step, Machine.source, Machine.store]
  rw [replaySteps, List.foldlM_cons, hstep, Option.bind_eq_bind, Option.bind_some,
    foldlM_liveSteps F checkpoint rest _ rfl]
  rfl

/-- What the machine holds after the steps of the columns below `c`. -/
structure Machine.Follows (parent : ℕ → ℤ) (c : ℕ) (steps : List Step) (m : Machine σ) : Prop where
  emitted : m.emitted = (List.range c).map fun j => (j, stateAt F checkpoint parent j)
  live : ∀ j, c = j + 1 → m.live = some (stateAt F checkpoint parent j)
  saved : ∀ s j, lastSave steps s = some j → m.slots s = some (stateAt F checkpoint parent j)

/-- What the compiler holds after the columns below `c`. -/
structure Compiler.Valid (n : ℕ) (parent : ℕ → ℤ) (c : ℕ) (k : Compiler) : Prop where
  children : ∀ j, k.children j = remaining n parent c j
  /-- A column that still has children to come keeps its slot. -/
  held : ∀ j s, k.slotOf j = some s → 0 < remaining n parent c j →
    k.free s = false ∧ lastSave k.steps s = some j
  /-- A slot is read for a child of the column that saved to it last. -/
  reads : ∀ (i : ℕ) step s, k.steps[i]? = some step → step.resume = .slot s →
    ∃ j : ℕ, parent step.column = j ∧ lastSave (k.steps.take i) s = some j
  columns : ∀ step ∈ k.steps, step.column < c
  length : 2 * k.steps.length ≤ c * (c + 1)

variable {F checkpoint}
variable {maxColumns n c : ℕ} {parent : ℕ → ℤ} {k : Compiler}

/-- Before the step of column `c` the machine is at the state of its parent. -/
lemma Machine.Follows.resumed (htree : ParentTree n parent) (hbound : n ≤ maxColumns) (hc : c < n)
    (hk : k.Valid n parent c) {m : Machine σ} (hm : m.Follows F checkpoint parent c k.steps) :
    ∃ m' state,
      (resumeColumn maxColumns parent k.slotOf c).2.foldlM (Machine.step F checkpoint) m = some m' ∧
      m'.slots = m.slots ∧ m'.emitted = m.emitted ∧
      m'.source checkpoint (resumeColumn maxColumns parent k.slotOf c).1 = some state ∧
      F c state = stateAt F checkpoint parent c := by
  rcases resumeColumn_cases htree hbound k.slotOf hc with
    ⟨rfl, hresume⟩ | ⟨q, hpos, hq, -, ⟨hlast, hresume⟩ | ⟨s, hslot, hresume⟩ | ⟨hfar, hresume⟩⟩
  · rw [hresume]
    exact ⟨m, checkpoint, rfl, rfl, rfl, rfl, (stateAt_zero F checkpoint htree).symm⟩
  · rw [hresume]
    exact ⟨m, _, rfl, rfl, rfl, hm.live q hlast,
      (stateAt_of_parent F checkpoint htree hpos hc hq).symm⟩
  · rw [hresume]
    have hsave := (hk.held q s hslot (remaining_pos hc hq)).2
    exact ⟨m, _, rfl, rfl, rfl, hm.saved s q hsave,
      (stateAt_of_parent F checkpoint htree hpos hc hq).symm⟩
  · rw [hresume]
    obtain ⟨rest, hrest⟩ := htree.rootPath_eq_cons (by omega : q < n)
    refine ⟨{ m with live := some (stateAt F checkpoint parent q) }, _, ?_, rfl, rfl, rfl,
      (stateAt_of_parent F checkpoint htree hpos hc hq).symm⟩
    rw [stateAt, hrest]
    exact foldlM_replaySteps F checkpoint 0 rest m

lemma save_of_mem_resumeColumn {slotOf : ℕ → Option (Fin kBranchSlots)} {step : Step}
    (h : step ∈ (resumeColumn maxColumns parent slotOf c).2) :
    step.save = none ∧ ∀ s, step.resume ≠ .slot s := by
  unfold resumeColumn at h
  split at h
  · cases h
  · split at h
    · cases h
    · split at h
      · cases h
      · exact save_of_mem_replaySteps h

/-- A replay does not save. -/
lemma lastSave_replay (steps : List Step) (slotOf : ℕ → Option (Fin kBranchSlots))
    (s : Fin kBranchSlots) :
    lastSave (steps ++ (resumeColumn maxColumns parent slotOf c).2) s = lastSave steps s := by
  apply lastSave_append_of_none
  intro step hstep
  simp [(save_of_mem_resumeColumn hstep).1]

/-- The steps of column `c`, wherever it is saved, emit the column's state. -/
lemma Machine.Follows.column (htree : ParentTree n parent) (hbound : n ≤ maxColumns) (hc : c < n)
    (hk : k.Valid n parent c) {m : Machine σ} (hexec : execute F checkpoint k.steps = some m)
    (hm : m.Follows F checkpoint parent c k.steps) :
    ∃ m', execute F checkpoint (k.column maxColumns parent c).steps = some m' ∧
      m'.Follows F checkpoint parent (c + 1) (k.column maxColumns parent c).steps := by
  obtain ⟨m₁, state, hreplay, hslots, hemitted, hsource, hstate⟩ :=
    Machine.Follows.resumed htree hbound hc hk hm
  simp only [Compiler.column]
  generalize saveSlot _ _ c = save
  generalize hstep : Step.mk c (resumeColumn maxColumns parent k.slotOf c).1 save true = step
  have hrun : m₁.step F checkpoint step = some (m₁.store step (stateAt F checkpoint parent c)) := by
    rw [Machine.step, ← hstep]
    simp only [hsource, Option.map_some, hstate]
  refine ⟨m₁.store step (stateAt F checkpoint parent c), ?_, ?_, ?_, ?_⟩
  · rw [execute] at hexec ⊢
    simp only [List.foldlM_append, List.foldlM_cons, List.foldlM_nil, hexec, hreplay, hrun,
      Option.bind_eq_bind, Option.bind_some, Option.pure_def]
  · rw [Machine.store, ← hstep, hemitted, hm.emitted, List.range_succ, List.map_append]
    rfl
  · intro j hj
    obtain rfl : c = j := by omega
    rfl
  · intro s j hsave
    by_cases hs : step.save = some s
    · rw [lastSave_append_save _ hs, Option.some_inj] at hsave
      rw [Machine.store, hs, ← hsave, ← hstep]
      exact Function.update_self ..
    · rw [lastSave_append_of_none (by simpa using hs), lastSave_replay] at hsave
      rw [← hm.saved s j hsave, ← hslots, Machine.store]
      cases hsaved : step.save with
      | none => rfl
      | some t =>
        refine Function.update_of_ne ?_ _ _
        rintro rfl
        exact hs hsaved

lemma saveSlot_free {children : ℕ → ℤ} {free : Fin kBranchSlots → Bool} {s : Fin kBranchSlots}
    (h : saveSlot children free c = some s) : free s = true := by
  unfold saveSlot at h
  split at h
  · exact List.find?_some h
  · cases h

/-- A column with children to come keeps its slot when column `c` starts. -/
lemma Compiler.Valid.kept (hc : c < n) (hk : k.Valid n parent c) {j : ℕ} {s : Fin kBranchSlots}
    (hslot : k.slotOf j = some s) (hrem : 0 < remaining n parent (c + 1) j) :
    releaseSlot parent (takeChild parent k.children c) k.slotOf k.free c s = false ∧
      lastSave k.steps s = some j := by
  have hrem' : 0 < remaining n parent c j := by
    rw [remaining_eq hc]
    omega
  obtain ⟨hfree, hsave⟩ := hk.held j s hslot hrem'
  refine ⟨?_, hsave⟩
  unfold releaseSlot
  split
  case isFalse => exact hfree
  case isTrue hrelease =>
    obtain ⟨hpar, hzero⟩ := hrelease
    obtain ⟨q, hq⟩ := Int.eq_ofNat_of_zero_le hpar
    rw [takeChild_eq hc hk.children, hq, Int.toNat_natCast] at hzero
    rw [hq, Int.toNat_natCast]
    cases hslotq : k.slotOf q with
    | none => exact hfree
    | some t =>
      -- The released slot was saved by `q`, which is not `j`: `j` has children to come.
      rw [Option.elim_some, Function.update_of_ne, hfree]
      rintro rfl
      have hsaveq := (hk.held q s hslotq (remaining_pos hc hq)).2
      rw [hsave, Option.some_inj] at hsaveq
      subst hsaveq
      omega

/-- The steps of column `c` are at most `c + 1`: a replay runs only to a column before the previous
one. -/
lemma length_resumeColumn (htree : ParentTree n parent) (hbound : n ≤ maxColumns) (hc : c < n)
    (slotOf : ℕ → Option (Fin kBranchSlots)) :
    (resumeColumn maxColumns parent slotOf c).2.length ≤ c := by
  rcases resumeColumn_cases htree hbound slotOf hc with
    ⟨-, hresume⟩ | ⟨q, -, -, -, ⟨-, hresume⟩ | ⟨s, -, hresume⟩ | ⟨hfar, hresume⟩⟩
  · simp [hresume]
  · simp [hresume]
  · simp [hresume]
  · have hlength := htree.length_upPath_le (by omega : q < n) (q + 1)
    have hsteps := congrArg List.length (map_column_replaySteps (rootPath parent q))
    rw [List.length_map] at hsteps
    rw [hresume, hsteps, rootPath, List.length_reverse]
    omega

lemma column_lt_of_mem_resumeColumn (htree : ParentTree n parent) (hbound : n ≤ maxColumns)
    (hc : c < n) {slotOf : ℕ → Option (Fin kBranchSlots)} {step : Step}
    (h : step ∈ (resumeColumn maxColumns parent slotOf c).2) : step.column < c := by
  rcases resumeColumn_cases htree hbound slotOf hc with
    ⟨-, hresume⟩ | ⟨q, -, -, hlt, ⟨-, hresume⟩ | ⟨s, -, hresume⟩ | ⟨hfar, hresume⟩⟩
  · simp [hresume] at h
  · simp [hresume] at h
  · simp [hresume] at h
  · rw [hresume] at h
    have hmem := List.mem_map_of_mem (f := Step.column) h
    rw [map_column_replaySteps] at hmem
    have := htree.le_of_mem_rootPath (by omega : q < n) _ hmem
    omega

/-- The slot that the step of column `c` reads was saved by its parent. -/
lemma Compiler.Valid.slot_read (htree : ParentTree n parent) (hbound : n ≤ maxColumns) (hc : c < n)
    (hk : k.Valid n parent c) {s : Fin kBranchSlots}
    (h : (resumeColumn maxColumns parent k.slotOf c).1 = .slot s) :
    ∃ j : ℕ, parent c = j ∧ lastSave k.steps s = some j := by
  rcases resumeColumn_cases htree hbound k.slotOf hc with
    ⟨-, hresume⟩ | ⟨q, -, hq, -, ⟨-, hresume⟩ | ⟨t, hslot, hresume⟩ | ⟨-, hresume⟩⟩
  · simp [hresume] at h
  · simp [hresume] at h
  · rw [hresume, Resume.slot.injEq] at h
    subst h
    exact ⟨q, hq, (hk.held q t hslot (remaining_pos hc hq)).2⟩
  · simp [hresume] at h

/-- Column `c` may take a slot that is free by then. -/
lemma Compiler.Valid.held_column (hc : c < n) (hk : k.Valid n parent c) (j : ℕ)
    (s : Fin kBranchSlots) (hslot : (k.column maxColumns parent c).slotOf j = some s)
    (hrem : 0 < remaining n parent (c + 1) j) :
    (k.column maxColumns parent c).free s = false ∧
      lastSave (k.column maxColumns parent c).steps s = some j := by
  simp only [Compiler.column] at hslot ⊢
  cases hsave : saveSlot (takeChild parent k.children c)
      (releaseSlot parent (takeChild parent k.children c) k.slotOf k.free c) c with
  | none =>
    rw [hsave] at hslot
    obtain ⟨hkept, hlast⟩ := hk.kept hc hslot hrem
    refine ⟨hkept, ?_⟩
    rw [lastSave_append_of_none (by simp), lastSave_replay, hlast]
  | some t =>
    rw [hsave, Option.elim_some, Function.update_apply] at hslot
    by_cases hj : j = c
    · rw [if_pos hj, Option.some_inj] at hslot
      subst hslot
      refine ⟨Function.update_self .., ?_⟩
      rw [hj]
      exact lastSave_append_save _ rfl
    · rw [if_neg hj] at hslot
      obtain ⟨hkept, hlast⟩ := hk.kept hc hslot hrem
      -- The taken slot is free, the slot of `j` is not.
      have hne : s ≠ t := by
        rintro rfl
        rw [saveSlot_free hsave] at hkept
        exact Bool.noConfusion hkept
      refine ⟨?_, ?_⟩
      · rw [Option.elim_some, Function.update_of_ne hne, hkept]
      · rw [lastSave_append_of_none (by simpa using hne.symm), lastSave_replay, hlast]

lemma Compiler.Valid.reads_column (htree : ParentTree n parent) (hbound : n ≤ maxColumns)
    (hc : c < n) (hk : k.Valid n parent c) (i : ℕ) (step : Step) (s : Fin kBranchSlots)
    (hi : (k.column maxColumns parent c).steps[i]? = some step) (hread : step.resume = .slot s) :
    ∃ j : ℕ, parent step.column = j ∧
      lastSave ((k.column maxColumns parent c).steps.take i) s = some j := by
  simp only [Compiler.column] at hi ⊢
  generalize hreplay : (resumeColumn maxColumns parent k.slotOf c).2 = replay at hi ⊢
  rcases Nat.lt_or_ge i (k.steps ++ replay).length with hlt | hge
  · rw [List.getElem?_append_left hlt] at hi
    rw [List.take_append_of_le_length (Nat.le_of_lt hlt)]
    rcases Nat.lt_or_ge i k.steps.length with hold | hnew
    · rw [List.getElem?_append_left hold] at hi
      rw [List.take_append_of_le_length (Nat.le_of_lt hold)]
      exact hk.reads i step s hi hread
    · -- Replay steps read no slot.
      rw [List.getElem?_append_right hnew] at hi
      have hmem := List.mem_of_getElem? hi
      rw [← hreplay] at hmem
      exact absurd hread ((save_of_mem_resumeColumn hmem).2 s)
  · rw [List.getElem?_append_right hge] at hi
    rw [List.getElem?_singleton] at hi
    split at hi
    case isFalse => cases hi
    case isTrue hzero =>
      rw [Option.some_inj] at hi
      subst hi
      obtain ⟨j, hj, hsave⟩ := hk.slot_read htree hbound hc hread
      have hlast : i = (k.steps ++ replay).length := by omega
      refine ⟨j, hj, ?_⟩
      rw [hlast, List.take_left, ← hreplay, lastSave_replay, hsave]

lemma Compiler.Valid.column (htree : ParentTree n parent) (hbound : n ≤ maxColumns) (hc : c < n)
    (hk : k.Valid n parent c) :
    (k.column maxColumns parent c).Valid n parent (c + 1) := by
  refine ⟨takeChild_eq hc hk.children, hk.held_column hc, hk.reads_column htree hbound hc, ?_, ?_⟩
  · intro step hstep
    simp only [Compiler.column, List.mem_append, List.mem_singleton] at hstep
    rcases hstep with (hstep | hstep) | rfl
    · have := hk.columns step hstep
      omega
    · have := column_lt_of_mem_resumeColumn htree hbound hc hstep
      omega
    · exact Nat.lt_succ_self c
  · have hreplay := length_resumeColumn htree hbound hc k.slotOf
    have hsteps := hk.length
    have hsquare : (c + 1) * (c + 1 + 1) = c * (c + 1) + 2 * (c + 1) := by ring
    simp only [Compiler.column, List.length_append, List.length_singleton]
    omega

/-- The run lemma: what compiler and machine hold after any number of columns. -/
lemma compiled (htree : ParentTree n parent) (hbound : n ≤ maxColumns) (hc : c ≤ n) :
    ∃ k : Compiler, ∃ m : Machine σ,
      (List.range c).foldl (Compiler.column maxColumns parent)
        { children := countChildren n parent } = k ∧
      k.Valid n parent c ∧ execute F checkpoint k.steps = some m ∧
      m.Follows F checkpoint parent c k.steps := by
  induction c with
  | zero =>
    refine ⟨_, {}, rfl, ⟨?_, ?_, ?_, ?_, ?_⟩, rfl, rfl, ?_, ?_⟩
    · exact countChildren_eq htree
    · intro j s hslot
      cases hslot
    · intro i step s hi
      simp at hi
    · intro step hstep
      cases hstep
    · simp
    · intro j hj
      omega
    · intro s j hsave
      cases hsave
  | succ c ih =>
    obtain ⟨k, m, hfold, hk, hexec, hm⟩ := ih (by omega)
    obtain ⟨m', hexec', hm'⟩ := hm.column htree hbound (by omega) hk hexec
    refine ⟨_, m', ?_, hk.column htree hbound (by omega), hexec', hm'⟩
    rw [List.range_succ, List.foldl_append, hfold]
    rfl

end Execution

/-! ## The schedule of a tree -/

variable {maxColumns n : ℕ} {parent : ℕ → ℤ}

/-- What the kernel writes for a row is what the executing kernel reads. -/
lemma executeSchedule_treeScheduleKernel (F : ℕ → σ → σ) (checkpoint : σ) {valid : Option ℤ}
    {width : ℕ} (hn : rowColumns valid width = n)
    (hcolumns : ∀ step ∈ treeSchedule maxColumns parent n, step.column < 256) :
    executeSchedule F checkpoint (treeScheduleKernel maxColumns parent valid width) =
      execute F checkpoint (treeSchedule maxColumns parent n) := by
  rw [executeSchedule, treeScheduleKernel, hn]
  simp only [List.tail_cons]
  rw [List.take_of_length_le (by simp), List.map_map]
  congr 1
  conv_rhs => rw [← List.map_id (treeSchedule maxColumns parent n)]
  apply List.map_congr_left
  intro step hstep
  exact Step.ofWord_word (hcolumns step hstep)

/-- For a tree on `n` columns within the bound and for any state and transition, the compiled steps
run without reading a slot that was not written.  They emit every column once, in column order, from
the state that the transitions along its root path lead to.  A slot is only read for a child of the
column that saved to it last.  There are at most `n (n + 1) / 2` steps, so that the schedule of a
tree with at most `kGdnTreeMaxColumns` columns fits its buffer; the kernel's words say the same as
the steps as long as a column fits its byte. -/
theorem tree_schedule_correct (maxColumns n : ℕ) (parent : ℕ → ℤ) (hbound : n ≤ maxColumns)
    (htree : ParentTree n parent) (F : ℕ → σ → σ) (checkpoint : σ) :
    (∃ m, execute F checkpoint (treeSchedule maxColumns parent n) = some m ∧
      m.emitted = (List.range n).map fun c => (c, along F (rootPath parent c) checkpoint)) ∧
    (∀ (i : ℕ) step s, (treeSchedule maxColumns parent n)[i]? = some step →
      step.resume = .slot s → ∃ j : ℕ, parent step.column = j ∧
        lastSave ((treeSchedule maxColumns parent n).take i) s = some j) ∧
    (treeSchedule maxColumns parent n).length ≤ n * (n + 1) / 2 ∧
    ∀ valid width, rowColumns valid width = n →
      (n ≤ 256 → executeSchedule F checkpoint (treeScheduleKernel maxColumns parent valid width) =
        execute F checkpoint (treeSchedule maxColumns parent n)) ∧
      (n ≤ kGdnTreeMaxColumns →
        (treeScheduleKernel maxColumns parent valid width).length ≤ kGdnTreeScheduleWords) := by
  obtain ⟨k, m, hfold, hk, hexec, hm⟩ :=
    compiled (F := F) (c := n) htree hbound (Nat.le_refl n)
  have hsteps : treeSchedule maxColumns parent n = k.steps := by rw [treeSchedule, hfold]
  have hlength : k.steps.length ≤ n * (n + 1) / 2 := by
    have := hk.length
    omega
  rw [hsteps]
  refine ⟨⟨m, hexec, hm.emitted⟩, hk.reads, hlength, ?_⟩
  intro valid width hrow
  refine ⟨?_, ?_⟩
  · intro h256
    rw [executeSchedule_treeScheduleKernel F checkpoint hrow, hsteps]
    intro step hstep
    rw [hsteps] at hstep
    exact Nat.lt_of_lt_of_le (hk.columns step hstep) h256
  · intro h16
    have hsquare : n * (n + 1) ≤ kGdnTreeMaxColumns * (kGdnTreeMaxColumns + 1) :=
      Nat.mul_le_mul h16 (Nat.succ_le_succ h16)
    rw [treeScheduleKernel, hrow, hsteps, List.length_cons, List.length_map, kGdnTreeScheduleWords]
    omega

/-- The parents of a root with four children, of which three have two children each, in columns that
alternate between the branches. -/
def interleaved (c : ℕ) : ℤ := [-1, 0, 0, 0, 0, 1, 2, 3, 1, 2, 3].getD c (-1)

lemma interleaved_tree : ParentTree 11 interleaved := by
  have hprecedes : ∀ c < 11, 0 < c → 0 ≤ interleaved c ∧ interleaved c < c := by decide
  exact ⟨rfl, fun c hpos hc => hprecedes c hc hpos⟩

/-- The four columns with children compete for three slots. -/
theorem tree_schedule_correct_interleaved :
    ∃ m, execute (fun c path => path ++ [c]) [] (treeSchedule kGdnTreeMaxColumns interleaved 11) =
      some m ∧ m.emitted = (List.range 11).map fun c =>
        (c, along (fun c path => path ++ [c]) (rootPath interleaved c) []) :=
  (tree_schedule_correct kGdnTreeMaxColumns 11 interleaved (by decide) interleaved_tree
    (fun c path => path ++ [c]) ([] : List ℕ)).1

end NInfer.TreeSchedule
