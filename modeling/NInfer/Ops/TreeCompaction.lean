import NInfer.Foundation.Fallible
import NInfer.Foundation.InPlaceGather
import NInfer.Ops.TreeAcceptance
import NInfer.PagedKV.Pool

/-!
# Committing an accepted path

A tree round writes the KV slots and the pending features of all its columns.  Once the round is
resolved, the columns of the accepted path have to stand one after the other:
`gqa_kv_compact_path_kernel` copies slot `E + path[i]` of a row to slot `E + i`, and
`gather_bf16_path_kernel` does the same for the features of the row's lane.  Both work in place, one
block for each row.

A thread copies an element of slot after slot, and no two threads share one.  So a kernel is a run
of `InPlaceGather` over addresses, with a row of its own for each element, and its blocks and
threads may interleave in any order.  The path of a walk down the tree only goes forward.
-/

namespace NInfer.SpeculativeRound

open InPlaceGather PagedKV

/-! ## The host -/

/-- A tree row that waits for its resolution, and how the round is resolved for it. -/
structure PendingTree where
  baseE : ℕ
  produced : ℕ
  kvTableRow : ℕ
  lane : ℕ
  foldPath : List ℕ
  acceptedTokens : ℕ
  cancelled : Bool
  rejected : Bool
  terminal : Bool

def PendingTree.committed (row : PendingTree) : ℕ :=
  if row.cancelled ∨ row.rejected then 0 else row.acceptedTokens

/-- The check of a row's committed prefix in `resolve_pending_batch`. -/
def PendingTree.resolve (row : PendingTree) : Except String ℕ := do
  refuseIf ((row.cancelled ∧ row.acceptedTokens ≠ 0) ∨
      (row.rejected ∧ (row.cancelled ∨ row.terminal ∨ row.acceptedTokens ≠ 0)) ∨
      (¬row.cancelled ∧ ¬row.rejected ∧ (row.committed = 0 ∨ row.committed > row.produced)))
    "speculative pending row has an invalid committed prefix"
  pure row.committed

/-- The entries of `compact_counts`. -/
def PendingTree.compactCount (row : PendingTree) : ℕ :=
  if row.cancelled then 0 else row.acceptedTokens

variable {B : ℕ}

/-- `fold_path` of the frame, with `width` entries a row.  A round narrower than the frame leaves
`stale` entries behind those of its rows; the host reads a copy. -/
def foldPathPanel (width : ℕ) (rows : Fin B → PendingTree) (stale : ℕ → ℕ) (entry : ℕ) : ℕ :=
  if h : entry / width < B then (rows ⟨_, h⟩).foldPath.getD (entry % width) (stale entry)
  else stale entry

/-- The host's test whether every committed path is where it belongs. -/
def identityPath (width : ℕ) (rows : Fin B → PendingTree) (panel : ℕ → ℕ) : Prop :=
  ∀ r, (rows r).cancelled = true ∨ ∀ i < (rows r).acceptedTokens, panel (r * width + i) = i

instance (width : ℕ) (rows : Fin B → PendingTree) (panel : ℕ → ℕ) :
    Decidable (identityPath width rows panel) :=
  inferInstanceAs (Decidable (∀ _, _ ∨ _))

/-! ## The device -/

/-- `paged_kv_element_offset`. -/
def pagedKvElementOffset (leading heads page head off d : ℕ) : ℕ :=
  leading * kPagedKVPageSize * (head + heads * page) + leading * off + d

/-- Where `gqa_kv_compact_path_kernel` finds element `d` of `head` of position `baseE + j`, in a
plane of `leading` elements for each head. -/
def kvAddress (leading heads : ℕ) (blockTables : ℕ → ℕ → ℕ) (rows : Fin B → PendingTree)
    (r : Fin B) (j : ℕ) (e : Fin heads × Fin leading) : ℕ :=
  let position := (rows r).baseE + j
  pagedKvElementOffset leading heads
    (blockTables (rows r).kvTableRow (position / kPagedKVPageSize)) e.1
    (position % kPagedKVPageSize) e.2

/-- Where `gather_bf16_path_kernel` finds a vector of column `j`. -/
def featureAddress (vectors width : ℕ) (rows : Fin B → PendingTree) (r : Fin B) (j : ℕ)
    (v : Fin vectors) : ℕ :=
  ((rows r).lane * width + j) * vectors + v

/-- The copies of a kernel: a chain of them for each element of a row's columns. -/
def compactPlan {ε : Type} (width : ℕ) (rows : Fin B → PendingTree) (panel : ℕ → ℕ)
    (address : Fin B → ℕ → ε → ℕ) : Plan (Fin B × ε) ℕ where
  count r := (rows r.1).compactCount
  path r i := panel (r.1 * width + i)
  cell r j := address r.1 j r.2

/-- What the commit makes of a plane, in a run of its kernel. -/
def compact {ε α : Type} [DecidableEq ε] (width : ℕ) (rows : Fin B → PendingTree) (panel : ℕ → ℕ)
    (address : Fin B → ℕ → ε → ℕ) (schedule : List (Fin B × ε)) (plane : ℕ → α) : ℕ → α :=
  if identityPath width rows panel then plane
  else (run (compactPlan width rows panel address) schedule plane).memory

/-! ## Paths only go forward -/

lemma treeWalk_onPath {parentIndex verifyIds : ℕ → ℤ} {valid : ℕ} (sample : ℕ → List ℤ → ℤ)
    (rest : ℕ) {node : ℕ} {lic : List ℤ} {path : List ℕ}
    (h : OnPath parentIndex verifyIds valid node lic path) :
    let walk := treeWalk (treeChildForToken parentIndex verifyIds valid) sample rest node lic path
    OnPath parentIndex verifyIds valid walk.node walk.lic walk.path := by
  induction rest generalizing node lic path with
  | zero => exact h
  | succ rest ih =>
    rw [treeWalk]
    cases hchild : treeChildForToken parentIndex verifyIds valid node (sample node lic) with
    | none => exact h
    | some c =>
      obtain ⟨hlater, hinside, hparent, htoken⟩ := treeChildForToken_eq_some hchild
      have hbelow := h.child hlater hinside hparent
      rw [htoken] at hbelow
      exact ih hbelow

lemma OnPath.forward {parentIndex verifyIds : ℕ → ℤ} {valid node : ℕ} {lic : List ℤ}
    {path : List ℕ} (h : OnPath parentIndex verifyIds valid node lic path) (hvalid : 0 < valid) :
    ∀ i c, path[i]? = some c → i ≤ c ∧ c < valid := by
  induction h with
  | root =>
    intro i c hc
    obtain ⟨hi, rfl⟩ := List.getElem?_eq_some_iff.mp hc
    obtain rfl : i = 0 := Nat.lt_one_iff.mp hi
    exact ⟨Nat.le_refl _, hvalid⟩
  | @child node c lic path above later inside parent ih =>
    intro i c' hc'
    rcases Nat.lt_or_ge i path.length with hi | hi
    · rw [List.getElem?_append_left hi] at hc'
      exact ih i c' hc'
    · obtain ⟨hlt, hc'⟩ := List.getElem?_eq_some_iff.mp hc'
      rw [List.length_append, List.length_singleton] at hlt
      obtain rfl : i = path.length := by omega
      rw [List.getElem_concat_length rfl] at hc'
      have := above.length_le
      have := above.length_path
      omega

/-- The row holds the path of a tree round: the columns of a walk down the tree, committed by either
commit. -/
def PendingTree.Walked (row : PendingTree) (width : ℕ) : Prop :=
  ∃ (K : Type) (input : TreeInput K) (start : Row) (sample : ℕ → List ℤ → ℤ) (clamp : ℤ → ℤ)
    (count : List ℤ → Option (ℤ → ℕ)), 0 < input.width ∧ input.width ≤ width ∧
    let out := commitTree input.width start
      (treeWalk (treeChildForToken input.parentIndex input.verifyIds input.valid) sample
        input.extent 0 [] [0]) clamp count
    row.foldPath = out.foldPath ∧ row.produced = out.licensedCount

/-- The committed part of an accepted path. -/
lemma PendingTree.Walked.forward {row : PendingTree} {width : ℕ} (h : row.Walked width) {i : ℕ}
    (hi : i < row.produced) : ∃ c, row.foldPath[i]? = some c ∧ i ≤ c ∧ c < width := by
  obtain ⟨K, input, start, sample, clamp, count, hpos, hwidth, hpath, hproduced⟩ := h
  have honPath : OnPath input.parentIndex input.verifyIds input.valid _ _ _ :=
    treeWalk_onPath sample input.extent .root
  generalize treeWalk _ sample _ _ _ _ = walk at honPath hpath hproduced
  have hlength := honPath.length_path
  have hcount : row.produced = walk.lic.length + 1 := hproduced
  have hi' : i < walk.path.length := by omega
  obtain ⟨hle, hlt⟩ := honPath.forward (input.valid_pos hpos) i _ (List.getElem?_eq_getElem hi')
  refine ⟨walk.path[i], ?_, hle, by have := input.valid_le hpos; omega⟩
  rw [hpath, commitTree, List.getElem?_append_left hi', List.getElem?_eq_getElem hi']

/-- What a resolved row commits. -/
lemma PendingTree.of_resolve {row : PendingTree} {committed : ℕ}
    (h : row.resolve = .ok committed) :
    row.compactCount = committed ∧ committed ≤ row.produced ∧
      (row.cancelled = true ∨ row.rejected = true → committed = 0) := by
  rw [resolve, refuseIf_bind_iff] at h
  obtain ⟨hvalid, hcommitted⟩ := h
  obtain rfl := ok_pure_iff.mp hcommitted
  unfold PendingTree.committed at hvalid ⊢
  unfold compactCount
  by_cases hcancelled : row.cancelled = true
  · simp [hcancelled]
  · by_cases hrejected : row.rejected = true
    · simp_all
    · simp_all

/-! ## Addresses are apart -/

lemma mul_add_inj {n x y a b : ℕ} (ha : a < n) (hb : b < n) (h : n * x + a = n * y + b) :
    x = y ∧ a = b := by
  have hx := congrArg (· / n) h
  have hmod := congrArg (· % n) h
  simp only [Nat.mul_add_div (by omega : n > 0), Nat.div_eq_of_lt ha, Nat.div_eq_of_lt hb,
    Nat.mul_add_mod, Nat.mod_eq_of_lt ha, Nat.mod_eq_of_lt hb] at hx hmod
  omega

lemma pagedKvElementOffset_inj {leading heads page page' head head' off off' d d' : ℕ}
    (hhead : head < heads) (hhead' : head' < heads) (hoff : off < kPagedKVPageSize)
    (hoff' : off' < kPagedKVPageSize) (hd : d < leading) (hd' : d' < leading)
    (h : pagedKvElementOffset leading heads page head off d
      = pagedKvElementOffset leading heads page' head' off' d') :
    page = page' ∧ head = head' ∧ off = off' ∧ d = d' := by
  have hsplit : ∀ page head off d, pagedKvElementOffset leading heads page head off d
      = leading * (kPagedKVPageSize * (heads * page + head) + off) + d := by
    intro page head off d
    unfold pagedKvElementOffset
    ring
  rw [hsplit, hsplit] at h
  obtain ⟨hslot, rfl⟩ := mul_add_inj hd hd' h
  obtain ⟨hpage, rfl⟩ := mul_add_inj hoff hoff' hslot
  obtain ⟨rfl, rfl⟩ := mul_add_inj hhead hhead' hpage
  exact ⟨rfl, rfl, rfl, rfl⟩

section Commit

variable {ε α : Type} {width : ℕ} {rows : Fin B → PendingTree} {stale : ℕ → ℕ}
  {committed : Fin B → ℕ}

/-- The first `committed` columns of every row hold what the columns of its path held, and nothing
else has changed. -/
structure Gathered (rows : Fin B → PendingTree) (committed : Fin B → ℕ)
    (address : Fin B → ℕ → ε → ℕ) (plane plane' : ℕ → α) : Prop where
  moved : ∀ r i, i < committed r → ∃ c, (rows r).foldPath[i]? = some c ∧
    ∀ e, plane' (address r i e) = plane (address r c e)
  frame : ∀ a, (∀ r i e, i < committed r → a ≠ address r i e) → plane' a = plane a

variable (stale) in
/-- Both sides read the path of a row in its part of the panel. -/
lemma foldPathPanel_eq (hwalked : ∀ r, (rows r).Walked width)
    (hresolved : ∀ r, (rows r).resolve = .ok (committed r)) {r : Fin B} {i : ℕ}
    (hi : i < committed r) :
    ∃ c, (rows r).foldPath[i]? = some c ∧ foldPathPanel width rows stale (r * width + i) = c ∧
      i ≤ c ∧ c < width := by
  obtain ⟨-, hproduced, -⟩ := PendingTree.of_resolve (hresolved r)
  obtain ⟨c, hc, hle, hlt⟩ := (hwalked r).forward (hi.trans_le hproduced)
  have hrow : (r * width + i) / width = r := by
    rw [mul_comm, Nat.mul_add_div (by omega), Nat.div_eq_of_lt (by omega), Nat.add_zero]
  have hcolumn : (r * width + i) % width = i := by
    rw [mul_comm, Nat.mul_add_mod, Nat.mod_eq_of_lt (by omega)]
  refine ⟨c, hc, ?_, hle, hlt⟩
  have hsame : (⟨(r * width + i) / width, by rw [hrow]; exact r.isLt⟩ : Fin B) = r := Fin.ext hrow
  rw [foldPathPanel, dif_pos (by rw [hrow]; exact r.isLt), hsame, hcolumn,
    List.getD_eq_getElem?_getD, hc, Option.getD_some]

variable [DecidableEq ε]

/-- A kernel whose addresses are apart gathers the paths, whatever order its copies are in. -/
lemma gathered_run (hwalked : ∀ r, (rows r).Walked width)
    (hresolved : ∀ r, (rows r).resolve = .ok (committed r)) {address : Fin B → ℕ → ε → ℕ}
    (used : Fin B → ℕ → Prop)
    (hused : ∀ r i, i < committed r → used r i ∧
      used r (foldPathPanel width rows stale (r * width + i)))
    (hapart : ∀ r j e r' j' e', used r j → used r' j' → address r j e = address r' j' e' →
      r = r' ∧ j = j' ∧ e = e')
    {schedule : List (Fin B × ε)} {plane : ℕ → α}
    (hschedule : Complete (compactPlan width rows (foldPathPanel width rows stale) address)
      schedule) :
    Gathered rows committed address plane
      (run (compactPlan width rows (foldPathPanel width rows stale) address) schedule
        plane).memory := by
  have hcount : ∀ r, (rows r).compactCount = committed r := fun r =>
    (PendingTree.of_resolve (hresolved r)).1
  have hforward : (compactPlan width rows (foldPathPanel width rows stale) address).Forward := by
    have hin : ∀ r i, i < (rows r).compactCount →
        ∀ j ∈ [i, foldPathPanel width rows stale (r * width + i)], used r j := by
      intro r i hi j hj
      obtain ⟨hfront, hpath⟩ := hused r i (hcount r ▸ hi)
      rcases List.mem_pair.mp hj with rfl | rfl
      · exact hfront
      · exact hpath
    refine ⟨fun r i (hi : i < (rows r.1).compactCount) => ?_,
      fun r i r' i' hi hi' j hj j' hj' heq => ?_⟩
    · rw [hcount] at hi
      obtain ⟨c, -, hc, hle, -⟩ := foldPathPanel_eq stale hwalked hresolved hi
      exact hle.trans_eq hc.symm
    · obtain ⟨hrow, hj, he⟩ := hapart _ _ _ _ _ _ (hin _ _ hi j hj) (hin _ _ hi' j' hj') heq
      exact ⟨Prod.ext hrow he, hj⟩
  have hreached := reached_run hforward schedule plane
  have htaken : ∀ r, (run (compactPlan width rows (foldPathPanel width rows stale) address) schedule
      plane).taken r = committed r.1 := by
    intro r
    rw [run_taken, Nat.min_eq_left (hschedule r)]
    exact hcount r.1
  refine ⟨fun r i hi => ?_, fun a ha => hreached.frame a fun r i hi => ?_⟩
  · obtain ⟨c, hc, hpanel, -⟩ := foldPathPanel_eq stale hwalked hresolved hi
    refine ⟨c, hc, fun e => ?_⟩
    exact (hreached.moved (r, e) i (by rw [htaken]; exact hi)).trans
      (congrArg (fun c => plane (address r c e)) hpanel)
  · exact ha r.1 i r.2 (htaken r ▸ hi)

/-- A test that lets the copies be left out is passed only if they would do nothing. -/
lemma run_of_identityPath {panel : ℕ → ℕ} (h : identityPath width rows panel)
    (address : Fin B → ℕ → ε → ℕ) (schedule : List (Fin B × ε)) (plane : ℕ → α) :
    (run (compactPlan width rows panel address) schedule plane).memory = plane := by
  refine run_identity (fun r i hi => ?_) schedule plane
  simp only [compactPlan, PendingTree.compactCount] at hi ⊢
  split_ifs at hi with hcancelled
  · exact absurd hi (Nat.not_lt_zero _)
  · exact (h r.1).resolve_left hcancelled i hi

lemma compact_eq (panel : ℕ → ℕ) (address : Fin B → ℕ → ε → ℕ) (schedule : List (Fin B × ε))
    (plane : ℕ → α) : compact width rows panel address schedule plane
      = (run (compactPlan width rows panel address) schedule plane).memory := by
  unfold compact
  split_ifs with h
  · exact (run_of_identityPath h address schedule plane).symm
  · rfl

end Commit

/-- The commit of a batch of tree rows.  In every plane of the KV cache, slot `baseE + i` of a row
holds what slot `baseE + path[i]` held, for every committed `i`, and the features of its lane are
gathered the same way; nothing else changes, and nothing at all for a row that is cancelled or
retried.  Leaving the copies out where every path is the identity makes no difference.  Row `r` has
mapped `pages r` pages; what its block table holds after them does not matter. -/
theorem tree_commit_gathers {α β : Type} {width : ℕ} {rows : Fin B → PendingTree}
    {committed pages : Fin B → ℕ} (blockTables : ℕ → ℕ → ℕ) (stale : ℕ → ℕ)
    (hwalked : ∀ r, (rows r).Walked width)
    (hresolved : ∀ r, (rows r).resolve = .ok (committed r))
    (hpages : ∀ r l r' l', l < pages r → l' < pages r' →
      blockTables (rows r).kvTableRow l = blockTables (rows r').kvTableRow l' → r = r' ∧ l = l')
    (hslots : ∀ r i c, i < committed r → (rows r).foldPath[i]? = some c →
      (rows r).baseE + c < pages r * kPagedKVPageSize)
    (hlanes : Function.Injective fun r => (rows r).lane) :
    let panel := foldPathPanel width rows stale
    (∀ (leading heads : ℕ) (schedule : List (Fin B × (Fin heads × Fin leading))) (plane : ℕ → α),
      let address := kvAddress leading heads blockTables rows
      Complete (compactPlan width rows panel address) schedule →
        Gathered rows committed address plane
          (compact width rows panel address schedule plane)) ∧
      (∀ (vectors : ℕ) (schedule : List (Fin B × Fin vectors)) (features : ℕ → β),
        let address := featureAddress vectors width rows
        Complete (compactPlan width rows panel address) schedule →
          Gathered rows committed address features
            (compact width rows panel address schedule features)) ∧
      (∀ r, (rows r).cancelled = true ∨ (rows r).rejected = true → committed r = 0) ∧
      (identityPath width rows panel →
        ∀ (ε : Type) [DecidableEq ε] (address : Fin B → ℕ → ε → ℕ) schedule (plane : ℕ → α),
          (run (compactPlan width rows panel address) schedule plane).memory = plane) := by
  intro panel
  refine ⟨?_, ?_, fun r => (PendingTree.of_resolve (hresolved r)).2.2,
    fun h _ _ address schedule plane => run_of_identityPath h address schedule plane⟩
  · intro leading heads schedule plane address hschedule
    rw [compact_eq]
    refine gathered_run hwalked hresolved
      (fun r j => (rows r).baseE + j < pages r * kPagedKVPageSize) (fun r i hi => ?_)
      (fun r j e r' j' e' hj hj' heq => ?_) hschedule
    · obtain ⟨c, hc, hpanel, hle, -⟩ := foldPathPanel_eq stale hwalked hresolved hi
      have := hslots r i c hi hc
      rw [hpanel]
      omega
    · have hpos : 0 < kPagedKVPageSize := by decide
      obtain ⟨hpage, hhead, hoff, hd⟩ := pagedKvElementOffset_inj e.1.isLt e'.1.isLt
        (Nat.mod_lt _ hpos) (Nat.mod_lt _ hpos) e.2.isLt e'.2.isLt heq
      obtain ⟨rfl, hlogical⟩ := hpages _ _ _ _ ((Nat.div_lt_iff_lt_mul hpos).mpr hj)
        ((Nat.div_lt_iff_lt_mul hpos).mpr hj') hpage
      have hposition := Nat.div_add_mod ((rows r).baseE + j) kPagedKVPageSize
      rw [hlogical, hoff, Nat.div_add_mod] at hposition
      exact ⟨rfl, by omega, Prod.ext (Fin.ext hhead) (Fin.ext hd)⟩
  · intro vectors schedule features address hschedule
    rw [compact_eq]
    refine gathered_run hwalked hresolved (fun _ j => j < width) (fun r i hi => ?_)
      (fun r j v r' j' v' hj hj' heq => ?_) hschedule
    · obtain ⟨c, -, hpanel, hle, hlt⟩ := foldPathPanel_eq stale hwalked hresolved hi
      rw [hpanel]
      omega
    · have haddress : ∀ r j (v : Fin vectors),
          address r j v = vectors * ((rows r).lane * width + j) + v := fun r j v => by
        rw [mul_comm]
        rfl
      rw [haddress, haddress] at heq
      obtain ⟨hcolumn, hvector⟩ := mul_add_inj v.isLt v'.isLt heq
      rw [mul_comm, mul_comm _ width] at hcolumn
      obtain ⟨hlane, hj⟩ := mul_add_inj hj hj' hcolumn
      exact ⟨hlanes hlane, hj, Fin.ext hvector⟩

/-- The root has two children, and the target's token is that of the second. -/
def secondChild : TreeInput Unit where
  width := 3
  verifyIds c := c + 6
  parentIndex c := if c = 0 then -1 else 0
  validColumns := 3
  currentExtent := 2
  targetTokens _ := 8
  logits _ _ := ()
  allowed _ := none

/-- Two rows of it, of different lengths; the slots of each cross the end of a page. -/
def secondChildRow (r : Fin 2) : PendingTree :=
  ⟨63 + 64 * r, 2, r, r, [0, 2, 0], 2, false, false, false⟩

theorem tree_commit_gathers_second_child :
    let table := fun row l => if l < row + 2 then 3 * row + l + 5 else 0
    let panel := foldPathPanel 3 secondChildRow fun _ => 0
    let address := kvAddress 1 1 table secondChildRow
    let plane := compact 3 secondChildRow panel address [(1, 0, 0), (0, 0, 0), (0, 0, 0), (1, 0, 0)]
      id
    address 0 1 (0, 0) = 384 ∧ plane 384 = 385 ∧ address 1 1 (0, 0) = 640 ∧ plane 640 = 641 := by
  intro table panel address plane
  have hwalked : ∀ r, (secondChildRow r).Walked 3 := fun _ =>
    ⟨Unit, secondChild, ⟨64, 6, none⟩, fun node _ => secondChild.targetTokens node, id,
      fun _ => none, by decide, by decide, rfl, rfl⟩
  have hpages : ∀ (r : Fin 2) l (r' : Fin 2) l', l < r.val + 2 → l' < r'.val + 2 →
      table r l = table r' l' → r = r' ∧ l = l' := by
    intro r l r' l' hl hl' heq
    simp only [table, if_pos hl, if_pos hl'] at heq
    omega
  have hslots : ∀ (r : Fin 2) i c, i < 2 → (secondChildRow r).foldPath[i]? = some c →
      (secondChildRow r).baseE + c < (r.val + 2) * kPagedKVPageSize := by
    intro r i c hi hc
    obtain ⟨c', hc', -, hlt⟩ := (hwalked r).forward hi
    obtain rfl := Option.some.inj (hc.symm.trans hc')
    change 63 + 64 * r.val + c < (r.val + 2) * 64
    omega
  have hgathered := (tree_commit_gathers (α := ℕ) (β := ℕ) table (fun _ => 0) hwalked
    (fun _ => rfl) hpages hslots (fun _ _ h => Fin.ext h)).1 1 1
    [(1, 0, 0), (0, 0, 0), (0, 0, 0), (1, 0, 0)] id (by unfold InPlaceGather.Complete; decide)
  have hmoved : ∀ r, plane (address r 1 (0, 0)) = address r 2 (0, 0) := by
    intro r
    obtain ⟨c, hc, hmoved⟩ := hgathered.moved r 1 Nat.one_lt_two
    obtain rfl : 2 = c := Option.some.inj hc
    exact hmoved (0, 0)
  exact ⟨rfl, hmoved 0, rfl, hmoved 1⟩

end NInfer.SpeculativeRound
