import NInfer.Ops.ChainAcceptance
import NInfer.Ops.Truncation

/-!
# Acceptance of a drafted tree

A round may verify a tree of drafts (`speculative_accept_tree_drafts`).  Column 0 is the anchor, and
every other column holds a drafted token that follows the tokens on the way from the anchor to it.
The round walks down from column 0: it takes the target's token at the column, goes to the first
child with that token, and stops at the extent or where no child has it.  The last token is
committed too.

The tokens on the way are counted for the penalties only when the round ends.  Until then each
column is sampled with an overlay, which one route takes from the walk and the other from the tree.

`tree_drafts_never_change_output` is about whole runs: whatever the trees were, the committed tokens
are those that the target would give one at a time.
-/

namespace NInfer.SpeculativeRound

open Sampling Autoregressive

def kSamplerMaxColumns : ℕ := 16

def kSamplerTileItems : ℕ := 256

def kSamplerPartialTileItems : ℕ := 512

def kSamplerPartialsPerGroup : ℕ := 25

def kSamplerGroupTileItems : ℕ := 512

/-- `sampler_multiblock_ok`, with the block counts that its callers pass. -/
def samplerMultiblockOk (vocab cols : ℕ) : Bool :=
  let partialBlocks := (vocab + kSamplerPartialTileItems - 1) / kSamplerPartialTileItems
  let groupCount := (partialBlocks + kSamplerPartialsPerGroup - 1) / kSamplerPartialsPerGroup
  decide (vocab > kSamplerTileItems) && decide (cols > 0) && decide (cols ≤ kSamplerMaxColumns) &&
    decide (partialBlocks > 0) && decide (groupCount > 0) &&
    decide (groupCount * kSamplerCandidateCap ≤ kSamplerGroupTileItems)

/-! ## The walk -/

/-- `speculative_tree_child_for_token`. -/
def treeChildForToken (parentIndex verifyIds : ℕ → ℤ) (valid node : ℕ) (token : ℤ) : Option ℕ :=
  (List.range' (node + 1) (valid - (node + 1))).find? fun c =>
    parentIndex c = node ∧ verifyIds c = token

/-- The nodes from `cur` up to the root, which is left out. -/
def pathStack (parentIndex : ℕ → ℤ) : ℕ → ℤ → List ℕ
  | 0, _ => []
  | fuel + 1, cur =>
    if cur > 0 then cur.toNat :: pathStack parentIndex fuel (parentIndex cur.toNat) else []

/-- `speculative_tree_path_overlay`. -/
def treePathOverlay (verifyIds parentIndex : ℕ → ℤ) (node : ℕ) : List ℤ :=
  (pathStack parentIndex kSamplerMaxColumns node).reverse.map verifyIds

/-- Where a walk ended: the tokens and columns on the way, the last column and its token. -/
structure TreeWalk where
  lic : List ℤ
  path : List ℕ
  node : ℕ
  tstar : ℤ

/-- The walk of a row, of which `rest` steps may still go to a child. -/
def treeWalk (child : ℕ → ℤ → Option ℕ) (sample : ℕ → List ℤ → ℤ) :
    ℕ → ℕ → List ℤ → List ℕ → TreeWalk
  | 0, node, lic, path => ⟨lic, path, node, sample node lic⟩
  | rest + 1, node, lic, path =>
    match child node (sample node lic) with
    | none => ⟨lic, path, node, sample node lic⟩
    | some c => treeWalk child sample rest c (lic ++ [sample node lic]) (path ++ [c])

/-! ## The round -/

/-- What a row keeps between rounds. -/
structure Row where
  length : ℕ
  anchor : ℤ
  tokenCounts : Option (ℤ → ℕ)

/-- A row's part of the tensors that a round reads. -/
structure TreeInput (K : Type) where
  width : ℕ
  verifyIds : ℕ → ℤ
  parentIndex : ℕ → ℤ
  validColumns : ℤ
  currentExtent : ℤ
  targetTokens : ℕ → ℤ
  logits : ℕ → ℤ → K
  allowed : ℕ → Option (ℤ → Bool)

/-- A row's part of the tensors that a round writes. -/
structure TreeCommitted extends Row where
  licensedTokens : List ℤ
  foldPath : List ℕ
  licensedCount : ℕ
  accepted : ℕ
  acceptedColumn : ℕ

/-- The tokens that a round commits. -/
def TreeCommitted.licensed (out : TreeCommitted) : List ℤ :=
  out.licensedTokens.take out.licensedCount

/-- The columns that a round commits. -/
def TreeCommitted.path (out : TreeCommitted) : List ℕ := out.foldPath.take out.licensedCount

/-- What both commits write. -/
def commitTree (width : ℕ) (row : Row) (walk : TreeWalk) (clamp : ℤ → ℤ)
    (count : List ℤ → Option (ℤ → ℕ)) : TreeCommitted :=
  let a := walk.lic.length
  let produced := a + 1
  let licensed := (walk.lic ++ [walk.tstar]).map clamp
  { length := row.length + produced
    anchor := clamp walk.tstar
    tokenCounts := count licensed
    licensedTokens := licensed ++ List.replicate (width - produced) 0
    foldPath := walk.path ++ List.replicate (width - produced) 0
    licensedCount := produced
    accepted := a
    acceptedColumn := walk.node }

/-- `speculative_tree_greedy_commit`, after its walk. -/
def treeGreedyCommit (width : ℕ) (row : Row) (walk : TreeWalk) : TreeCommitted :=
  commitTree width row walk id fun _ => row.tokenCounts

/-- `speculative_tree_sampling_commit`. -/
def treeSamplingCommit (vocab width : ℕ) (row : Row) (walk : TreeWalk) : TreeCommitted :=
  commitTree width row walk (fun token => clampToken token 0 vocab) fun licensed =>
    licensed.foldl (countToken vocab) row.tokenCounts

section Round

variable {K : Type}

def TreeInput.valid (input : TreeInput K) : ℕ :=
  if input.validColumns < 1 then 1 else min input.validColumns.toNat input.width

def TreeInput.extent (input : TreeInput K) : ℕ := clampExtent input.currentExtent (input.width - 1)

/-- The uncounted tokens that the penalties see at column `node` when the walk has come to it with
the tokens `lic`. -/
def TreeInput.overlay (input : TreeInput K) (vocab node : ℕ) (lic : List ℤ) : List ℤ :=
  if samplerMultiblockOk vocab input.width then
    treePathOverlay input.verifyIds input.parentIndex node
  else lic

variable [Field K] [LinearOrder K]

/-- The token that the sampling walk takes at a column. -/
def sampleColumn (exp : K → K) (config : SamplingConfig K) (vocab : ℕ) (u : Key → K) (row : Row)
    (input : TreeInput K) (node : ℕ) (lic : List ℤ) : ℤ :=
  pickFromSupport
    (truncatedLaw exp config vocab (input.allowed node) row.tokenCounts
      (input.overlay vocab node lic) (input.logits node))
    (-1) (u (positionKey .speculativeAccept row.length lic.length))

/-- `speculative_accept_tree_drafts` for a row that is not p-less. -/
def treeRound (exp : K → K) (config : SamplingConfig K) (vocab : ℕ) (u : Key → K) (row : Row)
    (input : TreeInput K) : TreeCommitted :=
  let child := treeChildForToken input.parentIndex input.verifyIds input.valid
  if config.temperature > 0 then
    treeSamplingCommit vocab input.width row
      (treeWalk child (sampleColumn exp config vocab u row input) input.extent 0 [] [0])
  else
    treeGreedyCommit input.width row
      (treeWalk child (fun node _ => input.targetTokens node) input.extent 0 [] [0])

end Round

/-! ## Runs of rounds -/

/-- What the target gives after each sequence of committed tokens. -/
structure Target (K : Type) where
  argmax : List ℤ → ℤ
  logits : List ℤ → ℤ → K
  allowed : List ℤ → Option (ℤ → Bool)

/-- The counts of a row that started with `counts` and has committed `generated`. -/
def countsAfter (counts : Option (ℤ → ℕ)) (generated : List ℤ) : Option (ℤ → ℕ) :=
  counts.map fun counts t => counts t + generated.count t

section Rounds

variable {K : Type}

/-- A round of a run: the row and the tokens committed before it, its input and its output. -/
structure Round (K : Type) where
  row : Row
  generated : List ℤ
  input : TreeInput K
  out : TreeCommitted

/-- The tokens that the rounds of a run have committed. -/
def generatedBy (rounds : List (Round K)) : List ℤ := rounds.flatMap fun r => r.out.licensed

/-- How many they are. -/
def producedBy (rounds : List (Round K)) : ℕ := (rounds.map fun r => r.out.licensedCount).sum

lemma generatedBy_concat (rounds : List (Round K)) (r : Round K) :
    generatedBy (rounds ++ [r]) = generatedBy rounds ++ r.out.licensed := by
  simp [generatedBy]

lemma producedBy_concat (rounds : List (Round K)) (r : Round K) :
    producedBy (rounds ++ [r]) = producedBy rounds + r.out.licensedCount := by
  simp [producedBy]

end Rounds

section Runs

variable {K : Type} [Field K] [LinearOrder K]

/-- The target's next token, for a row that started with `counts`. -/
def Target.next (target : Target K) (exp : K → K) (config : SamplingConfig K) (vocab : ℕ)
    (counts : Option (ℤ → ℕ)) (generated : List ℤ) (u : K) : ℤ :=
  if config.temperature > 0 then
    pickFromSupport
      (truncatedLaw exp config vocab (target.allowed generated) (countsAfter counts generated) []
        (target.logits generated))
      (-1) u
  else target.argmax generated

/-- The tokens on the way from the root to a column. -/
def TreeInput.rootTokens (input : TreeInput K) (c : ℕ) : List ℤ :=
  (pathStack input.parentIndex c c).reverse.map input.verifyIds

/-- Every valid column holds the target's data for the committed tokens and the column's path. -/
structure TreeInput.Holds (input : TreeInput K) (config : SamplingConfig K) (target : Target K)
    (generated : List ℤ) : Prop where
  greedy : ¬ config.temperature > 0 → ∀ c < input.valid,
    input.targetTokens c = target.argmax (generated ++ input.rootTokens c)
  sampling : config.temperature > 0 → ∀ c < input.valid,
    input.logits c = target.logits (generated ++ input.rootTokens c) ∧
      input.allowed c = target.allowed (generated ++ input.rootTokens c)

/-- Runs of tree rounds from the row `start`, with any trees, valid counts and extents. -/
inductive TreeRun (exp : K → K) (config : SamplingConfig K) (vocab : ℕ) (u : Key → K)
    (target : Target K) (start : Row) : List (Round K) → Row → Prop
  | start : TreeRun exp config vocab u target start [] start
  | round {rounds : List (Round K)} {row : Row} (input : TreeInput K)
      (run : TreeRun exp config vocab u target start rounds row)
      (width : 2 ≤ input.width ∧ input.width ≤ kSamplerMaxColumns)
      (holds : input.Holds config target (generatedBy rounds)) :
      TreeRun exp config vocab u target start
        (rounds ++ [⟨row, generatedBy rounds, input, treeRound exp config vocab u row input⟩])
        (treeRound exp config vocab u row input).toRow

end Runs

/-! ## Paths of the tree -/

/-- The walk can be at column `node`, with the tokens `lic` and the columns `path` behind it. -/
inductive OnPath (parentIndex verifyIds : ℕ → ℤ) (valid : ℕ) : ℕ → List ℤ → List ℕ → Prop
  | root : OnPath parentIndex verifyIds valid 0 [] [0]
  | child {node c : ℕ} {lic : List ℤ} {path : List ℕ}
      (above : OnPath parentIndex verifyIds valid node lic path) (later : node < c)
      (inside : c < valid) (parent : parentIndex c = node) :
      OnPath parentIndex verifyIds valid c (lic ++ [verifyIds c]) (path ++ [c])

namespace OnPath

variable {parentIndex verifyIds : ℕ → ℤ} {valid node : ℕ} {lic : List ℤ} {path : List ℕ}

section

variable (h : OnPath parentIndex verifyIds valid node lic path)

include h

lemma length_le : lic.length ≤ node := by
  induction h with
  | root => exact Nat.le_refl 0
  | child above later inside parent ih =>
    rw [List.length_append, List.length_singleton]
    omega

lemma lt_valid (hvalid : 0 < valid) : node < valid := by
  cases h with
  | root => exact hvalid
  | child above later inside parent => exact inside

/-- A path is the root and the columns of its tokens. -/
lemma eq_cons : ∃ rest, path = 0 :: rest ∧ rest.map verifyIds = lic ∧
      ∀ fuel, lic.length ≤ fuel → pathStack parentIndex fuel node = rest.reverse := by
  induction h with
  | root =>
    refine ⟨[], rfl, rfl, fun fuel _ => ?_⟩
    match fuel with
    | 0 => rfl
    | fuel + 1 => rfl
  | @child node c lic path above later _ parent ih =>
    obtain ⟨rest, rfl, hids, hstack⟩ := ih
    refine ⟨rest ++ [c], rfl, by rw [List.map_append, hids, List.map_singleton], ?_⟩
    intro fuel hfuel
    rw [List.length_append, List.length_singleton] at hfuel
    obtain ⟨fuel, rfl⟩ : ∃ m, fuel = m + 1 := ⟨fuel - 1, by omega⟩
    rw [pathStack, if_pos (by omega), Int.toNat_natCast, parent, hstack fuel (by omega),
      List.reverse_append, List.reverse_singleton, List.singleton_append]

lemma getLast?_eq : path.getLast? = some node := by
  cases h with
  | root => rfl
  | child above later inside parent => exact List.getLast?_concat

lemma isChain : path.IsChain fun p c => p < c ∧ parentIndex c = p := by
  induction h with
  | root => exact List.isChain_singleton 0
  | child above later _ parent ih =>
    refine List.isChain_append.mpr ⟨ih, List.isChain_singleton _, ?_⟩
    intro p hp c hc
    rw [above.getLast?_eq, Option.mem_some_iff] at hp
    rw [List.head?_singleton, Option.mem_some_iff] at hc
    rw [← hp, ← hc]
    exact ⟨later, parent⟩

lemma length_path : path.length = lic.length + 1 := by
  obtain ⟨rest, rfl, rfl, -⟩ := h.eq_cons
  simp

/-- The overlay that is read from the tree is the one that the walk has collected. -/
lemma treePathOverlay_eq (hvalid : 0 < valid)
    (hmax : valid ≤ kSamplerMaxColumns) : treePathOverlay verifyIds parentIndex node = lic := by
  obtain ⟨rest, -, hids, hstack⟩ := h.eq_cons
  have hle := h.length_le
  have hlt := h.lt_valid hvalid
  rw [treePathOverlay, hstack _ (by omega), List.reverse_reverse, hids]

/-- Every prefix of a path is a path. -/
lemma take {i : ℕ} {n : ℕ} (hn : path[i]? = some n) :
    OnPath parentIndex verifyIds valid n (lic.take i) (path.take (i + 1)) := by
  induction h with
  | root =>
    obtain ⟨hi, rfl⟩ := List.getElem?_eq_some_iff.mp hn
    obtain rfl : i = 0 := by simpa using hi
    exact root
  | @child node c lic path above later inside parent ih =>
    have hlength := above.length_path
    rcases Nat.lt_or_ge i path.length with hi | hi
    · rw [List.getElem?_append_left hi] at hn
      rw [List.take_append_of_le_length (by omega), List.take_append_of_le_length (by omega)]
      exact ih hn
    · obtain ⟨hlt, -⟩ := List.getElem?_eq_some_iff.mp hn
      rw [List.length_append, List.length_singleton] at hlt
      obtain rfl : i = path.length := by omega
      rw [List.getElem?_concat_length, Option.some_inj] at hn
      rw [← hn, List.take_of_length_le (by simp [hlength]), List.take_of_length_le (by simp)]
      exact child above later inside parent

end

end OnPath

lemma treeChildForToken_eq_some {parentIndex verifyIds : ℕ → ℤ} {valid node c : ℕ} {token : ℤ}
    (h : treeChildForToken parentIndex verifyIds valid node token = some c) :
    node < c ∧ c < valid ∧ parentIndex c = node ∧ verifyIds c = token := by
  have hfound := List.find?_some h
  have hmem := List.mem_of_find?_eq_some h
  rw [List.mem_range'_1] at hmem
  rw [decide_eq_true_eq] at hfound
  exact ⟨by omega, by omega, hfound⟩

section Walk

variable {K κ : Type} {parentIndex verifyIds : ℕ → ℤ} {valid : ℕ} {sample : ℕ → List ℤ → ℤ}
  {next : List ℤ → K → ℤ} {key : ℕ → κ} {u : κ → K} {generated : List ℤ}

/-- What a walk that was at the tokens `lic` with `rest` steps to go has done when it ends: it
stayed on a path, and its tokens from there on are the target's. -/
structure TreeWalk.Follows (parentIndex verifyIds : ℕ → ℤ) (valid : ℕ) (next : List ℤ → K → ℤ)
    (key : ℕ → κ) (u : κ → K) (generated lic : List ℤ) (rest : ℕ) (walk : TreeWalk) : Prop where
  onPath : OnPath parentIndex verifyIds valid walk.node walk.lic walk.path
  ge : lic.length ≤ walk.lic.length
  le : walk.lic.length ≤ lic.length + rest
  tokens_eq : walk.lic ++ [walk.tstar] =
    lic ++ tokens next key u (walk.lic.length - lic.length + 1) (generated ++ lic)

lemma treeWalk_follows
    (hsample : ∀ node lic path, OnPath parentIndex verifyIds valid node lic path →
      sample node lic = next (generated ++ lic) (u (key (generated ++ lic).length)))
    (rest : ℕ) {node : ℕ} {lic : List ℤ} {path : List ℕ}
    (h : OnPath parentIndex verifyIds valid node lic path) :
    (treeWalk (treeChildForToken parentIndex verifyIds valid) sample rest node lic path).Follows
      parentIndex verifyIds valid next key u generated lic rest := by
  have hstop : ∀ {rest node lic path}, OnPath parentIndex verifyIds valid node lic path →
      TreeWalk.Follows parentIndex verifyIds valid next key u generated lic rest
        ⟨lic, path, node, sample node lic⟩ := by
    intro rest node lic path h
    refine ⟨h, Nat.le_refl _, Nat.le_add_right _ _, ?_⟩
    rw [hsample node lic path h, Nat.sub_self]
    rfl
  induction rest generalizing node lic path with
  | zero => exact hstop h
  | succ rest ih =>
    rw [treeWalk]
    cases hchild : treeChildForToken parentIndex verifyIds valid node (sample node lic) with
    | none => exact hstop h
    | some c =>
      obtain ⟨hlater, hinside, hparent, htoken⟩ := treeChildForToken_eq_some hchild
      have hbelow := h.child hlater hinside hparent
      rw [htoken] at hbelow
      have hfollows := ih hbelow
      dsimp only
      generalize treeWalk _ sample rest c _ _ = walk at hfollows ⊢
      obtain ⟨honPath, hge, hle, htokens⟩ := hfollows
      rw [List.length_append, List.length_singleton] at hge hle htokens
      refine ⟨honPath, by omega, by omega, ?_⟩
      have hmore : walk.lic.length - lic.length = walk.lic.length - (lic.length + 1) + 1 := by omega
      rw [htokens, hmore]
      conv_rhs => rw [tokens, ← hsample node lic path h]
      rw [List.append_assoc, List.singleton_append, List.append_assoc generated]

end Walk

/-! ## One round -/

lemma commitTree_licensed {width : ℕ} {row : Row} {walk : TreeWalk} {clamp : ℤ → ℤ}
    {count : List ℤ → Option (ℤ → ℕ)} (h : ∀ t ∈ walk.lic ++ [walk.tstar], clamp t = t) :
    (commitTree width row walk clamp count).licensed = walk.lic ++ [walk.tstar] := by
  rw [TreeCommitted.licensed, commitTree, List.map_congr_left h, List.map_id']
  exact List.take_left' (by simp)

lemma commitTree_path {width : ℕ} {row : Row} {walk : TreeWalk} {clamp : ℤ → ℤ}
    {count : List ℤ → Option (ℤ → ℕ)} (h : walk.path.length = walk.lic.length + 1) :
    (commitTree width row walk clamp count).path = walk.path :=
  List.take_left' h

lemma countsAfter_append (counts : Option (ℤ → ℕ)) (generated more : List ℤ) :
    countsAfter counts (generated ++ more) = countsAfter (countsAfter counts generated) more := by
  simp [countsAfter, Function.comp_def, Nat.add_assoc]

lemma foldl_countToken {vocab : ℕ} {licensed : List ℤ} (h : ∀ t ∈ licensed, 0 ≤ t ∧ t < vocab)
    (counts : Option (ℤ → ℕ)) :
    licensed.foldl (countToken vocab) counts = countsAfter counts licensed := by
  induction licensed generalizing counts with
  | nil => simp [countsAfter]
  | cons t rest ih =>
    rw [List.foldl_cons, ih fun x hx => h x (List.mem_cons_of_mem t hx), ← List.singleton_append,
      countsAfter_append]
    congr 1
    have ht := h t List.mem_cons_self
    rw [countToken]
    congr 1
    funext counts v
    rw [if_neg (by omega)]
    by_cases hv : v = t
    · simp [hv]
    · simp [hv, Ne.symm hv]

lemma penaltyCount_countsAfter {counts : Option (ℤ → ℕ)} (h : counts.isSome = true)
    (generated overlay : List ℤ) (v : ℤ) :
    penaltyCount (countsAfter counts generated) overlay v =
      penaltyCount counts (generated ++ overlay) v := by
  obtain ⟨counts, rfl⟩ := Option.isSome_iff_exists.mp h
  simp [penaltyCount, countsAfter, Nat.add_assoc]

section Round

variable {K : Type} {input : TreeInput K}

lemma TreeInput.valid_pos (hwidth : 0 < input.width) : 0 < input.valid := by
  unfold TreeInput.valid
  split
  · exact Nat.one_pos
  · exact lt_min (by omega) hwidth

lemma TreeInput.valid_le (hwidth : 0 < input.width) : input.valid ≤ input.width := by
  unfold TreeInput.valid
  split
  · exact hwidth
  · exact min_le_right _ _

/-- Both routes show the penalties the tokens of the walk. -/
lemma TreeInput.overlay_eq (hwidth : 2 ≤ input.width ∧ input.width ≤ kSamplerMaxColumns) (vocab : ℕ)
    {node : ℕ} {lic : List ℤ} {path : List ℕ}
    (h : OnPath input.parentIndex input.verifyIds input.valid node lic path) :
    input.overlay vocab node lic = lic := by
  unfold TreeInput.overlay
  split
  · have hle : input.valid ≤ input.width := input.valid_le (by omega)
    exact h.treePathOverlay_eq (input.valid_pos (by omega)) (hle.trans hwidth.2)
  · rfl

lemma TreeInput.rootTokens_eq {node : ℕ} {lic : List ℤ} {path : List ℕ}
    (h : OnPath input.parentIndex input.verifyIds input.valid node lic path) :
    input.rootTokens node = lic := by
  obtain ⟨rest, -, hids, hstack⟩ := h.eq_cons
  rw [TreeInput.rootTokens, hstack node h.length_le, List.reverse_reverse, hids]

/-- What holds of a round's output whatever the target is: between one and `extent + 1` tokens, a
path of the tree from column 0 with the accepted tokens, and the row advanced to match.  At every
column of the path the penalties see all tokens that are committed before it. -/
structure Round.Ok (sampling : Prop) (vocab : ℕ) (start : Row) (r : Round K) : Prop where
  produced : r.out.licensedCount = r.out.accepted + 1
  accepted_le : r.out.accepted ≤ r.input.extent
  length_licensed : r.out.licensed.length = r.out.licensedCount
  path_head : r.out.path.head? = some 0
  path_chain : r.out.path.IsChain fun p c => p < c ∧ r.input.parentIndex c = p
  path_tokens : r.out.path.tail.map r.input.verifyIds = r.out.licensed.take r.out.accepted
  path_last : r.out.path.getLast? = some r.out.acceptedColumn
  inside : r.out.acceptedColumn < r.input.valid
  length_eq : r.out.length = r.row.length + r.out.licensedCount
  anchor_eq : r.out.licensed.getLast? = some r.out.anchor
  counts_seen : sampling → start.tokenCounts.isSome = true →
    ∀ i node, r.out.path[i]? = some node → ∀ v,
      penaltyCount r.row.tokenCounts (r.input.overlay vocab node (r.out.licensed.take i)) v =
        penaltyCount start.tokenCounts (r.generated ++ r.out.licensed.take i) v

/-- A commit of a walk down the tree whose tokens need no clamping. -/
lemma commitTree_ok {κ : Type} {next : List ℤ → K → ℤ} {key : ℕ → κ} {u : κ → K} {vocab : ℕ}
    {start row : Row} {generated : List ℤ} {walk : TreeWalk} {clamp : ℤ → ℤ}
    {count : List ℤ → Option (ℤ → ℕ)} {sampling : Prop}
    (hwidth : 2 ≤ input.width ∧ input.width ≤ kSamplerMaxColumns)
    (h : walk.Follows input.parentIndex input.verifyIds input.valid next key u generated []
      input.extent)
    (hclamp : ∀ t ∈ walk.lic ++ [walk.tstar], clamp t = t)
    (hcounts : sampling → row.tokenCounts = countsAfter start.tokenCounts generated) :
    Round.Ok sampling vocab start
      ⟨row, generated, input, commitTree input.width row walk clamp count⟩ := by
  have hpath : (commitTree input.width row walk clamp count).path = walk.path :=
    commitTree_path h.onPath.length_path
  have hlicensed : (commitTree input.width row walk clamp count).licensed =
      walk.lic ++ [walk.tstar] := commitTree_licensed hclamp
  obtain ⟨rest, hcons, hids, -⟩ := h.onPath.eq_cons
  have hle := h.le
  rw [List.length_nil, Nat.zero_add] at hle
  refine ⟨rfl, hle, ?_, ?_, ?_, ?_, ?_, ?_, rfl, ?_, ?_⟩
  · rw [hlicensed, List.length_append]
    rfl
  · rw [hpath, hcons, List.head?_cons]
  · rw [hpath]
    exact h.onPath.isChain
  · rw [hpath, hlicensed, hcons, List.tail_cons, hids]
    exact (List.take_left' rfl).symm
  · rw [hpath]
    exact h.onPath.getLast?_eq
  · exact h.onPath.lt_valid (input.valid_pos (by omega))
  · rw [hlicensed, List.getLast?_concat]
    exact congrArg some (hclamp _ (by simp)).symm
  · intro hsampling hsome i node hnode v
    rw [hpath] at hnode
    have hat := h.onPath.take hnode
    have hi : i ≤ walk.lic.length := by
      have := (List.getElem?_eq_some_iff.mp hnode).1
      rw [h.onPath.length_path] at this
      omega
    rw [hlicensed, List.take_append_of_le_length hi, input.overlay_eq hwidth vocab hat,
      hcounts hsampling, penaltyCount_countsAfter hsome]

variable [Field K] [LinearOrder K] {exp : K → K} {config : SamplingConfig K} {vocab : ℕ}
  {u : Key → K} {target : Target K} {start row : Row} {generated : List ℤ}

/-- On a path the sampling walk takes the target's next token. -/
lemma sampleColumn_eq (hwidth : 2 ≤ input.width ∧ input.width ≤ kSamplerMaxColumns)
    (hsampling : config.temperature > 0) (hholds : input.Holds config target generated)
    (hpenalties : config.presencePenalty = 0 ∧ config.frequencyPenalty = 0 ∨
      start.tokenCounts.isSome = true)
    (hlength : row.length = start.length + generated.length)
    (hcounts : row.tokenCounts = countsAfter start.tokenCounts generated) {node : ℕ} {lic : List ℤ}
    {path : List ℕ} (h : OnPath input.parentIndex input.verifyIds input.valid node lic path) :
    sampleColumn exp config vocab u row input node lic =
      target.next exp config vocab start.tokenCounts (generated ++ lic)
        (u (positionKey .speculativeAccept start.length (generated ++ lic).length)) := by
  obtain ⟨hlogits, hallowed⟩ :=
    hholds.sampling hsampling node (h.lt_valid (input.valid_pos (by omega)))
  rw [input.rootTokens_eq h] at hlogits hallowed
  have hkey : positionKey .speculativeAccept row.length lic.length =
      positionKey .speculativeAccept start.length (generated ++ lic).length := by
    simp [positionKey, hlength, Nat.add_assoc]
  have hseen : config.presencePenalty = 0 ∧ config.frequencyPenalty = 0 ∨
      ∀ v, penaltyCount row.tokenCounts lic v =
        penaltyCount (countsAfter start.tokenCounts (generated ++ lic)) [] v := by
    refine hpenalties.imp_right fun hsome v => ?_
    rw [hcounts, penaltyCount_countsAfter hsome, penaltyCount_countsAfter hsome, List.append_nil]
  rw [sampleColumn, Target.next, if_pos hsampling, input.overlay_eq hwidth vocab h, hlogits,
    hallowed, hkey, truncatedLaw_congr exp config vocab _ hseen]

/-- The target's tokens are in the vocabulary when it samples. -/
lemma Target.next_mem (hsampling : config.temperature > 0)
    (heligible : ∀ w, ∃ v < vocab, tokenSuppressed config (target.allowed w) (v : ℕ) = false)
    (counts : Option (ℤ → ℕ)) (w : List ℤ) (x : K) :
    0 ≤ target.next exp config vocab counts w x ∧
      target.next exp config vocab counts w x < vocab := by
  rw [Target.next, if_pos hsampling]
  exact pickFromSupport_truncatedLaw exp config (heligible w) _ _ _ _

/-- One round commits the target's next tokens and counts them. -/
lemma treeRound_spec (hwidth : 2 ≤ input.width ∧ input.width ≤ kSamplerMaxColumns)
    (hholds : input.Holds config target generated)
    (heligible : config.temperature > 0 →
      ∀ w, ∃ v < vocab, tokenSuppressed config (target.allowed w) (v : ℕ) = false)
    (hpenalties : config.presencePenalty = 0 ∧ config.frequencyPenalty = 0 ∨
      start.tokenCounts.isSome = true)
    (hlength : row.length = start.length + generated.length)
    (hcounts : config.temperature > 0 →
      row.tokenCounts = countsAfter start.tokenCounts generated) :
    ∀ out, treeRound exp config vocab u row input = out →
      out.licensed = tokens (target.next exp config vocab start.tokenCounts)
        (positionKey .speculativeAccept start.length) u out.licensedCount generated ∧
      Round.Ok (config.temperature > 0) vocab start ⟨row, generated, input, out⟩ ∧
      (config.temperature > 0 → out.tokenCounts = countsAfter row.tokenCounts out.licensed) := by
  rintro out rfl
  by_cases hsampling : config.temperature > 0
  · have hsample : ∀ node lic path,
        OnPath input.parentIndex input.verifyIds input.valid node lic path →
        sampleColumn exp config vocab u row input node lic =
          target.next exp config vocab start.tokenCounts (generated ++ lic)
            (u (positionKey .speculativeAccept start.length (generated ++ lic).length)) :=
      fun node lic path =>
        sampleColumn_eq hwidth hsampling hholds hpenalties hlength (hcounts hsampling)
    have hfollows := treeWalk_follows hsample input.extent OnPath.root
    rw [treeRound, if_pos hsampling]
    generalize treeWalk _ (sampleColumn exp config vocab u row input) _ _ _ _ = walk at hfollows ⊢
    have htokens := hfollows.tokens_eq
    rw [List.append_nil] at htokens
    have hvocab : ∀ t ∈ walk.lic ++ [walk.tstar], 0 ≤ t ∧ t < vocab := by
      rw [htokens]
      exact forall_mem_tokens (Target.next_mem hsampling (heligible hsampling) _) _ _ _ _
    have hclamp : ∀ t ∈ walk.lic ++ [walk.tstar], clampToken t 0 vocab = t :=
      fun t ht => if_pos (hvocab t ht)
    have hlicensed : (treeSamplingCommit vocab input.width row walk).licensed =
        walk.lic ++ [walk.tstar] := commitTree_licensed hclamp
    refine ⟨hlicensed.trans htokens, commitTree_ok hwidth hfollows hclamp hcounts, fun _ => ?_⟩
    rw [hlicensed, ← foldl_countToken hvocab]
    simp only [treeSamplingCommit, commitTree, List.map_congr_left hclamp, List.map_id']
  · have hsample : ∀ node lic path,
        OnPath input.parentIndex input.verifyIds input.valid node lic path →
        input.targetTokens node = target.next exp config vocab start.tokenCounts (generated ++ lic)
          (u (positionKey .speculativeAccept start.length (generated ++ lic).length)) := by
      intro node lic path h
      rw [hholds.greedy hsampling node (h.lt_valid (input.valid_pos (by omega))),
        input.rootTokens_eq h, Target.next, if_neg hsampling]
    have hfollows := treeWalk_follows hsample input.extent OnPath.root
    rw [treeRound, if_neg hsampling]
    generalize treeWalk _ (fun node _ => input.targetTokens node) _ _ _ _ = walk at hfollows ⊢
    have htokens := hfollows.tokens_eq
    rw [List.append_nil] at htokens
    exact ⟨(commitTree_licensed fun _ _ => rfl).trans htokens,
      commitTree_ok hwidth hfollows (fun _ _ => rfl) hcounts,
      fun h => absurd h hsampling⟩

end Round

/-! ## Whole runs -/

section Runs

variable {K : Type} [Field K] [LinearOrder K] {exp : K → K} {config : SamplingConfig K} {vocab : ℕ}
  {u : Key → K} {target : Target K} {start row : Row} {rounds : List (Round K)}

/-- Draft trees never change the output.  In every run of tree rounds whose columns hold the
target's data, the committed tokens are the ones that the target gives one at a time; the row's
length, anchor and counts are those of sequential decoding, and every round is well formed.  A
sampling row has an eligible token after every sequence, and counts whenever it has penalties. -/
theorem tree_drafts_never_change_output
    (heligible : config.temperature > 0 →
      ∀ w, ∃ v < vocab, tokenSuppressed config (target.allowed w) (v : ℕ) = false)
    (hpenalties : config.presencePenalty = 0 ∧ config.frequencyPenalty = 0 ∨
      start.tokenCounts.isSome = true)
    (run : TreeRun exp config vocab u target start rounds row) :
    generatedBy rounds = tokens (target.next exp config vocab start.tokenCounts)
      (positionKey .speculativeAccept start.length) u (producedBy rounds) [] ∧
    row.length = start.length + producedBy rounds ∧
    (generatedBy rounds).getLast?.getD start.anchor = row.anchor ∧
    (config.temperature > 0 →
      row.tokenCounts = countsAfter start.tokenCounts (generatedBy rounds)) ∧
    ∀ r ∈ rounds, r.Ok (config.temperature > 0) vocab start := by
  induction run with
  | start =>
    refine ⟨rfl, rfl, rfl, fun _ => ?_, fun r hr => absurd hr List.not_mem_nil⟩
    simp [generatedBy, countsAfter]
  | @round rounds row input _ hwidth hholds ih =>
    obtain ⟨htokens, hlength, -, hcounts, hrounds⟩ := ih
    have hproduced : (generatedBy rounds).length = producedBy rounds := by
      rw [htokens, length_tokens]
    obtain ⟨hlicensed, hok, hcount⟩ :=
      treeRound_spec hwidth hholds heligible hpenalties (by rw [hlength, hproduced]) hcounts _ rfl
    rw [generatedBy_concat, producedBy_concat]
    refine ⟨?_, ?_, ?_, ?_, ?_⟩
    · rw [tokens_add, List.nil_append, ← htokens, hlicensed]
    · rw [← Nat.add_assoc, ← hlength]
      exact hok.length_eq
    · rw [List.getLast?_append, hok.anchor_eq]
      rfl
    · intro hsampling
      rw [countsAfter_append, ← hcounts hsampling]
      exact hcount hsampling
    · intro r hr
      rcases List.mem_append.mp hr with hr | hr
      · exact hrounds r hr
      · rw [List.mem_singleton.mp hr]
        exact hok

/-- A target without a bitset that prefers the token after the last one, of four. -/
def cyclicTarget : Target ℚ where
  argmax := fun w => (w.getLast?.getD 0 + 1) % 4
  logits := fun w v => if v = (w.getLast?.getD 0 + 1) % 4 then 3 else 0
  allowed := fun _ => none

/-- Penalties and `top_k = 1`. -/
def penalisedConfig : SamplingConfig ℚ :=
  ⟨1, 1, 1, 0, 1, 1, []⟩

/-- A tree with two siblings of the same token, on top of `generated`. -/
def siblingTree (generated : List ℤ) : TreeInput ℚ :=
  let verifyIds : ℕ → ℤ := fun c => [0, 1, 1, 2, 3].getD c 0
  let parentIndex : ℕ → ℤ := fun c => [-1, 0, 0, 1, 3].getD c 0
  let seen := fun c => generated ++ (pathStack parentIndex c c).reverse.map verifyIds
  { width := 5
    verifyIds
    parentIndex
    validColumns := 5
    currentExtent := 2
    targetTokens := fun c => cyclicTarget.argmax (seen c)
    logits := fun c => cyclicTarget.logits (seen c)
    allowed := fun _ => none }

/-- A round that accepts two drafts of the tree, and one that accepts none. -/
theorem tree_drafts_never_change_output_siblings :
    ∃ rounds row, TreeRun (fun _ => 1) penalisedConfig 4 (fun _ => 1 / 2) cyclicTarget
        ⟨10, 0, some fun _ => 0⟩ rounds row ∧
      generatedBy rounds = [1, 2, 3, 0] ∧
      generatedBy rounds = tokens
        (cyclicTarget.next (fun _ => 1) penalisedConfig 4 (some fun _ => 0))
        (positionKey .speculativeAccept 10) (fun _ => 1 / 2) (producedBy rounds) [] := by
  have hholds : ∀ w, (siblingTree w).Holds penalisedConfig cyclicTarget w :=
    fun w => ⟨fun _ _ _ => rfl, fun _ _ _ => ⟨rfl, rfl⟩⟩
  have hstart : TreeRun (fun _ => 1) penalisedConfig 4 (fun _ => 1 / 2) cyclicTarget
      ⟨10, 0, some fun _ => 0⟩ [] ⟨10, 0, some fun _ => 0⟩ := TreeRun.start
  have hfirst := hstart.round (siblingTree []) (by decide) (hholds [])
  have hrun := hfirst.round (siblingTree _) (by decide) (hholds _)
  obtain ⟨htokens, -⟩ :=
    tree_drafts_never_change_output (fun _ _ => ⟨0, by decide, rfl⟩) (Or.inr rfl) hrun
  exact ⟨_, _, hrun, by decide +kernel, htokens⟩

end Runs

end NInfer.SpeculativeRound
