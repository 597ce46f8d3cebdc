import NInfer.Foundation.PairMerging
import NInfer.Frontend.Bpe

/-!
# Merging a word

Both merge loops of `append_bpe_word` do what byte-pair encoding asks for: merge the leftmost
occurrence of the lowest-ranked pair until no pair is left (`PairMerging.merged`).

The nodes that are still linked make up a chain (`ChainOf`), and their indices increase along it, so
"leftmost" and "lowest index" are the same.  A short word is merged by a scan of the chain, which
finds the lowest pair (`scanBest_spec`).  For a long word, `HeapSound` is what holds between the
nodes and the candidates in every round:

* every pair of neighbours that can be merged has a candidate with their present generations, so the
  candidate that is popped goes before all pairs that can be merged;
* a candidate remembers two symbols (`Recorded`), and a node whose generation has moved on has a
  longer symbol by now or is no longer linked.  This is why the generations tell whether the
  candidate is still one of the pairs.
-/

namespace NInfer.Frontend

open NInfer.Text PairMerging

/-! ## Chains of nodes -/

/-- The nodes `is`, in this order, are the ones that are linked. -/
structure ChainOf (nodes : Nodes) (is : List ℕ) : Prop where
  head : is.head? = some 0
  sorted : is.Pairwise (· < ·)
  linked : Linked nodes.next is
  backLinked : BackLinked (fun i => (nodes i).prev) none is

/-- The symbols along the chain. -/
def symbolsOf (nodes : Nodes) (is : List ℕ) : List ℕ := is.map fun i => (nodes i).internId

/-- Neighbours in a chain. -/
def Adjacent (is : List ℕ) (l r : ℕ) : Prop := ∃ as bs, is = as ++ l :: r :: bs

variable {nodes : Nodes} {is as bs : List ℕ} {l r i result : ℕ}

/-- A join rewrites the symbol and the links. -/
lemma join_apply : nodes.join l r result i =
    { nodes i with
      internId := if i = l then result else (nodes i).internId
      prev := if (nodes r).next = some i then some l else (nodes i).prev
      next := if i = l then (nodes r).next else (nodes i).next } := by
  unfold Nodes.join
  rcases (nodes r).next with _ | after <;> simp only [Nodes.set, Function.update_apply] <;>
    split_ifs <;> simp_all

/-- A bump leaves all but the generations. -/
lemma bump_apply : nodes.bump l r i =
    { nodes i with
      generation :=
        (nodes i).generation + (if i = l then 1 else 0) + (if i = r then 1 else 0) } := by
  simp only [Nodes.bump, Nodes.set, Function.update_apply]
  split_ifs <;> simp_all

/-! ### Neighbours -/

lemma adjacent_cons_cons {j k : ℕ} :
    Adjacent (i :: j :: is) l k ↔ (l = i ∧ k = j) ∨ Adjacent (j :: is) l k := by
  constructor
  · rintro ⟨as, bs, h⟩
    match as with
    | [] =>
      rw [List.nil_append, List.cons.injEq, List.cons.injEq] at h
      exact .inl ⟨h.1.symm, h.2.1.symm⟩
    | a :: as => exact .inr ⟨as, bs, (List.cons.inj h).2⟩
  · rintro (⟨rfl, rfl⟩ | ⟨as, bs, h⟩)
    · exact ⟨[], is, rfl⟩
    · exact ⟨i :: as, bs, by rw [h, List.cons_append]⟩

lemma not_adjacent_singleton : ¬Adjacent [i] l r := by
  rintro ⟨as, bs, h⟩
  have hlength := congrArg List.length h
  rw [List.length_append, List.length_singleton, List.length_cons, List.length_cons] at hlength
  omega

lemma ChainOf.next_of_adjacent (h : ChainOf nodes is) (hadjacent : Adjacent is l r) :
    (nodes l).next = some r := by
  obtain ⟨as, bs, rfl⟩ := hadjacent
  exact h.linked.next_eq

/-- A linked node and the one it names. -/
lemma ChainOf.adjacent (h : ChainOf nodes is) (hl : l ∈ is) (hnext : (nodes l).next = some r) :
    Adjacent is l r := by
  obtain ⟨as, bs, rfl⟩ := List.append_of_mem hl
  have hhead : bs.head? = some r := h.linked.next_eq.symm.trans hnext
  match bs with
  | b :: bs =>
    obtain rfl := Option.some.inj hhead
    exact ⟨as, bs, rfl⟩

/-- The lowest pair of the chain is the lowest pair of its symbols. -/
lemma step_of_before {pair : ℕ → ℕ → Option (ℕ × ℕ)} {k : ℕ} (hsorted : is.Pairwise (· < ·))
    (his : is = as ++ l :: r :: bs)
    (hpair : pair (nodes l).internId (nodes r).internId = some (k, result))
    (hbefore : ∀ l' r' k' result', Adjacent is l' r' →
      pair (nodes l').internId (nodes r').internId = some (k', result') →
        k < k' ∨ k = k' ∧ l ≤ l') :
    step pair (symbolsOf nodes is) = some (symbolsOf nodes as ++ result :: symbolsOf nodes bs) := by
  have hsymbols : symbolsOf nodes is = symbolsOf nodes as ++
      (nodes l).internId :: (nodes r).internId :: symbolsOf nodes bs := by
    rw [his]
    simp [symbolsOf]
  refine step_of_lowest hsymbols hpair ?_
  rintro m ⟨as', a, b, bs', hl, hposition, hm⟩
  obtain ⟨cs, rest, hcs, hcsmap, hrest⟩ := List.map_eq_append_iff.mp hl
  obtain ⟨l', rest', rfl, rfl, hrest'⟩ := List.map_eq_cons_iff.mp hrest
  obtain ⟨r', ds, rfl, rfl, -⟩ := List.map_eq_cons_iff.mp hrest'
  rcases hbefore l' r' m.rank m.result ⟨cs, ds, hcs⟩ hm with hlt | ⟨heq, hle⟩
  · exact .inl hlt
  · refine .inr ⟨heq, ?_⟩
    -- A node that is not before another in the chain does not have a smaller index.
    have hlength : cs.length = m.position := by rw [← hposition, ← hcsmap, List.length_map]
    show (symbolsOf nodes as).length ≤ m.position
    rw [symbolsOf, List.length_map]
    by_contra hlt
    have hfirst : l' < l := by
      have hget : is[cs.length]? = some l' := by rw [hcs]; simp
      have hget' : is[as.length]? = some l := by rw [his]; simp
      obtain ⟨hlt₁, rfl⟩ := List.getElem?_eq_some_iff.mp hget
      obtain ⟨hlt₂, rfl⟩ := List.getElem?_eq_some_iff.mp hget'
      exact List.pairwise_iff_getElem.mp hsorted _ _ hlt₁ hlt₂ (by omega)
    omega

/-! ### Taking a node out -/

lemma ChainOf.nodup (h : ChainOf nodes is) : is.Nodup :=
  h.sorted.imp fun hlt => Nat.ne_of_lt hlt

/-- A join takes the right node out of the chain. -/
lemma ChainOf.join (h : ChainOf nodes (as ++ l :: r :: bs)) (result : ℕ) :
    ChainOf (nodes.join l r result) (as ++ l :: bs) := by
  have hnodup := h.nodup
  have hnext : (nodes r).next = bs.head? := by
    have hr : (as ++ l :: r :: bs) = (as ++ [l]) ++ r :: bs := by simp
    exact (hr ▸ h.linked).next_eq
  refine ⟨?_, ?_, ?_, ?_⟩
  · have hhead := h.head
    cases as <;> exact hhead
  · exact h.sorted.sublist (by simp)
  · have hupdate : (nodes.join l r result).next = Function.update nodes.next l (nodes r).next := by
      funext i
      show (nodes.join l r result i).next = _
      rw [join_apply, Function.update_apply]
      rfl
    rw [hupdate]
    exact h.linked.unlink hnodup
  · refine h.backLinked.unlink (fun b hb => ?_) (fun i hi => ?_) hnodup
    · rw [join_apply]
      exact if_pos (hnext.trans hb)
    · rw [join_apply]
      exact if_neg (hnext ▸ hi)

/-- The symbols after a join. -/
lemma symbolsOf_join (h : (as ++ l :: r :: bs).Nodup) :
    symbolsOf (nodes.join l r result) (as ++ l :: bs) =
      symbolsOf nodes as ++ result :: symbolsOf nodes bs := by
  have hne : ∀ i, i ∈ as ∨ i ∈ bs → i ≠ l := by
    rintro i hi rfl
    rw [List.nodup_append] at h
    rcases hi with hi | hi
    · exact h.2.2 i hi i List.mem_cons_self rfl
    · exact (List.nodup_cons.mp h.2.1).1 (List.mem_cons_of_mem _ hi)
  simp only [symbolsOf, List.map_append, List.map_cons, join_apply]
  congr 1
  · exact List.map_congr_left fun i hi => if_neg (hne i (.inl hi))
  · congr 1
    exact List.map_congr_left fun i hi => if_neg (hne i (.inr hi))

/-! ## Short words -/

variable {table : BpePairTable}

/-- The pairs of the table, as the reference takes them. -/
def tablePair (table : BpePairTable) (a b : ℕ) : Option (ℕ × ℕ) :=
  (findBpePair table a b).map fun slot => (slot.rank, slot.result)

lemma tablePair_eq_some {a b k c : ℕ} :
    tablePair table a b = some (k, c) ↔ findBpePair table a b = some ⟨k, c⟩ := by
  rw [tablePair]
  rcases findBpePair table a b with _ | ⟨rank, result⟩ <;> simp

/-- The slot of two nodes. -/
def slotOf (table : BpePairTable) (nodes : Nodes) (l r : ℕ) : Option BpePairSlot :=
  findBpePair table (nodes l).internId (nodes r).internId

/-- What the scan has found goes before every pair of the chain. -/
def BestPair.Lowest (table : BpePairTable) (nodes : Nodes) (is : List ℕ) (b : BestPair) : Prop :=
  ∀ l r slot, Adjacent is l r → slotOf table nodes l r = some slot →
    b.slot.rank < slot.rank ∨ b.slot.rank = slot.rank ∧ b.left ≤ l

/-- What a scan of the chain makes of the best pair so far. -/
def Scanned (table : BpePairTable) (nodes : Nodes) (is : List ℕ) (best : Option BestPair) :
    Option BestPair → Prop
  | none => best = none ∧ ∀ l r, Adjacent is l r → slotOf table nodes l r = none
  | some b =>
    (best = some b ∨ ∃ r, Adjacent is b.left r ∧ slotOf table nodes b.left r = some b.slot) ∧
      b.Lowest table nodes is ∧ ∀ b₀, best = some b₀ → b = b₀ ∨ b.slot.rank < b₀.slot.rank

section

variable {best result : Option BestPair} {slot : BpePairSlot} {j : ℕ}

/-- The first pair cannot be merged, or an earlier pair has a rank that is not higher. -/
lemma Scanned.pass (hfirst : ∀ slot, slotOf table nodes i j = some slot →
      ∃ b₁, best = some b₁ ∧ b₁.slot.rank ≤ slot.rank ∧ b₁.left < i)
    (h : Scanned table nodes (j :: is) best result) :
    Scanned table nodes (i :: j :: is) best result := by
  match result with
  | none =>
    refine ⟨h.1, fun l r hadjacent => ?_⟩
    rcases adjacent_cons_cons.mp hadjacent with ⟨rfl, rfl⟩ | hadjacent
    · rw [Option.eq_none_iff_forall_ne_some]
      intro slot hslot
      obtain ⟨b₁, hb₁, -⟩ := hfirst slot hslot
      exact absurd (h.1.symm.trans hb₁) (by simp)
    · exact h.2 l r hadjacent
  | some b =>
    obtain ⟨hfound, hlowest, hkept⟩ := h
    refine ⟨hfound.imp_right ?_, fun l r slot hadjacent hl => ?_, hkept⟩
    · rintro ⟨r, hadjacent, hr⟩
      exact ⟨r, adjacent_cons_cons.mpr (.inr hadjacent), hr⟩
    · rcases adjacent_cons_cons.mp hadjacent with ⟨rfl, rfl⟩ | hadjacent
      · obtain ⟨b₁, hb₁, hrank, hleft⟩ := hfirst slot hl
        rcases hkept b₁ hb₁ with rfl | hlt
        · omega
        · exact .inl (Nat.lt_of_lt_of_le hlt hrank)
      · exact hlowest l r slot hadjacent hl

/-- The first pair is the best one so far. -/
lemma Scanned.take (hfirst : slotOf table nodes i j = some slot)
    (hbetter : ∀ b₀, best = some b₀ → slot.rank < b₀.slot.rank)
    (h : Scanned table nodes (j :: is) (some ⟨slot, i⟩) result) :
    Scanned table nodes (i :: j :: is) best result := by
  match result with
  | none => exact absurd h.1 (by simp)
  | some b =>
    obtain ⟨hfound, hlowest, hkept⟩ := h
    refine ⟨.inr ?_, fun l r slot' hadjacent hl => ?_, fun b₀ hb₀ => .inr ?_⟩
    · rcases hfound with hb | ⟨r, hadjacent, hr⟩
      · rw [← Option.some.inj hb]
        exact ⟨j, adjacent_cons_cons.mpr (.inl ⟨rfl, rfl⟩), hfirst⟩
      · exact ⟨r, adjacent_cons_cons.mpr (.inr hadjacent), hr⟩
    · rcases adjacent_cons_cons.mp hadjacent with ⟨rfl, rfl⟩ | hadjacent
      · rw [hfirst] at hl
        obtain rfl := Option.some.inj hl
        rcases hkept _ rfl with rfl | hlt
        · exact .inr ⟨rfl, Nat.le_refl _⟩
        · exact .inl hlt
      · exact hlowest l r slot' hadjacent hl
    · rcases hkept _ rfl with rfl | hlt
      · exact hbetter b₀ hb₀
      · exact Nat.lt_trans hlt (hbetter b₀ hb₀)

/-- The scan goes along the chain. -/
lemma scanBest_spec {fuel : ℕ} (hsorted : (i :: is).Pairwise (· < ·))
    (hlinked : Linked nodes.next (i :: is)) (hfuel : is.length ≤ fuel)
    (hbest : ∀ b, best = some b → b.left < i) :
    Scanned table nodes (i :: is) best (scanBest table nodes fuel i best) := by
  induction is generalizing i fuel best with
  | nil =>
    have hscan : scanBest table nodes fuel i best = best := by
      match fuel with
      | 0 => rfl
      | fuel + 1 =>
        have hnext : (nodes i).next = none := hlinked.1
        rw [scanBest, hnext]
    rw [hscan]
    match best with
    | none => exact ⟨rfl, fun l r h => absurd h not_adjacent_singleton⟩
    | some b =>
      exact ⟨.inl rfl, fun l r slot h => absurd h not_adjacent_singleton,
        fun b₀ h => .inl (Option.some.inj h)⟩
  | cons j is ih =>
    obtain ⟨fuel, rfl⟩ : ∃ n, fuel = n + 1 :=
      ⟨fuel - 1, by rw [List.length_cons] at hfuel; omega⟩
    have hnext : (nodes i).next = some j := hlinked.1
    obtain ⟨hlt, hsorted'⟩ := List.pairwise_cons.mp hsorted
    have hij : i < j := hlt j List.mem_cons_self
    have hfuel' : is.length ≤ fuel := Nat.le_of_succ_le_succ hfuel
    rw [scanBest, hnext]
    dsimp only
    rcases hslot : findBpePair table (nodes i).internId (nodes j).internId with _ | slot
    · exact .pass (by simp [slotOf, hslot])
        (ih hsorted' hlinked.2 hfuel' fun b hb => (hbest b hb).trans hij)
    · dsimp only
      split_ifs with hbetter
      · refine .take hslot (fun b₀ hb₀ => ?_) (ih hsorted' hlinked.2 hfuel' fun b hb => ?_)
        · simpa [hb₀] using hbetter
        · rw [← Option.some.inj hb]
          exact hij
      · obtain ⟨b₁, rfl, hrank⟩ : ∃ b₁, best = some b₁ ∧ b₁.slot.rank ≤ slot.rank := by
          rcases best with _ | b₁
          · exact absurd rfl hbetter
          · exact ⟨b₁, rfl, by simpa using hbetter⟩
        refine .pass (fun slot' hslot' => ⟨b₁, rfl, ?_, hbest b₁ rfl⟩)
          (ih hsorted' hlinked.2 hfuel' fun b hb => (hbest b hb).trans hij)
        rwa [← Option.some.inj (hslot.symm.trans hslot')]

end

/-- A pair of symbols that can be merged is a pair of neighbours in the chain. -/
lemma not_mergeable (h : ∀ l r, Adjacent is l r → slotOf table nodes l r = none)
    (m : Merge ℕ) : ¬Mergeable (tablePair table) (symbolsOf nodes is) m := by
  rintro ⟨as, a, b, bs, hl, -, hm⟩
  obtain ⟨cs, rest, hcs, -, hrest⟩ := List.map_eq_append_iff.mp hl
  obtain ⟨l, rest', rfl, rfl, hrest'⟩ := List.map_eq_cons_iff.mp hrest
  obtain ⟨r, ds, rfl, rfl, -⟩ := List.map_eq_cons_iff.mp hrest'
  have hnone : findBpePair table (nodes l).internId (nodes r).internId = none := h l r ⟨cs, ds, hcs⟩
  rw [tablePair, hnone] at hm
  exact absurd hm (by simp)

/-- The loop for short words merges all that can be merged. -/
lemma mergeShort_spec (table : BpePairTable) (size fuel : ℕ) (h : ChainOf nodes is)
    (hfuel : is.length ≤ fuel)
    (hsize : is.length ≤ size) :
    ∃ is', ChainOf (mergeShort table size fuel nodes) is' ∧ is'.length ≤ is.length ∧
      symbolsOf (mergeShort table size fuel nodes) is' =
        merged (tablePair table) (symbolsOf nodes is) := by
  induction fuel generalizing nodes is with
  | zero =>
    obtain rfl := List.length_eq_zero_iff.mp (Nat.le_zero.mp hfuel)
    exact absurd h.head (by simp)
  | succ fuel ih =>
    obtain ⟨rest, rfl⟩ : ∃ rest, is = 0 :: rest := by
      have hhead := h.head
      match is with
      | i :: rest => exact ⟨rest, by rw [Option.some.inj hhead]⟩
    have hscan : Scanned table nodes (0 :: rest) none (scanBest table nodes size 0 none) :=
      scanBest_spec h.sorted h.linked (by rw [List.length_cons] at hsize; omega)
        fun b hb => absurd hb (by simp)
    rw [mergeShort]
    rcases hbest : scanBest table nodes size 0 none with _ | best
    · rw [hbest] at hscan
      exact ⟨0 :: rest, h, Nat.le_refl _,
        (merged_of_none (step_eq_none (not_mergeable hscan.2))).symm⟩
    · rw [hbest] at hscan
      obtain ⟨hnone | ⟨r, hadjacent, hslot⟩, hlowest, -⟩ := hscan
      · exact absurd hnone (by simp)
      obtain ⟨as, bs, his⟩ := hadjacent
      have hnext := h.next_of_adjacent ⟨as, bs, his⟩
      rw [his] at h
      have hstep : step (tablePair table) (symbolsOf nodes (0 :: rest)) =
          some (symbolsOf nodes as ++ best.slot.result :: symbolsOf nodes bs) := by
        refine step_of_before (his ▸ h.sorted) his (tablePair_eq_some.mpr hslot) ?_
        intro l' r' k' result' hadjacent' hpair'
        exact hlowest l' r' _ hadjacent' (tablePair_eq_some.mp hpair')
      have hlength : (0 :: rest).length = (as ++ best.left :: bs).length + 1 := by
        rw [his]
        simp only [List.length_append, List.length_cons]
        omega
      dsimp only
      rw [hnext]
      obtain ⟨is', hchain, hle, hsymbols⟩ :=
        ih (h.join best.slot.result) (by omega) (by omega)
      refine ⟨is', hchain, by omega, ?_⟩
      rw [hsymbols, symbolsOf_join h.nodup, merged_of_step hstep]

/-! ## Long words -/

/-- A merged symbol is as long as its two parts, and different pairs have different ranks. -/
structure TableLaws (table : BpePairTable) (weight : ℕ → ℕ) : Prop where
  grows : ∀ a b slot, findBpePair table a b = some slot → weight slot.result = weight a + weight b
  ranks : ∀ a b slot a' b' slot', findBpePair table a b = some slot →
    findBpePair table a' b' = some slot' → slot.rank = slot'.rank → a = a' ∧ b = b'

/-- The node had the symbol `a` in generation `g`.  It still has it, or the generation has moved on;
then the node has a longer symbol, if it is linked at all. -/
def Recorded (weight : ℕ → ℕ) (nodes : Nodes) (is : List ℕ) (i g a : ℕ) : Prop :=
  (i ∈ is ∧ (nodes i).generation = g ∧ (nodes i).internId = a) ∨
    (g < (nodes i).generation ∧ (i ∈ is → weight a < weight (nodes i).internId))

/-- The candidate of two nodes as they are now. -/
def presentCandidate (nodes : Nodes) (l r : ℕ) (slot : BpePairSlot) : Candidate :=
  ⟨slot.rank, l, r, slot.result, (nodes l).generation, (nodes r).generation⟩

/-- What holds between the nodes and the heap in every round. -/
structure HeapSound (table : BpePairTable) (weight : ℕ → ℕ) (s : Merging) (is : List ℕ) : Prop where
  chain : ChainOf s.nodes is
  positive : ∀ i ∈ is, 0 < weight (s.nodes i).internId
  recorded : ∀ c ∈ s.candidates, ∃ a b, findBpePair table a b = some ⟨c.rank, c.result⟩ ∧
    Recorded weight s.nodes is c.left c.leftGeneration a ∧
    Recorded weight s.nodes is c.right c.rightGeneration b
  complete : ∀ l r slot, Adjacent is l r → slotOf table s.nodes l r = some slot →
    presentCandidate s.nodes l r slot ∈ s.candidates

variable {weight : ℕ → ℕ} {s s' : Merging} {c : Candidate} {pop : Heap}

lemma applies_eq_true : nodes.applies c = true ↔ (nodes c.left).next = some c.right ∧
    (nodes c.left).generation = c.leftGeneration ∧
    (nodes c.right).generation = c.rightGeneration := by
  simp [Nodes.applies, and_assoc]

lemma later_eq_false {d : Candidate} :
    c.later d = false ↔ c.rank < d.rank ∨ c.rank = d.rank ∧ c.left ≤ d.left := by
  simp only [Candidate.later, Bool.or_eq_false_iff, Bool.and_eq_false_iff, decide_eq_false_iff_not]
  omega

/-- A candidate is one of the pairs that can be merged now. -/
def IsPresent (table : BpePairTable) (nodes : Nodes) (is : List ℕ) (c : Candidate) : Prop :=
  Adjacent is c.left c.right ∧ slotOf table nodes c.left c.right = some ⟨c.rank, c.result⟩

/-- The generations tell whether a candidate is still one of the pairs. -/
lemma HeapSound.applies_iff (h : HeapSound table weight s is) (hlaws : TableLaws table weight)
    (hc : c ∈ s.candidates) :
    s.nodes.applies c = true ↔ IsPresent table s.nodes is c := by
  obtain ⟨a, b, hfind, hleft, hright⟩ := h.recorded c hc
  rw [applies_eq_true]
  constructor
  · rintro ⟨hnext, hgenl, hgenr⟩
    rcases hleft with ⟨hmem, -, hsym⟩ | ⟨hlt, -⟩
    · rcases hright with ⟨-, -, hsym'⟩ | ⟨hlt, -⟩
      · refine ⟨h.chain.adjacent hmem hnext, ?_⟩
        rw [slotOf, hsym, hsym', hfind]
      · omega
    · omega
  · rintro ⟨hadjacent, hslot⟩
    -- Ranks are distinct, so the two nodes have the symbols that the candidate remembers.
    obtain ⟨rfl, rfl⟩ := hlaws.ranks _ _ _ _ _ _ hfind hslot rfl
    have hmem : c.left ∈ is ∧ c.right ∈ is := by
      obtain ⟨as, bs, rfl⟩ := hadjacent
      simp
    refine ⟨h.chain.next_of_adjacent hadjacent, ?_, ?_⟩
    · rcases hleft with ⟨-, hgen, -⟩ | ⟨-, hlonger⟩
      · exact hgen
      · exact absurd (hlonger hmem.1) (Nat.lt_irrefl _)
    · rcases hright with ⟨-, hgen, -⟩ | ⟨-, hlonger⟩
      · exact hgen
      · exact absurd (hlonger hmem.2) (Nat.lt_irrefl _)

/-! ### Applying a candidate -/

lemma adjacent_of_unlinked {l₁ r₁ : ℕ} (h : Adjacent (as ++ l :: bs) l₁ r₁) (hl : l₁ ≠ l)
    (hr : r₁ ≠ l) : Adjacent (as ++ l :: r :: bs) l₁ r₁ := by
  obtain ⟨cs, ds, heq⟩ := h
  induction as generalizing cs with
  | nil =>
    match cs with
    | [] => exact absurd (List.cons.inj heq).1.symm hl
    | c :: cs =>
      refine ⟨l :: r :: cs, ds, ?_⟩
      rw [(List.cons.inj heq).2]
      rfl
  | cons a as ih =>
    match cs with
    | [] =>
      obtain ⟨rfl, hrest⟩ := List.cons.inj heq
      match as with
      | [] => exact absurd (List.cons.inj hrest).1.symm hr
      | b :: as =>
        obtain ⟨rfl, -⟩ := List.cons.inj hrest
        exact ⟨[], as ++ l :: r :: bs, rfl⟩
    | c :: cs =>
      obtain ⟨cs', ds', hcs⟩ := ih cs (List.cons.inj heq).2
      exact ⟨a :: cs', ds', by rw [List.cons_append, hcs, List.cons_append]⟩

lemma ChainOf.prev_of_adjacent (h : ChainOf nodes is) (hadjacent : Adjacent is l r) :
    (nodes r).prev = some l := by
  obtain ⟨as, bs, rfl⟩ := hadjacent
  have hr : as ++ l :: r :: bs = (as ++ [l]) ++ r :: bs := by simp
  have hback := h.backLinked
  rw [hr] at hback
  simpa using hback.prev_eq

lemma mem_candidateAt (hnext : (nodes l).next = some r) {slot : BpePairSlot}
    (hslot : slotOf table nodes l r = some slot) :
    presentCandidate nodes l r slot ∈ candidateAt table nodes (some l) := by
  have hfind : findBpePair table (nodes l).internId (nodes r).internId = some slot := hslot
  rw [candidateAt, hnext]
  dsimp only
  rw [hfind]
  exact List.mem_singleton.mpr rfl

lemma of_mem_candidateAt (hc : c ∈ candidateAt table nodes (some l)) :
    ∃ r slot, (nodes l).next = some r ∧ slotOf table nodes l r = some slot ∧
      c = presentCandidate nodes l r slot := by
  rw [candidateAt] at hc
  rcases hnext : (nodes l).next with _ | r
  · rw [hnext] at hc
    exact absurd hc (by simp)
  · rw [hnext] at hc
    dsimp only at hc
    rcases hslot : findBpePair table (nodes l).internId (nodes r).internId with _ | slot
    · rw [hslot] at hc
      exact absurd hc (by simp)
    · rw [hslot] at hc
      exact ⟨r, slot, rfl, hslot, List.mem_singleton.mp hc⟩

lemma length_candidateAt_le (table : BpePairTable) (nodes : Nodes) (left : Option ℕ) :
    (candidateAt table nodes left).length ≤ 1 := by
  unfold candidateAt
  split
  · exact Nat.zero_le _
  · split
    · exact Nat.zero_le _
    · split
      · exact Nat.zero_le _
      · exact Nat.le_refl _

/-- A candidate of a linked node and its successor remembers their symbols. -/
lemma recorded_of_present (h : ChainOf nodes is) (hl : l ∈ is)
    (hc : c ∈ candidateAt table nodes (some l)) :
    ∃ a b, findBpePair table a b = some ⟨c.rank, c.result⟩ ∧
      Recorded weight nodes is c.left c.leftGeneration a ∧
      Recorded weight nodes is c.right c.rightGeneration b := by
  obtain ⟨r, slot, hnext, hslot, rfl⟩ := of_mem_candidateAt hc
  have hr : r ∈ is := by
    obtain ⟨as, bs, rfl⟩ := h.adjacent hl hnext
    simp
  exact ⟨_, _, hslot, .inl ⟨hl, rfl, rfl⟩, .inl ⟨hr, rfl, rfl⟩⟩

section

variable (h : ChainOf nodes (as ++ l :: r :: bs))

include h

lemma ChainOf.left_ne_right : l ≠ r := by
  rintro rfl
  have := List.nodup_append.mp h.nodup
  exact (List.nodup_cons.mp this.2.1).1 List.mem_cons_self

/-- The nodes that stay linked. -/
lemma ChainOf.mem_unlinked : i ∈ as ++ l :: bs ↔ i ∈ as ++ l :: r :: bs ∧ i ≠ r := by
  have hnodup := h.nodup
  have hr : r ∉ as ++ l :: bs := by
    have hperm : (as ++ l :: r :: bs).Perm (r :: (as ++ l :: bs)) := by
      have hsplit : as ++ l :: r :: bs = (as ++ [l]) ++ r :: bs := by simp
      have hsplit' : as ++ l :: bs = (as ++ [l]) ++ bs := by simp
      rw [hsplit, hsplit']
      exact List.perm_middle
    exact (List.nodup_cons.mp (hperm.nodup_iff.mp hnodup)).1
  constructor
  · intro hi
    refine ⟨?_, fun heq => hr (heq ▸ hi)⟩
    simp only [List.mem_append, List.mem_cons] at hi ⊢
    tauto
  · rintro ⟨hi, hne⟩
    simp only [List.mem_append, List.mem_cons] at hi ⊢
    tauto

/-- The generations and symbols that a merge leaves. -/
lemma Recorded.merge {g a : ℕ}
    (hresult : weight result = weight (nodes l).internId + weight (nodes r).internId)
    (hpositive : 0 < weight (nodes r).internId)
    (hrecorded : Recorded weight nodes (as ++ l :: r :: bs) i g a) :
    Recorded weight ((nodes.bump l r).join l r result) (as ++ l :: bs) i g a := by
  have hne := h.left_ne_right
  unfold Recorded at *
  simp only [join_apply, bump_apply, h.mem_unlinked]
  by_cases hl : i = l
  · subst hl
    refine .inr ⟨?_, fun _ => ?_⟩
    · rw [if_pos rfl, if_neg hne]
      rcases hrecorded with ⟨-, hgen, -⟩ | ⟨hlt, -⟩ <;> omega
    · rw [if_pos rfl]
      rcases hrecorded with ⟨-, -, rfl⟩ | ⟨-, hlonger⟩
      · omega
      · have := hlonger (by simp)
        omega
  · rw [if_neg hl, if_neg hl]
    by_cases hr : i = r
    · refine .inr ⟨?_, fun hi => absurd hr hi.2⟩
      rw [if_pos hr]
      rcases hrecorded with ⟨-, hgen, -⟩ | ⟨hlt, -⟩ <;> omega
    · rw [if_neg hr]
      rcases hrecorded with ⟨hi, hgen, hsym⟩ | ⟨hlt, hlonger⟩
      · exact .inl ⟨⟨hi, hr⟩, hgen, hsym⟩
      · exact .inr ⟨hlt, fun hi => hlonger hi.1⟩

end

lemma ChainOf.bump (h : ChainOf nodes is) (l r : ℕ) : ChainOf (nodes.bump l r) is :=
  ⟨h.head, h.sorted, h.linked.congr fun i _ => by simp only [Nodes.next, bump_apply],
    h.backLinked.congr fun i _ => by simp only [bump_apply]⟩

lemma symbolsOf_bump : symbolsOf (nodes.bump l r) is = symbolsOf nodes is := by
  simp only [symbolsOf, bump_apply]

/-- Applying a candidate that is present keeps the invariant. -/
lemma HeapSound.apply {rest : List Candidate} (hlaws : TableLaws table weight)
    (h : HeapSound table weight s (as ++ c.left :: c.right :: bs))
    (hslot : slotOf table s.nodes c.left c.right = some ⟨c.rank, c.result⟩)
    (hperm : s.candidates.Perm (c :: rest)) :
    HeapSound table weight (.apply table s.nodes c rest) (as ++ c.left :: bs) := by
  have hresult : weight c.result =
      weight (s.nodes c.left).internId + weight (s.nodes c.right).internId :=
    hlaws.grows _ _ _ hslot
  have hright : 0 < weight (s.nodes c.right).internId := h.positive _ (by simp)
  have hchain := (h.chain.bump c.left c.right).join c.result
  rw [Merging.apply]
  set nodes' := (s.nodes.bump c.left c.right).join c.left c.right c.result with hnodes'
  have hleft : c.left ∈ as ++ c.left :: bs := by simp
  refine ⟨hchain, ?_, ?_, ?_⟩
  · intro i hi
    simp only [hnodes', join_apply, bump_apply]
    split_ifs with hil
    · omega
    · exact h.positive i (h.chain.mem_unlinked.mp hi).1
  · intro d hd
    rcases List.mem_append.mp hd with hd | hd
    · exact recorded_of_present hchain hleft hd
    rcases List.mem_append.mp hd with hd | hd
    · rcases hprev : (nodes' c.left).prev with _ | p
      · rw [hprev] at hd
        exact absurd hd (by simp [candidateAt])
      · rw [hprev] at hd
        refine recorded_of_present hchain ?_ hd
        have hlast := hchain.backLinked.prev_eq
        rw [Option.or_none] at hlast
        exact List.mem_append_left _ (List.mem_of_getLast? (hlast.symm.trans hprev))
    · obtain ⟨a, b, hfind, hl, hr⟩ :=
        h.recorded d (hperm.mem_iff.mpr (List.mem_cons_of_mem _ hd))
      exact ⟨a, b, hfind, hl.merge h.chain hresult hright, hr.merge h.chain hresult hright⟩
  · intro l₁ r₁ slot hadjacent hslot₁
    have hmem : l₁ ∈ as ++ c.left :: bs ∧ r₁ ∈ as ++ c.left :: bs := by
      obtain ⟨cs, ds, heq⟩ := hadjacent
      rw [heq]
      simp
    by_cases hl₁ : l₁ = c.left
    · -- The pair of the merged node and its successor has just been pushed.
      subst hl₁
      exact List.mem_append_left _ (mem_candidateAt (hchain.next_of_adjacent hadjacent) hslot₁)
    by_cases hr₁ : r₁ = c.left
    · -- So has the pair of its predecessor.
      subst hr₁
      refine List.mem_append_right _ (List.mem_append_left _ ?_)
      rw [hchain.prev_of_adjacent hadjacent]
      exact mem_candidateAt (hchain.next_of_adjacent hadjacent) hslot₁
    · -- All other pairs were there before, and their candidates are not the one that was popped.
      have hl₂ := (h.chain.mem_unlinked.mp hmem.1).2
      have hr₂ := (h.chain.mem_unlinked.mp hmem.2).2
      have hsame : ∀ i, i ≠ c.left → i ≠ c.right → (nodes' i).internId = (s.nodes i).internId ∧
          (nodes' i).generation = (s.nodes i).generation := by
        intro i hi hi'
        simp [hnodes', join_apply, bump_apply, hi, hi']
      have hold := h.complete l₁ r₁ slot (adjacent_of_unlinked hadjacent hl₁ hr₁) (by
        rw [slotOf, (hsame l₁ hl₁ hl₂).1, (hsame r₁ hr₁ hr₂).1] at hslot₁
        exact hslot₁)
      have hpresent : presentCandidate nodes' l₁ r₁ slot = presentCandidate s.nodes l₁ r₁ slot := by
        rw [presentCandidate, presentCandidate, (hsame l₁ hl₁ hl₂).2, (hsame r₁ hr₁ hr₂).2]
      rw [hpresent]
      rcases List.mem_cons.mp (hperm.mem_iff.mp hold) with heq | hrest
      · exact absurd (congrArg Candidate.left heq) hl₁
      · exact List.mem_append_right _ (List.mem_append_right _ hrest)

/-! ### Rounds -/

/-- The rounds that are left: every round uses up a candidate or makes the chain shorter. -/
def Merging.measure (s : Merging) (is : List ℕ) : ℕ := s.candidates.length + 2 * is.length

/-- The candidate that is popped goes before every pair that can be merged. -/
lemma HeapSound.step_symbols (hpop : pop.Lawful) (h : HeapSound table weight s is)
    {rest : List Candidate} (hc : pop s.candidates = some (c, rest))
    (his : is = as ++ c.left :: c.right :: bs)
    (hslot : slotOf table s.nodes c.left c.right = some ⟨c.rank, c.result⟩) :
    PairMerging.step (tablePair table) (symbolsOf s.nodes is) =
      some (symbolsOf s.nodes as ++ c.result :: symbolsOf s.nodes bs) := by
  refine step_of_before h.chain.sorted his (tablePair_eq_some.mpr hslot) ?_
  intro l' r' k' result' hadjacent hpair
  have hmem := h.complete l' r' _ hadjacent (tablePair_eq_some.mp hpair)
  rcases List.mem_cons.mp ((hpop.perm _ _ _ hc).mem_iff.mp hmem) with heq | hmem
  · have hrank : k' = c.rank := congrArg Candidate.rank heq
    have hleft : l' = c.left := congrArg Candidate.left heq
    exact .inr ⟨hrank.symm, Nat.le_of_eq hleft.symm⟩
  · exact later_eq_false.mp (hpop.first _ _ _ hc _ hmem)

/-- A round keeps the invariant and what the symbols are merged to. -/
lemma HeapSound.step (hlaws : TableLaws table weight) (hpop : pop.Lawful)
    (h : HeapSound table weight s is) (hstep : s.step pop table = some s') :
    ∃ is', HeapSound table weight s' is' ∧ is'.length ≤ is.length ∧
      s'.measure is' < s.measure is ∧
      merged (tablePair table) (symbolsOf s'.nodes is') =
        merged (tablePair table) (symbolsOf s.nodes is) := by
  rw [Merging.step] at hstep
  rcases hc : pop s.candidates with _ | ⟨c, rest⟩
  · rw [hc] at hstep
    exact absurd hstep (by simp)
  rw [hc] at hstep
  dsimp only at hstep
  have hperm := hpop.perm _ _ _ hc
  have hmem : c ∈ s.candidates := hperm.mem_iff.mpr List.mem_cons_self
  have hlength : s.candidates.length = rest.length + 1 := hperm.length_eq
  split_ifs at hstep with happlies
  · obtain rfl := Option.some.inj hstep
    obtain ⟨⟨as, bs, rfl⟩, hslot⟩ := (h.applies_iff hlaws hmem).mp happlies
    refine ⟨as ++ c.left :: bs, h.apply hlaws hslot hperm, ?_, ?_, ?_⟩
    · simp only [List.length_append, List.length_cons]
      omega
    · have hcandidates :
          (Merging.apply table s.nodes c rest).candidates.length ≤ rest.length + 2 := by
        set nodes' := (Merging.apply table s.nodes c rest).nodes
        have hone := length_candidateAt_le table nodes' (some c.left)
        have htwo := length_candidateAt_le table nodes' (nodes' c.left).prev
        show (candidateAt table nodes' (some c.left) ++
          (candidateAt table nodes' (nodes' c.left).prev ++ rest)).length ≤ _
        rw [List.length_append, List.length_append]
        omega
      simp only [Merging.measure, List.length_append, List.length_cons]
      omega
    · rw [merged_of_step (h.step_symbols hpop hc rfl hslot)]
      show merged _ (symbolsOf ((s.nodes.bump c.left c.right).join c.left c.right c.result) _) = _
      rw [symbolsOf_join h.chain.nodup, symbolsOf_bump, symbolsOf_bump]
  · obtain rfl := Option.some.inj hstep
    refine ⟨is, ⟨h.chain, h.positive, fun d hd => ?_, fun l r slot hadjacent hslot => ?_⟩,
      Nat.le_refl _, ?_, rfl⟩
    · exact h.recorded d (hperm.mem_iff.mpr (List.mem_cons_of_mem _ hd))
    · -- A candidate with the present generations would have been applied.
      have hold := h.complete l r slot hadjacent hslot
      rcases List.mem_cons.mp (hperm.mem_iff.mp hold) with heq | hrest
      · refine absurd ?_ happlies
        rw [← heq]
        exact applies_eq_true.mpr ⟨h.chain.next_of_adjacent hadjacent, rfl, rfl⟩
      · exact hrest
    · show rest.length + _ < s.candidates.length + _
      omega

/-- The loop for long words merges all that can be merged. -/
lemma HeapSound.run (hlaws : TableLaws table weight) (hpop : pop.Lawful) (fuel : ℕ)
    (h : HeapSound table weight s is) (hfuel : s.measure is ≤ fuel) :
    ∃ is', ChainOf (s.run pop table fuel) is' ∧ is'.length ≤ is.length ∧
      symbolsOf (s.run pop table fuel) is' = merged (tablePair table) (symbolsOf s.nodes is) := by
  induction fuel generalizing s is with
  | zero =>
    have hhead := h.chain.head
    have hmeasure : is.length = 0 := by
      rw [Merging.measure] at hfuel
      omega
    rw [List.length_eq_zero_iff.mp hmeasure] at hhead
    exact absurd hhead (by simp)
  | succ fuel ih =>
    rw [Merging.run]
    rcases hstep : s.step pop table with _ | s'
    · -- The heap is empty, so no pair can be merged.
      have hempty : s.candidates = [] := by
        rw [Merging.step] at hstep
        rcases hc : pop s.candidates with _ | ⟨c, rest⟩
        · exact hpop.nonempty _ hc
        · rw [hc] at hstep
          dsimp only at hstep
          split_ifs at hstep
      refine ⟨is, h.chain, Nat.le_refl _, (merged_of_none (step_eq_none ?_)).symm⟩
      refine not_mergeable fun l r hadjacent => ?_
      rcases hslot : slotOf table s.nodes l r with _ | slot
      · rfl
      · have := h.complete l r slot hadjacent hslot
        rw [hempty] at this
        exact absurd this (by simp)
    · obtain ⟨is₁, hsound, hle, hlt, hmerged⟩ := h.step hlaws hpop hstep
      obtain ⟨is', hchain, hle', hsymbols⟩ := ih hsound (by omega)
      exact ⟨is', hchain, by omega, by rw [hsymbols, hmerged]⟩

/-! ### The start -/

variable {internIds : List ℕ}

lemma chainOf_initialNodes (hne : internIds ≠ []) :
    ChainOf (initialNodes internIds) (List.range internIds.length) := by
  have hpos := List.length_pos_iff.mpr hne
  refine ⟨?_, List.pairwise_lt_range, ?_, ?_⟩
  · rw [List.head?_range, if_neg (by omega)]
  · have key : ∀ m start, start + m = internIds.length →
        Linked (initialNodes internIds).next (List.range' start m) := by
      intro m
      induction m with
      | zero => exact fun _ _ => trivial
      | succ m ih =>
        intro start hm
        refine ⟨?_, ih (start + 1) (by omega)⟩
        show (if start + 1 < internIds.length then some (start + 1) else none) = _
        match m with
        | 0 => exact if_neg (by omega)
        | m + 1 => exact if_pos (by omega)
    rw [List.range_eq_range']
    exact key _ 0 (Nat.zero_add _)
  · have key : ∀ m start, BackLinked (fun i => (initialNodes internIds i).prev)
        (if start = 0 then none else some (start - 1)) (List.range' start m) := by
      intro m
      induction m with
      | zero => exact fun _ => trivial
      | succ m ih => exact fun start => ⟨rfl, ih (start + 1)⟩
    rw [List.range_eq_range']
    exact key _ 0

lemma symbolsOf_initialNodes (internIds : List ℕ) :
    symbolsOf (initialNodes internIds) (List.range internIds.length) = internIds := by
  refine List.ext_getElem (by simp [symbolsOf]) fun i hi hi' => ?_
  simp [symbolsOf, initialNodes, hi']

lemma heapSound_initial (hne : internIds ≠ []) (hpositive : ∀ a ∈ internIds, 0 < weight a) :
    HeapSound table weight (.initial table internIds) (List.range internIds.length) := by
  have hchain := chainOf_initialNodes hne
  refine ⟨hchain, fun i hi => ?_, fun c hc => ?_, fun l r slot hadjacent hslot => ?_⟩
  · have hmem : (initialNodes internIds i).internId ∈
        symbolsOf (initialNodes internIds) (List.range internIds.length) := List.mem_map_of_mem hi
    rw [symbolsOf_initialNodes] at hmem
    exact hpositive _ hmem
  · obtain ⟨l, hl, hc⟩ := List.mem_flatMap.mp hc
    refine recorded_of_present hchain ?_ hc
    have := List.mem_range.mp hl
    exact List.mem_range.mpr (by omega)
  · have hnext := hchain.next_of_adjacent hadjacent
    refine List.mem_flatMap.mpr ⟨l, ?_, mem_candidateAt hnext hslot⟩
    have hlt : l + 1 < internIds.length := (Option.ite_none_right_eq_some.mp hnext).1
    exact List.mem_range.mpr (by omega)

lemma measure_initial (hne : internIds ≠ []) :
    (Merging.initial table internIds).measure (List.range internIds.length) ≤
      3 * internIds.length := by
  have hpos := List.length_pos_iff.mpr hne
  have hle : ∀ n, ((List.range n).flatMap fun index =>
      candidateAt table (initialNodes internIds) (some index)).length ≤ n := by
    intro n
    induction n with
    | zero => exact Nat.le_refl _
    | succ n ih =>
      have hone := length_candidateAt_le table (initialNodes internIds) (some n)
      rw [List.range_succ, List.flatMap_append, List.flatMap_singleton, List.length_append]
      omega
  have hcandidates : (Merging.initial table internIds).candidates.length ≤ internIds.length - 1 :=
    hle _
  show List.length _ + 2 * (List.range internIds.length).length ≤ _
  rw [List.length_range]
  omega

/-- Either loop merges all that can be merged. -/
lemma mergeWord_spec (hlaws : TableLaws table weight) (hpop : pop.Lawful) (hne : internIds ≠ [])
    (hpositive : ∀ a ∈ internIds, 0 < weight a) :
    ∃ is, ChainOf (mergeWord pop table internIds) is ∧ is.length ≤ internIds.length ∧
      symbolsOf (mergeWord pop table internIds) is = merged (tablePair table) internIds := by
  have hlength : (List.range internIds.length).length = internIds.length := List.length_range
  rw [mergeWord]
  split_ifs with hshort
  · have hle : (List.range internIds.length).length ≤ internIds.length := Nat.le_of_eq hlength
    obtain ⟨is, hchain, his, hsymbols⟩ :=
      mergeShort_spec table _ _ (chainOf_initialNodes hne) hle hle
    rw [symbolsOf_initialNodes] at hsymbols
    exact ⟨is, hchain, by omega, hsymbols⟩
  · have hsound : HeapSound table weight (.initial table internIds) _ :=
      heapSound_initial hne hpositive
    obtain ⟨is, hchain, his, hsymbols⟩ := hsound.run hlaws hpop _ (measure_initial hne)
    have hstart : symbolsOf (Merging.initial table internIds).nodes _ = _ :=
      symbolsOf_initialNodes internIds
    rw [hstart] at hsymbols
    exact ⟨is, hchain, by omega, hsymbols⟩

/-- The states of the loop for a long word. -/
inductive Merging.Reached (pop : Heap) (table : BpePairTable) (internIds : List ℕ) :
    Merging → Prop
  | initial : Reached pop table internIds (.initial table internIds)
  | step {s s' : Merging} : Reached pop table internIds s → s.step pop table = some s' →
      Reached pop table internIds s'

lemma Merging.Reached.heapSound (hlaws : TableLaws table weight) (hpop : pop.Lawful)
    (hne : internIds ≠ []) (hpositive : ∀ a ∈ internIds, 0 < weight a)
    (h : Reached pop table internIds s) :
    ∃ is, HeapSound table weight s is ∧ is.length ≤ internIds.length := by
  induction h with
  | initial =>
    exact ⟨_, heapSound_initial hne hpositive, Nat.le_of_eq List.length_range⟩
  | step _ hstep ih =>
    obtain ⟨is, hsound, hle⟩ := ih
    obtain ⟨is', hsound', hle', -⟩ := hsound.step hlaws hpop hstep
    exact ⟨is', hsound', Nat.le_trans hle' hle⟩

end NInfer.Frontend
