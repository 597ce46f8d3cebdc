import NInfer.Frontend.BpeMerging

/-!
# The tables and the reference

Byte-pair encoding is described by the merges alone: cut a word into the symbols of its bytes, and
merge pairs in the order of the merges (`segmentation`).  The tokenizer works on numbers instead.
The tables that the constructor builds give every symbol one number (`Interned`), and the hash table
finds exactly the pairs of the merges (`find_insertPairs`), so the numbers are merged as the symbols
are, and `append_bpe_word` appends the tokens of the segments (`append_bpe_word_reference`).
-/

namespace NInfer.Frontend

open NInfer.Text PairMerging OpenAddressing

/-! ## Numbers for symbols -/

section

variable {strs strs' : List Symbol} {symbol : Symbol} {i : ℕ}

/-- Symbols that have a number keep it, and no symbol gets two. -/
structure Interned (strs strs' : List Symbol) : Prop where
  keeps : strs <+: strs'
  nodup : strs.Nodup → strs'.Nodup

lemma Interned.refl (strs : List Symbol) : Interned strs strs := ⟨List.prefix_rfl, id⟩

lemma Interned.trans {strs'' : List Symbol} (h : Interned strs strs') (h' : Interned strs' strs'') :
    Interned strs strs'' :=
  ⟨h.keeps.trans h'.keeps, fun hn => h'.nodup (h.nodup hn)⟩

lemma Interned.getElem? (h : Interned strs strs') (hi : strs[i]? = some symbol) :
    strs'[i]? = some symbol := by
  obtain ⟨hlt, -⟩ := List.getElem?_eq_some_iff.mp hi
  rw [← hi]
  obtain ⟨rest, rfl⟩ := h.keeps
  exact List.getElem?_append_left hlt

lemma internSymbol_spec (strs : List Symbol) (symbol : Symbol) :
    Interned strs (internSymbol strs symbol).1 ∧
      (internSymbol strs symbol).1[(internSymbol strs symbol).2]? = some symbol := by
  rw [internSymbol]
  rcases hidx : strs.idxOf? symbol with _ | internId
  · have hnew : symbol ∉ strs := List.idxOf?_eq_none_iff.mp hidx
    refine ⟨⟨List.prefix_append _ _, fun hnodup => ?_⟩, by simp⟩
    refine List.nodup_append.mpr ⟨hnodup, by simp, fun a ha b hb => ?_⟩
    rw [List.mem_singleton.mp hb]
    rintro rfl
    exact hnew ha
  · obtain ⟨hlt, hget, -⟩ := List.idxOf?_eq_some_iff.mp hidx
    exact ⟨.refl _, List.getElem?_eq_some_iff.mpr ⟨hlt, hget⟩⟩

/-- The numbers of a pair name the symbols of a merge. -/
structure Names (strs : List Symbol) (p : InternedPair) (spec : BpeMergeSpec) : Prop where
  left : strs[p.left]? = some spec.left
  right : strs[p.right]? = some spec.right
  result : strs[p.result]? = some (spec.left ++ spec.right)
  rank : p.rank = spec.rank

lemma Names.mono {p : InternedPair} {spec : BpeMergeSpec} (h : Names strs p spec)
    (hstrs : Interned strs strs') : Names strs' p spec :=
  ⟨hstrs.getElem? h.left, hstrs.getElem? h.right, hstrs.getElem? h.result, h.rank⟩

lemma internParts_spec (spec : BpeMergeSpec) (order : List MergePart) (strs : List Symbol)
    (internIds : MergePart → ℕ) :
    Interned strs (internParts spec order strs internIds).1 ∧
      ∀ part, part ∈ order ∨ strs[internIds part]? = some (spec.symbol part) →
        (internParts spec order strs internIds).1[(internParts spec order strs internIds).2 part]? =
          some (spec.symbol part) := by
  induction order generalizing strs internIds with
  | nil => exact ⟨.refl _, fun part h => h.resolve_left List.not_mem_nil⟩
  | cons first order ih =>
    obtain ⟨hfirst, hnumber⟩ := internSymbol_spec strs (spec.symbol first)
    rcases hi : internSymbol strs (spec.symbol first) with ⟨strs₁, internId⟩
    rw [hi] at hfirst hnumber
    obtain ⟨hrest, hparts⟩ := ih strs₁ (Function.update internIds first internId)
    rw [internParts, hi]
    refine ⟨hfirst.trans hrest, fun part hpart => hparts part ?_⟩
    by_cases heq : part = first
    · subst heq
      exact Or.inr (by simpa using hnumber)
    · rw [Function.update_of_ne heq]
      exact hpart.imp (fun hmem => (List.mem_cons.mp hmem).resolve_left heq) hfirst.getElem?

/-- Whichever symbol of a merge gets its number first. -/
lemma internMerges_spec {order : List MergePart} (horder : order.Perm [.left, .right, .result])
    (strs : List Symbol) (specs : List BpeMergeSpec) :
    Interned strs (internMerges order strs specs).1 ∧
      List.Forall₂ (Names (internMerges order strs specs).1) (internMerges order strs specs).2
        specs := by
  induction specs generalizing strs with
  | nil => exact ⟨.refl _, .nil⟩
  | cons spec specs ih =>
    obtain ⟨hkept, hparts⟩ := internParts_spec spec order strs 0
    rcases hp : internParts spec order strs 0 with ⟨strs₁, internIds⟩
    rw [hp] at hkept hparts
    obtain ⟨hrest, hnames⟩ := ih strs₁
    have hpart : ∀ part, (internMerges order strs₁ specs).1[internIds part]? =
        some (spec.symbol part) := fun part =>
      hrest.getElem? (hparts part (.inl (horder.mem_iff.mpr (by cases part <;> simp))))
    rw [internMerges, hp]
    exact ⟨hkept.trans hrest, .cons ⟨hpart .left, hpart .right, hpart .result, rfl⟩ hnames⟩

lemma internBytes_spec (strs : List Symbol) (bytes : List Byte) :
    Interned strs (internBytes strs bytes).1 ∧
      List.Forall₂ (fun internId b => (internBytes strs bytes).1[internId]? = some (byteSymbol b))
        (internBytes strs bytes).2 bytes := by
  induction bytes generalizing strs with
  | nil => exact ⟨.refl _, .nil⟩
  | cons b bytes ih =>
    obtain ⟨hb, hsymbol⟩ := internSymbol_spec strs (byteSymbol b)
    rcases hbs : internSymbol strs (byteSymbol b) with ⟨strs₁, internId⟩
    rw [hbs] at hb hsymbol
    obtain ⟨hrest, hids⟩ := ih strs₁
    rw [internBytes, hbs]
    exact ⟨hb.trans hrest, .cons (hrest.getElem? hsymbol) hids⟩

end

/-! ## The hash table -/

section

variable {table table' : BpePairTable} {pairs : List InternedPair}

/-- The entry of a pair. -/
def InternedPair.entry (p : InternedPair) : (ℕ × ℕ) × BpePairSlot :=
  ((p.left, p.right), ⟨p.rank, p.result⟩)

lemma insertPairs_holds {entries : List ((ℕ × ℕ) × BpePairSlot)}
    (hinsert : insertPairs table pairs = .ok table')
    (h : Holds (BpePairTable.advance table.mask) (BpePairTable.start table.mask) table.slots
      entries) (hmask : table.mask < table.slots.length) :
    table'.slots.length = table.slots.length ∧
      Holds (BpePairTable.advance table'.mask) (BpePairTable.start table'.mask) table'.slots
        ((pairs.map InternedPair.entry).reverse ++ entries) := by
  induction pairs generalizing table entries with
  | nil =>
    obtain rfl := Except.ok.inj hinsert
    exact ⟨rfl, h⟩
  | cons p pairs ih =>
    obtain ⟨table₁, hp, hpairs⟩ := ok_bind_iff.mp hinsert
    rw [insertBpePair] at hp
    rcases hslots : OpenAddressing.insert (BpePairTable.advance table.mask) table.slots
        (p.left, p.right) ⟨p.rank, p.result⟩ table.slots.length
        (BpePairTable.start table.mask (p.left, p.right)) with e | slots
    · rw [hslots] at hp
      cases e <;> exact absurd hp (by simp)
    · rw [hslots] at hp
      obtain rfl := Except.ok.inj hp
      have hland : ∀ n, n &&& table.mask < table.slots.length := fun n =>
        Nat.lt_of_le_of_lt Nat.and_le_right hmask
      obtain ⟨-, hlength, hholds⟩ := h.insert (fun _ => hland _) (fun _ => hland _) hslots
      obtain ⟨hlength', hholds'⟩ := ih hpairs hholds (by rw [hlength]; exact hmask)
      refine ⟨hlength'.trans hlength, ?_⟩
      rw [List.map_cons, List.reverse_cons, List.append_assoc]
      exact hholds'

/-- The table finds the pairs that were inserted, and no two of them have the same key. -/
lemma find_insertPairs {size : ℕ} (hsize : 0 < size)
    (hinsert : insertPairs ⟨List.replicate size none, size - 1⟩ pairs = .ok table) :
    (∀ a b slot,
        findBpePair table a b = some slot ↔ ((a, b), slot) ∈ pairs.map InternedPair.entry) ∧
      ∀ p ∈ pairs, ∀ q ∈ pairs, p.left = q.left → p.right = q.right →
        p.rank = q.rank ∧ p.result = q.result := by
  have hlength : (List.replicate size (none : Option ((ℕ × ℕ) × BpePairSlot))).length = size :=
    List.length_replicate
  obtain ⟨hlen, hholds⟩ := insertPairs_holds hinsert (holds_empty size) (by
    show size - 1 < List.length _
    rw [hlength]
    omega)
  rw [List.append_nil] at hholds
  constructor
  · intro a b slot
    have hne : table.slots.isEmpty = false := by
      rw [List.isEmpty_eq_false_iff]
      rintro hnil
      rw [hnil, hlength] at hlen
      simp at hlen
      omega
    rw [findBpePair, hne, if_neg (by simp), hholds.find_eq_some_iff, List.mem_reverse]
  · intro p hp q hq hleft hright
    have hmem : ∀ p ∈ pairs, p.entry ∈ (pairs.map InternedPair.entry).reverse := fun p hp =>
      List.mem_reverse.mpr (List.mem_map_of_mem hp)
    have hvalue := hholds.value_unique (k := (p.left, p.right)) (hmem p hp) (by
      have := hmem q hq
      rwa [InternedPair.entry, ← hleft, ← hright] at this)
    exact BpePairSlot.mk.inj hvalue

end

lemma doubledUntil_pos {needed fuel size : ℕ} (h : 0 < size) :
    0 < doubledUntil needed fuel size := by
  induction fuel generalizing size with
  | zero => exact h
  | succ fuel ih =>
    rw [doubledUntil]
    split_ifs
    · exact ih (by omega)
    · exact h

/-! ## The reference -/

/-- A pair of symbols is merged if it is one of the merges. -/
def specPair (merges : List BpeMergeSpec) (a b : Symbol) : Option (ℕ × Symbol) :=
  (merges.find? fun spec => spec.left = a && spec.right = b).map fun spec => (spec.rank, a ++ b)

/-- Byte-pair encoding of a word: start from the symbols of its bytes and merge the leftmost
occurrence of the lowest-ranked pair, until none is left. -/
def segmentation (merges : List BpeMergeSpec) (word : List Byte) : List Symbol :=
  merged (specPair merges) (word.map byteSymbol)

/-- The tokens of a segment. -/
def emitSegment (vocab : Symbol → Option ℕ) (segment : Symbol) : Except String (List ℕ) := do
  let ids ← emitIds vocab segment
  if ids = [] then .error "Tokenizer::encode produced a symbol outside vocabulary" else .ok ids

/-- The symbol with a number. -/
def spell (strs : List Symbol) (internId : ℕ) : Symbol := strs.getD internId []

/-- What the tables say in terms of symbols. -/
structure TablesFor (vocab : Symbol → Option ℕ) (merges : List BpeMergeSpec) (strs : List Symbol)
    (tables : BpeTables) : Prop where
  nodup : strs.Nodup
  find : ∀ a b slot, findBpePair tables.pairTable a b = some slot ↔
    ∃ spec ∈ merges, strs[a]? = some spec.left ∧ strs[b]? = some spec.right ∧
      strs[slot.result]? = some (spec.left ++ spec.right) ∧ slot.rank = spec.rank
  known : ∀ spec ∈ merges, ∃ c : ℕ, strs[c]? = some (spec.left ++ spec.right)
  distinct : ∀ spec ∈ merges, ∀ spec' ∈ merges, spec.left = spec'.left → spec.right = spec'.right →
    spec.rank = spec'.rank
  byte : ∀ b : Byte, ∃ internId : ℕ, tables.byteToInternId[b.toNat]? = some internId ∧
    strs[internId]? = some (byteSymbol b)
  emit : ∀ (internId : ℕ) symbol, strs[internId]? = some symbol → ∃ ids,
    tables.internEmits[internId]? = some ids ∧ emitIds vocab symbol = .ok ids

section

variable {vocab : Symbol → Option ℕ} {merges : List BpeMergeSpec} {tables : BpeTables}
  {strs : List Symbol} {order : List MergePart}

lemma getElem?_allBytes (b : Byte) : allBytes[b.toNat]? = some b := by
  rw [allBytes, List.getElem?_map, List.getElem?_range b.isLt]
  simp

lemma number_unique (hnodup : strs.Nodup) {i j : ℕ} {symbol : Symbol}
    (hi : strs[i]? = some symbol) (hj : strs[j]? = some symbol) : i = j := by
  obtain ⟨hlt, -⟩ := List.getElem?_eq_some_iff.mp hi
  exact (List.getElem?_inj hlt hnodup).mp (hi.trans hj.symm)

/-- The constructor builds such tables. -/
lemma buildBpe_spec (horder : order.Perm [.left, .right, .result])
    (h : buildBpe order vocab merges = .ok tables) :
    ∃ strs, TablesFor vocab merges strs tables := by
  obtain ⟨hinterned, hnames⟩ := internMerges_spec horder [] merges
  rw [buildBpe] at h
  rcases hmerges : internMerges order [] merges with ⟨strs₀, pairs⟩
  rw [hmerges] at h hinterned hnames
  obtain ⟨table, htable, h⟩ := ok_bind_iff.mp h
  obtain ⟨hinterned', hbytes⟩ := internBytes_spec strs₀ allBytes
  rcases hb : internBytes strs₀ allBytes with ⟨strs, byteToInternId⟩
  rw [hb] at h hinterned' hbytes
  obtain ⟨emits, hemits, h⟩ := ok_bind_iff.mp h
  obtain rfl := ok_pure_iff.mp h
  obtain ⟨hfind, hsame⟩ := find_insertPairs (doubledUntil_pos (by decide)) htable
  have hnodup : strs.Nodup := hinterned'.nodup (hinterned.nodup List.nodup_nil)
  -- Every pair belongs to a merge, and every merge has a pair.
  have hspec : ∀ p ∈ pairs, ∃ spec ∈ merges, Names strs p spec := by
    intro p hp
    obtain ⟨i, hi⟩ := List.mem_iff_getElem?.mp hp
    obtain ⟨spec, hspec, hname⟩ := forall₂_getElem? hnames hi
    exact ⟨spec, List.mem_of_getElem? hspec, hname.mono hinterned'⟩
  have hpair : ∀ spec ∈ merges, ∃ p ∈ pairs, Names strs p spec := by
    intro spec hspec
    obtain ⟨i, hi⟩ := List.mem_iff_getElem?.mp hspec
    obtain ⟨p, hp, hname⟩ := forall₂_getElem? hnames.flip hi
    exact ⟨p, List.mem_of_getElem? hp, hname.mono hinterned'⟩
  refine ⟨strs, ⟨hnodup, fun a b slot => ?_, fun spec hspec => ?_, ?_, fun b => ?_, ?_⟩⟩
  · rw [hfind, List.mem_map]
    constructor
    · rintro ⟨p, hp, heq⟩
      obtain ⟨hkey, rfl⟩ := Prod.mk.inj heq
      obtain ⟨rfl, rfl⟩ := Prod.mk.inj hkey
      obtain ⟨spec, hspec, hname⟩ := hspec p hp
      exact ⟨spec, hspec, hname.left, hname.right, hname.result, hname.rank⟩
    · rintro ⟨spec, hspec, hleft, hright, hresult, hrank⟩
      obtain ⟨p, hp, hname⟩ := hpair spec hspec
      obtain rfl := number_unique hnodup hname.left hleft
      obtain rfl := number_unique hnodup hname.right hright
      refine ⟨p, hp, ?_⟩
      rw [InternedPair.entry, number_unique hnodup hname.result hresult, hname.rank, ← hrank]
  · obtain ⟨p, -, hname⟩ := hpair spec hspec
    exact ⟨p.result, hname.result⟩
  · intro spec hspec spec' hspec' hleft hright
    obtain ⟨p, hp, hname⟩ := hpair spec hspec
    obtain ⟨q, hq, hname'⟩ := hpair spec' hspec'
    have hrank := (hsame p hp q hq (number_unique hnodup hname.left (hleft ▸ hname'.left))
      (number_unique hnodup hname.right (hright ▸ hname'.right))).1
    rw [← hname.rank, hrank, hname'.rank]
  · exact forall₂_getElem? hbytes.flip (getElem?_allBytes b)
  · exact fun internId symbol hsymbol => forall₂_getElem? (mapM_ok_iff.mp hemits) hsymbol

/-- Different merges have different ranks. -/
lemma loadBpeMergesFrom_ranks {items : List MergeItem} {rank : ℕ}
    (h : loadBpeMergesFrom rank items = .ok merges) :
    merges.map BpeMergeSpec.rank = List.range' rank merges.length := by
  induction items generalizing rank merges with
  | nil =>
    obtain rfl := Except.ok.inj h
    rfl
  | cons item items ih =>
    obtain ⟨⟨left, right⟩, -, h⟩ := ok_bind_iff.mp h
    obtain ⟨specs, hspecs, h⟩ := ok_bind_iff.mp h
    obtain rfl := ok_pure_iff.mp h
    rw [List.map_cons, List.length_cons, List.range'_succ, ih hspecs]

lemma loadBpeMerges_ranks {items : List MergeItem} (h : loadBpeMerges items = .ok merges) :
    ∀ spec ∈ merges, ∀ spec' ∈ merges, spec.rank = spec'.rank → spec = spec' := by
  have hnodup : (merges.map BpeMergeSpec.rank).Nodup := by
    rw [loadBpeMergesFrom_ranks h]
    exact List.nodup_range'
  exact fun spec hspec spec' hspec' => List.inj_on_of_nodup_map hnodup hspec hspec'

lemma spell_of_getElem? {i : ℕ} {symbol : Symbol} (h : strs[i]? = some symbol) :
    spell strs i = symbol := by
  rw [spell, List.getD_eq_getElem?_getD, h, Option.getD_some]

lemma TablesFor.laws (h : TablesFor vocab merges strs tables)
    (hranks : ∀ spec ∈ merges, ∀ spec' ∈ merges, spec.rank = spec'.rank → spec = spec') :
    TableLaws tables.pairTable fun i => (spell strs i).length := by
  refine ⟨fun a b slot hslot => ?_, fun a b slot a' b' slot' hslot hslot' hrank => ?_⟩
  · obtain ⟨spec, -, ha, hb, hresult, -⟩ := (h.find a b slot).mp hslot
    rw [spell_of_getElem? ha, spell_of_getElem? hb, spell_of_getElem? hresult, List.length_append]
  · obtain ⟨spec, hspec, ha, hb, -, hr⟩ := (h.find a b slot).mp hslot
    obtain ⟨spec', hspec', ha', hb', -, hr'⟩ := (h.find a' b' slot').mp hslot'
    obtain rfl := hranks spec hspec spec' hspec' (by rw [← hr, hrank, hr'])
    exact ⟨number_unique h.nodup ha ha', number_unique h.nodup hb hb'⟩

/-- Numbers are merged as the symbols that they stand for. -/
lemma TablesFor.specPair_spell (h : TablesFor vocab merges strs tables) {a b : ℕ}
    (ha : a < strs.length) (hb : b < strs.length) :
    specPair merges (spell strs a) (spell strs b) =
      (tablePair tables.pairTable a b).map fun m => (m.1, spell strs m.2) := by
  have ha' : strs[a]? = some (spell strs a) := by
    rw [spell, List.getD_eq_getElem?_getD, List.getElem?_eq_getElem ha, Option.getD_some]
  have hb' : strs[b]? = some (spell strs b) := by
    rw [spell, List.getD_eq_getElem?_getD, List.getElem?_eq_getElem hb, Option.getD_some]
  rw [specPair]
  rcases hspec : merges.find? (fun spec => spec.left = spell strs a && spec.right = spell strs b)
    with _ | spec
  · rcases hslot : findBpePair tables.pairTable a b with _ | slot
    · rw [tablePair, hslot, hspec]
      rfl
    · obtain ⟨spec, hmem, hleft, hright, -⟩ := (h.find a b slot).mp hslot
      have hfalse := List.find?_eq_none.mp hspec spec hmem
      rw [spell_of_getElem? hleft, spell_of_getElem? hright] at hfalse
      exact absurd hfalse (by simp)
  · have hmem := List.mem_of_find?_eq_some hspec
    have hfound := List.find?_some hspec
    simp only [Bool.and_eq_true, decide_eq_true_eq] at hfound
    obtain ⟨c, hc⟩ := h.known spec hmem
    have hslot : findBpePair tables.pairTable a b = some ⟨spec.rank, c⟩ :=
      (h.find a b _).mpr ⟨spec, hmem, by rw [ha', hfound.1], by rw [hb', hfound.2], hc, rfl⟩
    rw [tablePair, hslot, hspec]
    simp only [Option.map_some, spell_of_getElem? hc, hfound.1, hfound.2]

lemma byteSymbol_ne_nil (b : Byte) : byteSymbol b ≠ [] := by
  have hread := utf8Iterate_byteSymbol b []
  exact (utf8Iterate_spec hread).1

/-- The bytes of a word have numbers. -/
lemma TablesFor.numbers (h : TablesFor vocab merges strs tables) (word : List Byte) :
    ∃ internIds, wordInternIds tables word = .ok internIds ∧
      internIds.map (spell strs) = word.map byteSymbol ∧ ∀ i ∈ internIds, i < strs.length := by
  induction word with
  | nil => exact ⟨[], rfl, rfl, fun i hi => absurd hi (by simp)⟩
  | cons b word ih =>
    obtain ⟨internIds, hids, hspell, hlt⟩ := ih
    obtain ⟨internId, hbyte, hsymbol⟩ := h.byte b
    refine ⟨internId :: internIds, ?_, ?_, ?_⟩
    · rw [wordInternIds] at hids ⊢
      rw [List.mapM_cons, hbyte]
      exact ok_bind_iff.mpr ⟨internId, rfl, ok_bind_iff.mpr ⟨internIds, hids, rfl⟩⟩
    · rw [List.map_cons, List.map_cons, spell_of_getElem? hsymbol, hspell]
    · exact List.forall_mem_cons.mpr ⟨(List.getElem?_eq_some_iff.mp hsymbol).1, hlt⟩

lemma spell_pos {word : List Byte} {internIds : List ℕ}
    (hspell : internIds.map (spell strs) = word.map byteSymbol) :
    ∀ i ∈ internIds, 0 < (spell strs i).length := by
  intro i hi
  have hmem : spell strs i ∈ word.map byteSymbol := hspell ▸ List.mem_map_of_mem hi
  obtain ⟨b, -, hb⟩ := List.mem_map.mp hmem
  rw [← hb]
  exact List.length_pos_iff.mpr (byteSymbol_ne_nil b)

/-- What the merges of a word's numbers spell. -/
lemma TablesFor.segments_eq (h : TablesFor vocab merges strs tables) {word : List Byte}
    {internIds : List ℕ} (hspell : internIds.map (spell strs) = word.map byteSymbol)
    (hlt : ∀ i ∈ internIds, i < strs.length) :
    segmentation merges word = (merged (tablePair tables.pairTable) internIds).map (spell strs) ∧
      ∀ i ∈ merged (tablePair tables.pairTable) internIds, i < strs.length := by
  have hclosed : ∀ a b k r, a < strs.length → b < strs.length →
      tablePair tables.pairTable a b = some (k, r) → r < strs.length := by
    intro a b k r _ _ hpair
    obtain ⟨spec, -, -, -, hresult, -⟩ := (h.find a b _).mp (tablePair_eq_some.mp hpair)
    exact (List.getElem?_eq_some_iff.mp hresult).1
  constructor
  · rw [segmentation, ← hspell]
    exact merged_map (fun a b ha hb => h.specPair_spell ha hb) hclosed hlt
  · refine merged_induction (P := fun l => ∀ i ∈ l, i < strs.length) (fun l l' hstep hl => ?_) hlt
    obtain ⟨as, a, b, bs, k, r, rfl, hpair, rfl⟩ := step_eq_some hstep
    simp only [List.mem_append, List.mem_cons] at hl ⊢
    rintro i (hi | rfl | hi)
    · exact hl i (.inl hi)
    · exact hclosed a b k i (hl a (.inr (.inl rfl))) (hl b (.inr (.inr (.inl rfl)))) hpair
    · exact hl i (.inr (.inr (.inr hi)))

lemma TablesFor.emitted (h : TablesFor vocab merges strs tables) {i : ℕ} (hi : i < strs.length) :
    emitSymbol tables i = emitSegment vocab (spell strs i) := by
  obtain ⟨ids, hids, hemit⟩ := h.emit i _ (List.getElem?_eq_getElem hi)
  rw [emitSymbol, hids, emitSegment, spell_of_getElem? (List.getElem?_eq_getElem hi), hemit]
  rfl

end

/-! ## A word -/

variable {vocab : Symbol → Option ℕ} {items : List MergeItem} {merges : List BpeMergeSpec}
  {tables : BpeTables} {pop : Heap}

/-- The nodes that are linked in a state of the loop for long words. -/
def Merging.linkedNodes (s : Merging) (size : ℕ) : List ℕ := walk s.nodes.next size 0

lemma ChainOf.walk_eq {nodes : Nodes} {is : List ℕ} (h : ChainOf nodes is) {size : ℕ}
    (hsize : is.length ≤ size) : walk nodes.next size 0 = is := by
  have hhead := h.head
  match is with
  | i :: is =>
    obtain rfl := Option.some.inj hhead
    exact walk_of_linked h.linked hsize

/-- The tokens that are appended are those of the segments. -/
lemma TablesFor.appended {strs : List Symbol} (h : TablesFor vocab merges strs tables)
    (hlaws : TableLaws tables.pairTable fun i => (spell strs i).length) (hpop : pop.Lawful)
    (word : List Byte) :
    appendBpeWord pop tables word =
      (segmentation merges word).mapM (emitSegment vocab) >>= fun emitted =>
        pure emitted.flatten := by
  by_cases hword : word = []
  · subst hword
    rfl
  obtain ⟨internIds, hids, hspell, hlt⟩ := h.numbers word
  obtain ⟨hsegments, hmerged⟩ := h.segments_eq hspell hlt
  have hlength : internIds.length = word.length := by simpa using congrArg List.length hspell
  have hne : internIds ≠ [] := by
    rintro rfl
    exact hword (List.length_eq_zero_iff.mp hlength.symm)
  obtain ⟨is, hchain, hle, hsymbols⟩ := mergeWord_spec hlaws hpop hne (spell_pos hspell)
  rw [appendBpeWord, if_neg hword, hids]
  set nodes := mergeWord pop tables.pairTable internIds
  change ((walk nodes.next word.length 0).mapM fun index =>
    emitSymbol tables (nodes index).internId) >>= (fun emitted => pure emitted.flatten) = _
  rw [hchain.walk_eq (by omega), hsegments, ← hsymbols, symbolsOf, List.mapM_map, List.mapM_map]
  refine congrArg (· >>= _) (mapM_congr fun i hi => ?_)
  refine h.emitted (hmerged _ ?_)
  rw [← hsymbols]
  exact List.mem_map_of_mem hi

/-- **Byte-pair encoding of a word.**  The tokens that `append_bpe_word` appends are those of the
segments that the merges leave, whichever loop merges the word and in whichever order the compiler
numbers the symbols.  In every state of the loop for long
words, a candidate that is popped is applied if and only if it is a pair that can be merged at the
moment, and every such pair has a candidate that would be applied. -/
theorem append_bpe_word_reference (hload : loadBpeMerges items = .ok merges)
    (horder : order.Perm [.left, .right, .result])
    (hbuild : buildBpe order vocab merges = .ok tables) (hpop : pop.Lawful) (word : List Byte) :
    appendBpeWord pop tables word =
        ((segmentation merges word).mapM (emitSegment vocab) >>= fun emitted =>
          pure emitted.flatten) ∧
      (64 < word.length → ∃ internIds, wordInternIds tables word = .ok internIds ∧
        ∀ s, Merging.Reached pop tables.pairTable internIds s →
          (∀ c rest, pop s.candidates = some (c, rest) →
            (s.nodes.applies c = true ↔
              IsPresent tables.pairTable s.nodes (s.linkedNodes word.length) c)) ∧
          ∀ l r slot, Adjacent (s.linkedNodes word.length) l r →
            slotOf tables.pairTable s.nodes l r = some slot →
            ∃ c ∈ s.candidates, s.nodes.applies c = true ∧
              c.left = l ∧ c.right = r ∧ c.rank = slot.rank ∧ c.result = slot.result) := by
  obtain ⟨strs, h⟩ := buildBpe_spec horder hbuild
  have hlaws := h.laws (loadBpeMerges_ranks hload)
  refine ⟨h.appended hlaws hpop word, fun hlong => ?_⟩
  obtain ⟨internIds, hids, hspell, hlt⟩ := h.numbers word
  have hlength : internIds.length = word.length := by simpa using congrArg List.length hspell
  have hne : internIds ≠ [] := by
    rintro rfl
    rw [← hlength, List.length_nil] at hlong
    omega
  refine ⟨internIds, hids, fun s hs => ?_⟩
  obtain ⟨is, hsound, hle⟩ := hs.heapSound hlaws hpop hne (spell_pos hspell)
  have hlinked : s.linkedNodes word.length = is := hsound.chain.walk_eq (by omega)
  rw [hlinked]
  refine ⟨fun c rest hc => ?_, fun l r slot hadjacent hslot => ?_⟩
  · exact hsound.applies_iff hlaws ((hpop.perm _ _ _ hc).mem_iff.mpr List.mem_cons_self)
  · refine ⟨_, hsound.complete l r slot hadjacent hslot, ?_, rfl, rfl, rfl, rfl⟩
    exact applies_eq_true.mpr ⟨hsound.chain.next_of_adjacent hadjacent, rfl, rfl⟩

/-! ## A heap -/

/-- The least candidate. -/
def leastCandidate : Candidate → List Candidate → Candidate
  | c, [] => c
  | c, d :: candidates => leastCandidate (if c.later d then d else c) candidates

/-- A heap that looks for the least candidate. -/
def popLeast : Heap
  | [] => none
  | c :: candidates =>
    let least := leastCandidate c candidates
    some (least, (c :: candidates).erase least)

lemma leastCandidate_mem (c : Candidate) (candidates : List Candidate) :
    leastCandidate c candidates ∈ c :: candidates := by
  induction candidates generalizing c with
  | nil => exact List.mem_singleton.mpr rfl
  | cons d candidates ih =>
    rw [leastCandidate]
    have hmem := ih (if c.later d then d else c)
    rw [List.mem_cons] at hmem ⊢
    rw [List.mem_cons]
    rcases hmem with heq | hmem
    · rw [heq]
      split_ifs
      · exact .inr (.inl rfl)
      · exact .inl rfl
    · exact .inr (.inr hmem)

lemma leastCandidate_first (c : Candidate) (candidates : List Candidate) :
    ∀ d ∈ c :: candidates, (leastCandidate c candidates).later d = false := by
  induction candidates generalizing c with
  | nil =>
    intro d hd
    rw [List.mem_singleton.mp hd]
    exact later_eq_false.mpr (.inr ⟨rfl, Nat.le_refl _⟩)
  | cons d candidates ih =>
    have hfirst := ih (if c.later d then d else c)
    have hnext := hfirst _ List.mem_cons_self
    -- The smaller of the first two is not after either of them.
    have htrans : ∀ e : Candidate, (if c.later d then d else c).later e = false →
        (leastCandidate (if c.later d then d else c) candidates).later e = false := by
      intro e he
      rw [later_eq_false] at he hnext ⊢
      omega
    intro e he
    rcases List.mem_cons.mp he with rfl | he
    · refine htrans _ ?_
      split_ifs with hlater
      · rw [later_eq_false]
        have hnot : ¬(e.later d = false) := by simp [hlater]
        rw [later_eq_false] at hnot
        omega
      · exact later_eq_false.mpr (.inr ⟨rfl, Nat.le_refl _⟩)
    · rcases List.mem_cons.mp he with rfl | he
      · refine htrans _ ?_
        split_ifs with hlater
        · exact later_eq_false.mpr (.inr ⟨rfl, Nat.le_refl _⟩)
        · simpa using hlater
      · exact hfirst e (List.mem_cons_of_mem _ he)

lemma popLeast_lawful : popLeast.Lawful := by
  have hpop : ∀ candidates c rest, popLeast candidates = some (c, rest) →
      candidates.Perm (c :: rest) ∧ ∀ d ∈ candidates, c.later d = false := by
    intro candidates c rest h
    match candidates with
    | d :: candidates =>
      obtain ⟨rfl, rfl⟩ := Prod.mk.inj (Option.some.inj h)
      exact ⟨List.perm_cons_erase (leastCandidate_mem d candidates),
        leastCandidate_first d candidates⟩
  refine ⟨fun candidates h => ?_, fun candidates c rest h => (hpop candidates c rest h).1,
    fun candidates c rest h d hd => ?_⟩
  · match candidates with
    | [] => rfl
    | c :: candidates => exact absurd h (by simp [popLeast])
  · obtain ⟨hperm, hfirst⟩ := hpop candidates c rest h
    exact hfirst d (hperm.mem_iff.mpr (List.mem_cons_of_mem _ hd))

lemma buildBpe_eq {strs₀ strs : List Symbol} {pairs : List InternedPair} {table : BpePairTable}
    {byteToInternId : List ℕ} {emits : List (List ℕ)}
    (hmerges : internMerges order [] merges = (strs₀, pairs))
    (htable : insertPairs ⟨List.replicate (bpeTableSize pairs.length) none,
      bpeTableSize pairs.length - 1⟩ pairs = .ok table)
    (hbytes : internBytes strs₀ allBytes = (strs, byteToInternId))
    (hemits : strs.mapM (emitIds vocab) = .ok emits) :
    buildBpe order vocab merges = .ok ⟨table, byteToInternId, emits⟩ := by
  rw [buildBpe, hmerges]
  refine ok_bind_iff.mpr ⟨table, htable, ?_⟩
  rw [hbytes]
  exact ok_bind_iff.mpr ⟨emits, hemits, rfl⟩

/-- A vocabulary in which every symbol is a token, with one merge and the arguments evaluated from
right to left. -/
lemma buildBpe_one : ∃ tables,
    buildBpe [.result, .right, .left] (fun _ => some 0) [⟨[104#8], [105#8], 0⟩] = .ok tables := by
  have hemits : ∀ strs : List Symbol,
      strs.mapM (emitIds fun _ => some 0) = .ok (strs.map fun _ => [0]) := by
    intro strs
    induction strs with
    | nil => rfl
    | cons s strs ih =>
      rw [List.mapM_cons, ih]
      rfl
  have hmerges : internMerges [.result, .right, .left] [] [⟨[104#8], [105#8], 0⟩] =
      ([[104#8, 105#8], [105#8], [104#8]], [⟨2, 1, 0, 0⟩]) := rfl
  obtain ⟨table, htable⟩ :
      ∃ table, insertPairs ⟨List.replicate 8 none, 8 - 1⟩ [⟨2, 1, 0, 0⟩] = .ok table := by
    exact ⟨_, rfl⟩
  obtain ⟨⟨strs, byteToInternId⟩, hbytes⟩ :
      ∃ interned, internBytes [[104#8, 105#8], [105#8], [104#8]] allBytes = interned := ⟨_, rfl⟩
  exact ⟨_, buildBpe_eq hmerges htable hbytes (hemits strs)⟩

/-- A word of 66 bytes, which goes through the loop with the heap and becomes 33 tokens. -/
theorem append_bpe_word_reference_long :
    loadBpeMerges [.line [104#8, 32#8, 105#8]] = .ok [⟨[104#8], [105#8], 0⟩] ∧
      ∃ tables,
        buildBpe [.result, .right, .left] (fun _ => some 0) [⟨[104#8], [105#8], 0⟩] = .ok tables ∧
        appendBpeWord popLeast tables (List.replicate 33 [104#8, 105#8]).flatten =
          .ok (List.replicate 33 0) := by
  obtain ⟨tables, htables⟩ := buildBpe_one
  have hload : loadBpeMerges [.line [104#8, 32#8, 105#8]] = .ok [⟨[104#8], [105#8], 0⟩] := rfl
  have hword := (append_bpe_word_reference hload (by decide) htables popLeast_lawful
    (List.replicate 33 [104#8, 105#8]).flatten).1
  refine ⟨hload, tables, htables, hword.trans ?_⟩
  decide +kernel

end NInfer.Frontend
