import NInfer.Foundation.LinkedChain
import NInfer.Foundation.OpenAddressing
import NInfer.Text.ByteLevel

/-!
# Byte-pair encoding

The tables and the merge loops of `tokenizer.cpp`.  The constructor reads the merges in the order of
their rank, gives every symbol that they mention a number, and stores the pairs in a hash table with
open addressing.  `append_bpe_word` starts from one node per byte, linked in both directions, and
merges neighbours: a short word by looking for the lowest rank each time, a long one with a heap of
candidates.  A candidate carries the generations that its two nodes had when it was pushed, and is
dropped if they have changed since.

Symbols are strings over the byte-level alphabet.  The 64-bit key of a pair packs the numbers of two
symbols, so it is the pair of numbers here, and an empty slot has no key.  The standard heap is
given by what it pops (`Heap`), and no order among equal candidates is assumed.
-/

namespace NInfer.Frontend

open NInfer.Text OpenAddressing

/-- A string over the byte-level alphabet. -/
abbrev Symbol := List Byte

/-! ## The pair table -/

/-- What a slot holds beside its key. -/
structure BpePairSlot where
  rank : ℕ
  result : ℕ
  deriving DecidableEq, Repr

structure BpePairTable where
  slots : Slots (ℕ × ℕ) BpePairSlot
  mask : ℕ

def packBpePair (left right : ℕ) : BitVec 64 :=
  (BitVec.ofNat 64 (left % 2 ^ 32) <<< 32) ||| BitVec.ofNat 64 (right % 2 ^ 32)

def hashBpeKey (key : BitVec 64) : BitVec 64 :=
  let key := key ^^^ (key >>> 30)
  let key := key * 0xbf58476d1ce4e5b9#64
  let key := key ^^^ (key >>> 27)
  let key := key * 0x94d049bb133111eb#64
  key ^^^ (key >>> 31)

/-- The doubling loop of `bpe_table_size`. -/
def doubledUntil (needed : ℕ) : (fuel size : ℕ) → ℕ
  | 0, size => size
  | fuel + 1, size => if size < needed then doubledUntil needed fuel (size * 2) else size

def bpeTableSize (pairCount : ℕ) : ℕ := doubledUntil (pairCount * 2 + 1) (pairCount * 2 + 1) 8

/-- Where the probing for a pair starts. -/
def BpePairTable.start (mask : ℕ) (key : ℕ × ℕ) : ℕ :=
  (hashBpeKey (packBpePair key.1 key.2)).toNat &&& mask

/-- The slot that is probed next. -/
def BpePairTable.advance (mask index : ℕ) : ℕ := (index + 1) &&& mask

def insertBpePair (table : BpePairTable) (key : ℕ × ℕ) (rank result : ℕ) :
    Except String BpePairTable :=
  match insert (BpePairTable.advance table.mask) table.slots key ⟨rank, result⟩
      table.slots.length (BpePairTable.start table.mask key) with
  | .ok slots => .ok { table with slots := slots }
  | .error .duplicate => .error "duplicate merge pair in model.merges"
  | .error .full => .error "BPE pair table is full"

def findBpePair (table : BpePairTable) (left right : ℕ) : Option BpePairSlot :=
  if table.slots.isEmpty then none
  else
    find (BpePairTable.advance table.mask) table.slots (left, right) table.slots.length
      (BpePairTable.start table.mask (left, right))

/-! ## Merges -/

/-- An entry of `model.merges`: a pair, a line with a space in it, or something else. -/
inductive MergeItem where
  | pair (left right : Symbol)
  | line (pair : Symbol)
  | other

structure BpeMergeSpec where
  left : Symbol
  right : Symbol
  rank : ℕ
  deriving DecidableEq, Repr

/-- The two symbols of an entry. -/
def mergeSymbols : MergeItem → Except String (Symbol × Symbol)
  | .pair left right => .ok (left, right)
  | .line pair =>
    match pair.idxOf? 32#8 with
    | none => .error "malformed model.merges entry in tokenizer.json"
    | some space =>
      if space = 0 ∨ pair.length ≤ space + 1 ∨ 32#8 ∈ pair.drop (space + 1) then
        .error "malformed model.merges entry in tokenizer.json"
      else .ok (pair.take space, pair.drop (space + 1))
  | .other => .error "field model.merges must contain symbol pairs in tokenizer.json"

/-- The loop of `load_bpe_merges`, with the next rank. -/
def loadBpeMergesFrom : ℕ → List MergeItem → Except String (List BpeMergeSpec)
  | _, [] => .ok []
  | rank, item :: items => do
    let (left, right) ← mergeSymbols item
    let specs ← loadBpeMergesFrom (rank + 1) items
    pure (⟨left, right, rank⟩ :: specs)

def loadBpeMerges (items : List MergeItem) : Except String (List BpeMergeSpec) :=
  loadBpeMergesFrom 0 items

/-! ## The tables of the tokenizer -/

/-- `intern_symbol`: the number of a symbol, which is its place in `intern_str`. -/
def internSymbol (internStr : List Symbol) (symbol : Symbol) : List Symbol × ℕ :=
  match internStr.idxOf? symbol with
  | some internId => (internStr, internId)
  | none => (internStr ++ [symbol], internStr.length)

/-- A pair with its symbols as numbers. -/
structure InternedPair where
  left : ℕ
  right : ℕ
  result : ℕ
  rank : ℕ

/-- The symbols of a merge that get a number. -/
inductive MergePart where
  | left
  | right
  | result
  deriving DecidableEq

def BpeMergeSpec.symbol (spec : BpeMergeSpec) : MergePart → Symbol
  | .left => spec.left
  | .right => spec.right
  | .result => spec.left ++ spec.right

/-- The calls of `intern_symbol` for a merge.  They are arguments of one call, so their `order` is
the compiler's choice. -/
def internParts (spec : BpeMergeSpec) :
    (order : List MergePart) → List Symbol → (MergePart → ℕ) → List Symbol × (MergePart → ℕ)
  | [], internStr, internIds => (internStr, internIds)
  | part :: order, internStr, internIds =>
    let (internStr, internId) := internSymbol internStr (spec.symbol part)
    internParts spec order internStr (Function.update internIds part internId)

/-- The loop over the merges. -/
def internMerges (order : List MergePart) :
    List Symbol → List BpeMergeSpec → List Symbol × List InternedPair
  | internStr, [] => (internStr, [])
  | internStr, spec :: specs =>
    let (internStr, internIds) := internParts spec order internStr 0
    let (internStr, pairs) := internMerges order internStr specs
    (internStr, ⟨internIds .left, internIds .right, internIds .result, spec.rank⟩ :: pairs)

/-- The loop over the bytes: their symbols get numbers too. -/
def internBytes : List Symbol → List Byte → List Symbol × List ℕ
  | internStr, [] => (internStr, [])
  | internStr, b :: bytes =>
    let (internStr, internId) := internSymbol internStr (byteSymbol b)
    let (internStr, internIds) := internBytes internStr bytes
    (internStr, internId :: internIds)

/-- The tokens that a symbol stands for: itself if it is in the vocabulary, else its characters, if
all of them are; none otherwise. -/
def emitIds (vocab : Symbol → Option ℕ) (symbol : Symbol) : Except String (List ℕ) :=
  match vocab symbol with
  | some id => .ok [id]
  | none =>
    match utf8Codepoints symbol with
    | none => .error "invalid UTF-8 in Tokenizer intern emit: Invalid UTF-8 string"
    | some pieces =>
      if 1 < pieces.length then .ok ((pieces.mapM fun piece => vocab piece.bytes).getD [])
      else .ok []

/-- Insert all pairs. -/
def insertPairs (table : BpePairTable) : List InternedPair → Except String BpePairTable
  | [] => .ok table
  | p :: pairs => do
    let table ← insertBpePair table (p.left, p.right) p.rank p.result
    insertPairs table pairs

/-- All bytes in order. -/
def allBytes : List Byte := (List.range 256).map (BitVec.ofNat 8)

/-- The members of `Tokenizer` that merging uses.  `byte_to_intern_id_` has a number for every byte,
and `internEmits` has the part of `intern_emit_ids_` between the offsets of a symbol. -/
structure BpeTables where
  pairTable : BpePairTable
  byteToInternId : List ℕ
  internEmits : List (List ℕ)

/-- The part of the constructor that builds them. -/
def buildBpe (order : List MergePart) (vocab : Symbol → Option ℕ) (merges : List BpeMergeSpec) :
    Except String BpeTables := do
  let (internStr, pairs) := internMerges order [] merges
  let size := bpeTableSize pairs.length
  let table ← insertPairs ⟨List.replicate size none, size - 1⟩ pairs
  let (internStr, byteToInternId) := internBytes internStr allBytes
  let internEmits ← internStr.mapM (emitIds vocab)
  pure ⟨table, byteToInternId, internEmits⟩

/-! ## Nodes -/

structure Node where
  internId : ℕ
  prev : Option ℕ
  next : Option ℕ
  generation : ℕ

/-- The array of nodes. -/
structure Nodes where
  node : ℕ → Node

instance : CoeFun Nodes fun _ => ℕ → Node := ⟨Nodes.node⟩

def Nodes.set (nodes : Nodes) (index : ℕ) (n : Node) : Nodes := ⟨Function.update nodes.node index n⟩

/-- One node per byte, each linked to its neighbours. -/
def initialNodes (internIds : List ℕ) : Nodes where
  node index :=
    { internId := internIds.getD index 0
      prev := if index = 0 then none else some (index - 1)
      next := if index + 1 < internIds.length then some (index + 1) else none
      generation := 0 }

def Nodes.next (nodes : Nodes) (index : ℕ) : Option ℕ := (nodes index).next

/-- Let the left node stand for the pair and take the right one out of the chain. -/
def Nodes.join (nodes : Nodes) (left right result : ℕ) : Nodes :=
  let after := (nodes right).next
  let joined := nodes.set left { nodes left with internId := result, next := after }
  match after with
  | none => joined
  | some index => joined.set index { joined index with prev := some left }

/-- The generations of two nodes count one more. -/
def Nodes.bump (nodes : Nodes) (left right : ℕ) : Nodes :=
  let bumped := nodes.set left { nodes left with generation := (nodes left).generation + 1 }
  bumped.set right { bumped right with generation := (bumped right).generation + 1 }

/-! ## Short words -/

/-- The best pair so far: the slot and the left node. -/
structure BestPair where
  slot : BpePairSlot
  left : ℕ

/-- The scan for the lowest rank, from a node on. -/
def scanBest (table : BpePairTable) (nodes : Nodes) :
    (fuel index : ℕ) → Option BestPair → Option BestPair
  | 0, _, best => best
  | fuel + 1, index, best =>
    match (nodes index).next with
    | none => best
    | some right =>
      scanBest table nodes fuel right <|
        match findBpePair table (nodes index).internId (nodes right).internId with
        | none => best
        | some slot =>
          if best.all fun b => slot.rank < b.slot.rank then some ⟨slot, index⟩ else best

/-- Merge the best pair as long as there is one; `size` is the number of nodes. -/
def mergeShort (table : BpePairTable) (size : ℕ) : ℕ → Nodes → Nodes
  | 0, nodes => nodes
  | fuel + 1, nodes =>
    match scanBest table nodes size 0 none with
    | none => nodes
    | some best =>
      match (nodes best.left).next with
      | none => nodes
      | some right =>
        mergeShort table size fuel (nodes.join best.left right best.slot.result)

/-! ## Long words -/

structure Candidate where
  rank : ℕ
  left : ℕ
  right : ℕ
  result : ℕ
  leftGeneration : ℕ
  rightGeneration : ℕ
  deriving DecidableEq, Repr

/-- `BpeScratch::Later`. -/
def Candidate.later (a b : Candidate) : Bool :=
  b.rank < a.rank || (a.rank = b.rank && b.left < a.left)

/-- What `std::pop_heap` makes of the candidates. -/
abbrev Heap := List Candidate → Option (Candidate × List Candidate)

/-- A heap gives back its elements, none before one that it should follow. -/
structure Heap.Lawful (pop : Heap) : Prop where
  nonempty : ∀ candidates, pop candidates = none → candidates = []
  perm : ∀ candidates c rest, pop candidates = some (c, rest) → candidates.Perm (c :: rest)
  first : ∀ candidates c rest, pop candidates = some (c, rest) → ∀ d ∈ rest, c.later d = false

/-- The candidate for a node and its successor. -/
def candidateAt (table : BpePairTable) (nodes : Nodes) : Option ℕ → List Candidate
  | none => []
  | some left =>
    match (nodes left).next with
    | none => []
    | some right =>
      match findBpePair table (nodes left).internId (nodes right).internId with
      | none => []
      | some slot =>
        [⟨slot.rank, left, right, slot.result, (nodes left).generation, (nodes right).generation⟩]

/-- The nodes and the heap of a long word. -/
structure Merging where
  nodes : Nodes
  candidates : List Candidate

/-- A candidate that was popped is applied if nothing has happened to its nodes. -/
def Nodes.applies (nodes : Nodes) (merge : Candidate) : Bool :=
  (nodes merge.left).next = some merge.right &&
    (nodes merge.left).generation = merge.leftGeneration &&
    (nodes merge.right).generation = merge.rightGeneration

/-- Apply a candidate and push those of the two pairs that are new. -/
def Merging.apply (table : BpePairTable) (nodes : Nodes) (merge : Candidate)
    (candidates : List Candidate) : Merging :=
  let nodes := (nodes.bump merge.left merge.right).join merge.left merge.right merge.result
  ⟨nodes, candidateAt table nodes (some merge.left) ++
    (candidateAt table nodes (nodes merge.left).prev ++ candidates)⟩

/-- One round of the loop; `none` when the heap is empty. -/
def Merging.step (pop : Heap) (table : BpePairTable) (s : Merging) : Option Merging :=
  match pop s.candidates with
  | none => none
  | some (merge, candidates) =>
    if s.nodes.applies merge then some (.apply table s.nodes merge candidates)
    else some { s with candidates := candidates }

def Merging.run (pop : Heap) (table : BpePairTable) : ℕ → Merging → Nodes
  | 0, s => s.nodes
  | fuel + 1, s =>
    match s.step pop table with
    | none => s.nodes
    | some s' => Merging.run pop table fuel s'

/-- All pairs of neighbours are candidates at first. -/
def Merging.initial (table : BpePairTable) (internIds : List ℕ) : Merging :=
  let nodes := initialNodes internIds
  ⟨nodes, (List.range (internIds.length - 1)).flatMap fun index =>
    candidateAt table nodes (some index)⟩

/-- Every round uses up a candidate, and one that merges two nodes adds at most two. -/
def mergeLong (pop : Heap) (table : BpePairTable) (internIds : List ℕ) : Nodes :=
  Merging.run pop table (3 * internIds.length) (.initial table internIds)

/-! ## A word -/

/-- The tokens of a symbol. -/
def emitSymbol (tables : BpeTables) (internId : ℕ) : Except String (List ℕ) :=
  match tables.internEmits[internId]? with
  | none => .error "Tokenizer::encode produced a symbol outside vocabulary"
  | some ids =>
    if ids = [] then .error "Tokenizer::encode produced a symbol outside vocabulary" else .ok ids

/-- The numbers of the symbols of a word's bytes. -/
def wordInternIds (tables : BpeTables) (word : List Byte) : Except String (List ℕ) :=
  word.mapM fun byte =>
    match tables.byteToInternId[byte.toNat]? with
    | none => .error "Tokenizer::encode produced byte outside vocabulary"
    | some internId => .ok internId

/-- The nodes after merging. -/
def mergeWord (pop : Heap) (table : BpePairTable) (internIds : List ℕ) : Nodes :=
  if internIds.length ≤ 64 then
    mergeShort table internIds.length internIds.length (initialNodes internIds)
  else mergeLong pop table internIds

/-- `append_bpe_word`: the tokens that it appends. -/
def appendBpeWord (pop : Heap) (tables : BpeTables) (word : List Byte) : Except String (List ℕ) :=
  if word = [] then .ok []
  else do
    let internIds ← wordInternIds tables word
    let nodes := mergeWord pop tables.pairTable internIds
    let emitted ← (walk nodes.next word.length 0).mapM fun index =>
      emitSymbol tables (nodes index).internId
    pure emitted.flatten

end NInfer.Frontend
