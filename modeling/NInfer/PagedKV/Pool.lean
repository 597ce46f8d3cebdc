import NInfer.Foundation.Throwing

/-!
# The paged KV pool and its allocations

A `PagedKVPool` owns `page_group_count` physical page groups and a table of block-table rows.  A
`PagedKVAllocation` is the movable owner of an *entitlement* (how many pages it may map) and of the
pages it has mapped so far, and may be bound to one block-table row.  The functions below are
those of `core/paged_kv_cache.cpp`, under the same words.

Objects live in a `Heap`: the pools, indexed by an arbitrary type `ι` of pool addresses, and the
list of allocation objects constructed so far, addressed by position.  A destroyed or moved-from
allocation stays in the list as the empty object `{}`, so an address is never reused.

Counters are `uint32`.  The two running counters of a pool are only ever decreased through
`counterSub`, which computes modulo `2 ^ 32` as the code does and records in the ghost field
`Heap.wrapped` that a subtraction has wrapped.  The copy of a block-table range to the device can
fail; its outcome is an argument (`copied`) of the operations that publish, and so is the outcome
of the host allocations that a reservation or a bundle makes (`hosted`).
-/

namespace NInfer.PagedKV

open Throwing

/-- Tokens per page (`kPagedKVPageSize`). -/
def kPagedKVPageSize : ℕ := 64

/-- The largest `int32`, the bound `checked_i32` enforces on page counts. -/
def int32Max : ℕ := 2 ^ 31 - 1

/-- The shape of a pool, as `plan_paged_kv_pool` accepts it. -/
structure PagedKVPoolSpec where
  pageGroupCount : ℕ
  logicalPageCapacity : ℕ
  tableRows : ℕ
  pageGroupCount_pos : 0 < pageGroupCount
  pageGroupCount_le : pageGroupCount ≤ int32Max
  logicalPageCapacity_pos : 0 < logicalPageCapacity
  logicalPageCapacity_le : logicalPageCapacity ≤ int32Max
  tableRows_pos : 0 < tableRows

structure PagedKVPool where
  spec : PagedKVPoolSpec
  /-- Device memory: the page recorded for a row and a logical page index. -/
  blockTables : ℕ → ℕ → ℕ
  freePageIds : List ℕ
  rowInUse : List Bool
  entitledPages : ℕ
  mappedPages : ℕ

/-- The constructor of `PagedKVPool`; the block tables are whatever the device memory held. -/
def PagedKVPool.create (spec : PagedKVPoolSpec) (blockTables : ℕ → ℕ → ℕ) : PagedKVPool where
  spec := spec
  blockTables := blockTables
  freePageIds := List.range spec.pageGroupCount
  rowInUse := List.replicate spec.tableRows false
  entitledPages := 0
  mappedPages := 0

/-- An allocation object; the defaults are those of the default constructor. -/
structure PagedKVAllocation (ι : Type) where
  pool : Option ι := none
  pageIds : List ℕ := []
  pageEntitlement : ℕ := 0
  boundRow : ℤ := -1
  deriving DecidableEq

/-- `mapped_page_count`. -/
def PagedKVAllocation.mappedPageCount {ι : Type} (x : PagedKVAllocation ι) : ℕ := x.pageIds.length

/-- What the operations throw. -/
inductive KVError where
  | badAlloc
  | invalidArgument (what : String)
  | logicError (what : String)
  | outOfRange (what : String)
  | cudaError
  deriving DecidableEq

structure Heap (ι : Type) where
  pools : ι → PagedKVPool
  allocations : List (PagedKVAllocation ι)
  /-- Ghost: some counter subtraction has wrapped around. -/
  wrapped : Bool

/-- Operations on the heap. -/
abbrev KV (ι : Type) (α : Type) := Throwing (Heap ι) KVError α

variable {ι : Type} [DecidableEq ι]

/-! ## Memory accesses -/

def load (a : ℕ) : KV ι (PagedKVAllocation ι) := do
  return (← get).allocations.getD a {}

def store (a : ℕ) (x : PagedKVAllocation ι) : KV ι Unit :=
  modify fun h => { h with allocations := h.allocations.set a x }

/-- Construct an allocation object at a fresh address. -/
def construct (x : PagedKVAllocation ι) : KV ι ℕ := do
  let h ← get
  modify fun h => { h with allocations := h.allocations ++ [x] }
  return h.allocations.length

def loadPool (p : ι) : KV ι PagedKVPool := do
  return (← get).pools p

def modifyPool (p : ι) (f : PagedKVPool → PagedKVPool) : KV ι Unit :=
  modify fun h => { h with pools := Function.update h.pools p (f (h.pools p)) }

/-- `a - b` on `uint32` counters. -/
def counterSub (a b : ℕ) : KV ι ℕ := do
  modify fun h => { h with wrapped := h.wrapped || a < b }
  return (a + 2 ^ 32 - b) % 2 ^ 32

/-! ## The pool -/

/-- `can_reserve`. -/
def canReserve (p : ι) (pageEntitlement : ℕ) : KV ι Bool := do
  let pool ← loadPool p
  let spare ← counterSub pool.spec.pageGroupCount pool.entitledPages
  return pageEntitlement ≠ 0 ∧ pageEntitlement ≤ pool.spec.logicalPageCapacity ∧
    pageEntitlement ≤ spare

/-- `can_replace_entitlement`. -/
def canReplaceEntitlement (p : ι) (oldPages newPages : ℕ) : KV ι Bool := do
  let pool ← loadPool p
  if oldPages ≤ pool.entitledPages then
    let others ← counterSub pool.entitledPages oldPages
    let spare ← counterSub pool.spec.pageGroupCount others
    return newPages ≤ pool.spec.logicalPageCapacity ∧ newPages ≤ spare
  else
    return false

/-- `add_entitlement`. -/
def addEntitlement (p : ι) (pages : ℕ) : KV ι Unit :=
  modifyPool p fun pool => { pool with entitledPages := (pool.entitledPages + pages) % 2 ^ 32 }

/-- `replace_entitlement`. -/
def replaceEntitlement (p : ι) (oldPages newPages : ℕ) : KV ι Unit := do
  let pool ← loadPool p
  let others ← counterSub pool.entitledPages oldPages
  modifyPool p fun pool => { pool with entitledPages := (others + newPages) % 2 ^ 32 }

/-- `reserve`; `hosted` is whether the host vector of the allocation can be reserved. -/
def reserve (p : ι) (pageEntitlement : ℕ) (hosted : Bool) : KV ι ℕ := do
  let fits ← canReserve p pageEntitlement
  throwIf (fits = false) .badAlloc
  throwIf (hosted = false) .badAlloc
  let a ← construct { pool := some p, pageEntitlement := pageEntitlement }
  addEntitlement p pageEntitlement
  return a

/-- The lambda `run_at` of `take_pages`: `count` consecutive page ids stand from `first` on. -/
def runAt (free : List ℕ) (count first : ℕ) : Bool :=
  first + count ≤ free.length &&
    (List.range' 1 (count - 1)).all fun offset =>
      free.getD (first + offset) 0 == free.getD first 0 + offset

/-- The position `selected` computed by `take_pages`: the run starting at the preferred page if
there is one, else the first run, else the length of the free list. -/
def selectRun (free : List ℕ) (count : ℕ) (preferredFirst : ℤ) : ℕ :=
  let lowerBound := free.findIdx fun page : ℕ => preferredFirst ≤ page
  if 0 ≤ preferredFirst ∧ free[lowerBound]?.map Int.ofNat = some preferredFirst ∧
      runAt free count lowerBound then
    lowerBound
  else
    ((List.range (free.length + 1 - count)).find? (runAt free count)).getD free.length

/-- `take_pages`. -/
def takePages (p : ι) (count : ℕ) (preferredFirst : ℤ) : KV ι (List ℕ) := do
  let pool ← loadPool p
  if count = 0 then
    return []
  else
    throwIf (count > pool.freePageIds.length)
      (.logicError "Paged KV entitlement could not be materialized")
    let selected := selectRun pool.freePageIds count preferredFirst
    let first := if selected = pool.freePageIds.length then 0 else selected
    modifyPool p fun pool =>
      { pool with
        freePageIds := pool.freePageIds.take first ++ pool.freePageIds.drop (first + count)
        mappedPages := (pool.mappedPages + count) % 2 ^ 32 }
    return (pool.freePageIds.drop first).take count

/-- `return_pages`. -/
def returnPages (p : ι) (pages : List ℕ) : KV ι Unit := do
  if pages = [] then
    return ()
  else
    let pool ← loadPool p
    let mapped ← counterSub pool.mappedPages pages.length
    modifyPool p fun pool =>
      { pool with
        freePageIds := (pool.freePageIds ++ pages).insertionSort (· ≤ ·)
        mappedPages := mapped }

/-- `acquire_row`. -/
def acquireRow (p : ι) (row : ℤ) : KV ι Unit := do
  let pool ← loadPool p
  throwIf (row < 0 ∨ row ≥ pool.spec.tableRows)
    (.outOfRange "Paged KV block-table row out of range")
  throwIf (pool.rowInUse.getD row.toNat false = true)
    (.logicError "Paged KV block-table row is already bound")
  modifyPool p fun pool => { pool with rowInUse := pool.rowInUse.set row.toNat true }

/-- `release_row`. -/
def releaseRow (p : ι) (row : ℤ) : KV ι Unit :=
  modifyPool p fun pool => { pool with rowInUse := pool.rowInUse.set row.toNat false }

/-! ## The allocation -/

/-- The block tables after `pages` were copied into `row` from index `first` on. -/
def writeRow (tables : ℕ → ℕ → ℕ) (row first : ℕ) (pages : List ℕ) : ℕ → ℕ → ℕ :=
  fun r i =>
    if r = row ∧ first ≤ i ∧ i < first + pages.length then pages.getD (i - first) 0
    else tables r i

/-- `publish_range`. -/
def publishRange (a firstPage pageCount : ℕ) (copied : Bool) : KV ι Unit := do
  let x ← load a
  match x.pool with
  | none => return ()
  | some p =>
    if pageCount = 0 then
      return ()
    else
      let pool ← loadPool p
      throwIf (x.boundRow < 0 ∨ x.boundRow ≥ pool.spec.tableRows)
        (.outOfRange "Paged KV block-table row out of range")
      throwIf (copied = false) .cudaError
      modifyPool p fun pool =>
        { pool with
          blockTables := writeRow pool.blockTables x.boundRow.toNat firstPage
            ((x.pageIds.drop firstPage).take pageCount) }

/-- `set_page_entitlement`. -/
def setPageEntitlement (a pages : ℕ) : KV ι Unit := do
  let x ← load a
  match x.pool with
  | none => throw (.invalidArgument "Paged KV entitlement is smaller than mapped pages")
  | some p =>
    throwIf (pages < x.mappedPageCount)
      (.invalidArgument "Paged KV entitlement is smaller than mapped pages")
    let fits ← canReplaceEntitlement p x.pageEntitlement pages
    throwIf (fits = false) .badAlloc
    replaceEntitlement p x.pageEntitlement pages
    store a { x with pageEntitlement := pages }

/-- `cancel_unmapped_entitlement`. -/
def cancelUnmappedEntitlement (a : ℕ) : KV ι Unit := do
  let x ← load a
  match x.pool with
  | none => return ()
  | some p =>
    replaceEntitlement p x.pageEntitlement x.mappedPageCount
    store a { x with pageEntitlement := x.mappedPageCount }

/-- The page `materialize_pages` would like to continue with: the one after the last mapped. -/
def PagedKVAllocation.preferred (x : PagedKVAllocation ι) : ℤ :=
  match x.pageIds.getLast? with
  | none => -1
  | some last => last + 1

/-- `materialize_pages`. -/
def materializePages (a pages : ℕ) (copied : Bool) : KV ι Unit := do
  let x ← load a
  match x.pool with
  | none => throw (.invalidArgument "Paged KV materialize extent is outside entitlement")
  | some p =>
    throwIf (pages < x.mappedPageCount ∨ pages > x.pageEntitlement)
      (.invalidArgument "Paged KV materialize extent is outside entitlement")
    let count := pages - x.mappedPageCount
    if count = 0 then
      return ()
    else
      let acquired ← takePages p count x.preferred
      store a { x with pageIds := x.pageIds ++ acquired }
      if 0 ≤ x.boundRow then publishRange a x.mappedPageCount count copied else return ()

/-- `trim_pages`. -/
def trimPages (a pages : ℕ) : KV ι Unit := do
  let x ← load a
  match x.pool with
  | none => throw (.logicError "Cannot trim an empty Paged KV allocation")
  | some p =>
    throwIf (pages > x.mappedPageCount)
      (.invalidArgument "Paged KV trim extent exceeds mapped pages")
    if pages = x.mappedPageCount then
      return ()
    else
      returnPages p (x.pageIds.drop pages)
      store a { x with pageIds := x.pageIds.take pages }

/-- `bind_row`, with the `publish_mapping` it ends in. -/
def bindRow (a : ℕ) (row : ℤ) (copied : Bool) : KV ι Unit := do
  let x ← load a
  match x.pool with
  | none => throw (.logicError "Cannot bind an empty Paged KV allocation")
  | some p =>
    throwIf (x.boundRow ≥ 0) (.logicError "Paged KV allocation is already bound")
    acquireRow p row
    store a { x with boundRow := row }
    publishRange a 0 x.mappedPageCount copied

/-- `unbind_row`. -/
def unbindRow (a : ℕ) : KV ι Unit := do
  let x ← load a
  match x.pool with
  | none => return ()
  | some p =>
    if x.boundRow < 0 then
      return ()
    else
      releaseRow p x.boundRow
      store a { x with boundRow := -1 }

/-- `release`, which is also the destructor. -/
def release (a : ℕ) : KV ι Unit := do
  let x ← load a
  match x.pool with
  | none => return ()
  | some p =>
    unbindRow a
    returnPages p x.pageIds
    replaceEntitlement p x.pageEntitlement 0
    let x ← load a
    store a { x with pageIds := [], pageEntitlement := 0, pool := none }

/-- The move constructor. -/
def moveConstruct (other : ℕ) : KV ι ℕ := do
  let x ← load other
  let a ← construct x
  store other {}
  return a

/-- Move assignment. -/
def moveAssign (a other : ℕ) : KV ι Unit := do
  if a = other then
    return ()
  else
    release a
    let x ← load other
    store a x
    store other {}

/-! ## Bundles -/

/-- `PagedKVReservation`; a null pool pointer is `none`. -/
structure PagedKVReservation (ι : Type) where
  pool : Option ι
  pageEntitlement : ℕ

/-- `validate_distinct_pools`; `seen` are the reservations before the current one. -/
def validateDistinctPools : List (PagedKVReservation ι) → List (PagedKVReservation ι) → KV ι Unit
  | _, [] => return ()
  | seen, r :: rest => do
    throwIf (r.pool = none ∨ r.pageEntitlement = 0)
      (.invalidArgument "Paged KV reservation must name a pool and pages")
    throwIf (∃ s ∈ seen, r.pool = s.pool)
      (.invalidArgument "Paged KV bundle contains the same pool twice")
    validateDistinctPools (seen ++ [r]) rest

/-- The second loop of `reserve_paged_kv_bundle`. -/
def checkReservable (r : PagedKVReservation ι) : KV ι Unit := do
  match r.pool with
  | none => return ()
  | some p =>
    let fits ← canReserve p r.pageEntitlement
    throwIf (fits = false) .badAlloc

/-- The third loop of `reserve_paged_kv_bundle`.  A throw unwinds the vector built so far, which
destroys its elements. -/
def reserveEach (hosted : ℕ → Bool) : List ℕ → List (PagedKVReservation ι) → KV ι (List ℕ)
  | built, [] => return built
  | built, r :: rest => do
    match r.pool with
    | none => return built
    | some p =>
      let a ← tryCatch (reserve p r.pageEntitlement (hosted built.length)) fun e => do
        forEach built release
        throw e
      reserveEach hosted (built ++ [a]) rest

/-- `reserve_paged_kv_bundle`. -/
def reservePagedKVBundle (reservations : List (PagedKVReservation ι)) (hosted : ℕ → Bool) :
    KV ι (List ℕ) := do
  validateDistinctPools [] reservations
  forEach reservations checkReservable
  reserveEach hosted [] reservations

/-- `PagedKVResize`; a null allocation pointer is `none`. -/
structure PagedKVResize where
  allocation : Option ℕ
  mappedPages : ℕ
  pageEntitlement : ℕ

/-- The validation loop of `resize_paged_kv_bundle`; `seen` are the addresses and pools of the
changes before the current one. -/
def validateResize : List (ℕ × ι) → List PagedKVResize → KV ι Unit
  | _, [] => return ()
  | seen, change :: rest => do
    match change.allocation with
    | none => throw (.invalidArgument "Paged KV resize must name a live allocation")
    | some a =>
      let x ← load a
      match x.pool with
      | none => throw (.invalidArgument "Paged KV resize must name a live allocation")
      | some p =>
        throwIf (change.mappedPages > x.mappedPageCount ∨
            change.mappedPages > change.pageEntitlement)
          (.invalidArgument "Paged KV resize extents are inconsistent")
        throwIf (∃ s ∈ seen, a = s.1 ∨ p = s.2)
          (.invalidArgument "Paged KV resize contains the same pool twice")
        let fits ← canReplaceEntitlement p x.pageEntitlement change.pageEntitlement
        throwIf (fits = false) .badAlloc
        validateResize (seen ++ [(a, p)]) rest

/-- The last loop of `resize_paged_kv_bundle`. -/
def applyResize (change : PagedKVResize) : KV ι Unit := do
  match change.allocation with
  | none => return ()
  | some a =>
    trimPages a change.mappedPages
    setPageEntitlement a change.pageEntitlement

/-- `resize_paged_kv_bundle`; `hosted` is whether the host vectors can all be reserved. -/
def resizePagedKVBundle (changes : List PagedKVResize) (hosted : Bool) : KV ι Unit := do
  validateResize [] changes
  throwIf (hosted = false) .badAlloc
  forEach changes applyResize

/-! ## Runs -/

/-- One call on the heap. -/
inductive Op (ι : Type) where
  | construct
  | reserve (p : ι) (pages : ℕ) (hosted : Bool)
  | reserveBundle (reservations : List (PagedKVReservation ι)) (hosted : ℕ → Bool)
  | setPageEntitlement (a pages : ℕ)
  | cancelUnmappedEntitlement (a : ℕ)
  | materializePages (a pages : ℕ) (copied : Bool)
  | trimPages (a pages : ℕ)
  | bindRow (a : ℕ) (row : ℤ) (copied : Bool)
  | unbindRow (a : ℕ)
  | moveConstruct (other : ℕ)
  | moveAssign (a other : ℕ)
  | release (a : ℕ)
  | resizeBundle (changes : List PagedKVResize) (hosted : Bool)

/-- The addresses a call dereferences. -/
def Op.addresses : Op ι → List ℕ
  | .construct | .reserve .. | .reserveBundle .. => []
  | .setPageEntitlement a _ | .cancelUnmappedEntitlement a | .materializePages a _ _
  | .trimPages a _ | .bindRow a _ _ | .unbindRow a | .moveConstruct a | .release a => [a]
  | .moveAssign a other => [a, other]
  | .resizeBundle changes _ => changes.filterMap (·.allocation)

def Op.call : Op ι → KV ι Unit
  | .construct => discard (PagedKV.construct {})
  | .reserve p pages hosted => discard (PagedKV.reserve p pages hosted)
  | .reserveBundle reservations hosted => discard (reservePagedKVBundle reservations hosted)
  | .setPageEntitlement a pages => PagedKV.setPageEntitlement a pages
  | .cancelUnmappedEntitlement a => PagedKV.cancelUnmappedEntitlement a
  | .materializePages a pages copied => PagedKV.materializePages a pages copied
  | .trimPages a pages => PagedKV.trimPages a pages
  | .bindRow a row copied => PagedKV.bindRow a row copied
  | .unbindRow a => PagedKV.unbindRow a
  | .moveConstruct other => discard (PagedKV.moveConstruct other)
  | .moveAssign a other => PagedKV.moveAssign a other
  | .release a => PagedKV.release a
  | .resizeBundle changes hosted => resizePagedKVBundle changes hosted

/-- The heap before the first call: freshly constructed pools and no allocation. -/
def Heap.initial (specs : ι → PagedKVPoolSpec) (tables : ι → ℕ → ℕ → ℕ) : Heap ι where
  pools p := PagedKVPool.create (specs p) (tables p)
  allocations := []
  wrapped := false

/-- The heaps reached by finite runs of calls on constructed objects, each call returning or
throwing. -/
inductive Reachable (specs : ι → PagedKVPoolSpec) : Heap ι → Prop where
  | initial (tables : ι → ℕ → ℕ → ℕ) : Reachable specs (Heap.initial specs tables)
  | step {h : Heap ι} (op : Op ι) (hop : ∀ a ∈ op.addresses, a < h.allocations.length) :
      Reachable specs h → Reachable specs (op.call.after h)

end NInfer.PagedKV
