import SharedTable.Cursor
import SharedTable.Table

/-!
Queries: one partition of a table or of an index, narrowed by conditions. A query is a value; only
running it calls the engine, page by page.
-/

set_option autoImplicit false

namespace SharedTable

structure RecordPage (α : Type) where
  records : List α
  cursor : Option Cursor

structure Query (σ α : Type) where
  table : Table σ α
  slot : Option IndexSlot
  partition : Fields
  sortKey : SortFilter
  filter : Filter
  -- The most items that a page looks at, before the post-filter.
  limit : Option Nat
  cursor : Option Cursor
  reverse : Bool

namespace Query

variable {σ α : Type}

def ofPartition (table : Table σ α) (index : Option Index) (partition : Value) :
    Except Fault (Query σ α) := do
  let partition ← partition.fields
  return {
    table, slot := index.map Index.slot, partition, sortKey := .unbounded, filter := [],
    limit := none, cursor := none, reverse := false }

def index (query : Query σ α) : Except Fault (Option Index) :=
  match query.slot with
  | none => return none
  | some slot =>
    match query.table.schema.indexAt? slot with
    | some index => return some index
    | none => throw (.unknownIndex slot.name)

def startKey (query : Query σ α) : Except CursorFault (Option LastKey) :=
  match query.cursor with
  | none => return none
  | some cursor => return some (← cursor.decode)

def compile (query : Query σ α) : Except Fault Request := do
  let index ← query.index
  if query.limit = some 0 then throw (.filter .zeroLimit)
  let condition ←
    (KeyCondition.compile query.table.schema index query.partition query.sortKey).mapError .filter
  let startKey ← query.startKey.mapError .cursor
  return {
    table := query.table.name, slot := query.slot, condition, filter := query.filter,
    limit := query.limit, startKey, forward := !query.reverse }

def decodeAll (query : Query σ α) (items : List Item) : Except Fault (List α) :=
  items.mapM query.table.decode

def execute (query : Query σ α) : Action σ (RecordPage α) := do
  let request ← Action.ofExcept query.compile
  let page ← query.table.engine.query request
  Action.report
    (.queryPage request.table request.condition page.items.length page.lastKey.isSome)
  let records ← Action.ofExcept (query.decodeAll page.items)
  return ⟨records, page.lastKey.map Cursor.encode⟩

def drain (query : Query σ α) (request : Request) :
    Nat → Option LastKey → Action σ (List α × Nat)
  | 0, _ => throw (.engine .query .endless)
  | bound + 1, startKey => do
    let page ← query.table.engine.query (request.resumeFrom startKey)
    let records ← Action.ofExcept (query.decodeAll page.items)
    match page.lastKey with
    | none => return (records, 1)
    | some lastKey => do
      let (more, pages) ← query.drain request bound (some lastKey)
      return (records ++ more, pages + 1)

def all (query : Query σ α) : Action σ (List α) := do
  let request ← Action.ofExcept query.compile
  let bound := query.table.engine.pageBound (← Action.state)
  let (records, pages) ← query.drain request bound request.startKey
  Action.report (.queryAll request.table request.condition records.length pages)
  return records

def drainCounts (query : Query σ α) (request : Request) : Nat → Option LastKey → Action σ Nat
  | 0, _ => throw (.engine .query .endless)
  | bound + 1, startKey => do
    let page ← query.table.engine.count (request.resumeFrom startKey)
    match page.lastKey with
    | none => return page.count
    | some lastKey => do
      let more ← query.drainCounts request bound (some lastKey)
      return page.count + more

def count (query : Query σ α) : Action σ Nat := do
  let request ← Action.ofExcept query.compile
  let bound := query.table.engine.pageBound (← Action.state)
  let total ← query.drainCounts request bound request.startKey
  Action.report (.queryCount request.table request.condition total)
  return total

end Query

end SharedTable
