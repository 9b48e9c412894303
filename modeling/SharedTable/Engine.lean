import SharedTable.Condition.Filter
import SharedTable.Condition.Key
import SharedTable.Item
import SharedTable.Task

/-!
Storage engines: what a table asks of one, and what it answers. An engine works on a state of its
own; its calls may fail, and may report events. Batches are tasks, so that several can be under way.
-/

set_option autoImplicit false

namespace SharedTable

structure Request where
  table : String
  slot : Option IndexSlot
  condition : KeyCondition
  filter : Filter
  limit : Option Nat
  startKey : Option LastKey
  forward : Bool

def Request.resumeFrom (request : Request) (startKey : Option LastKey) : Request :=
  { request with startKey }

structure QueryPage where
  items : List Item
  lastKey : Option LastKey

structure CountPage where
  count : Nat
  lastKey : Option LastKey

inductive PutCondition where
  | always
  | ifAbsent
  deriving DecidableEq, Repr

structure Engine (σ : Type) where
  readLimit : Nat
  writeLimit : Nat
  -- More pages than any query can have in a state.
  pageBound : σ → Nat
  -- How often one batch pauses at most.
  pauses : Nat
  query : Request → Action σ QueryPage
  count : Request → Action σ CountPage
  get : (table : String) → PrimaryKey → Action σ (Option Item)
  put : (table : String) → Item → PutCondition → Action σ Unit
  delete : (table : String) → PrimaryKey → Action σ Unit
  batchGet : (table : String) → List PrimaryKey → Task σ (List Item) pauses
  batchWrite :
    (table : String) → (puts : List Item) → (deletes : List PrimaryKey) → Task σ Unit pauses

end SharedTable
