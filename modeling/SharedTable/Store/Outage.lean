import SharedTable.Engine

set_option autoImplicit false

namespace SharedTable

structure Outage (σ : Type) where
  inner : σ
  reads : Option Nat
  writes : Option Nat

namespace Outage

variable {σ : Type}

def reach {α : Type} (action : Action σ α) : Action (Outage σ) α :=
  action.within inner fun outage inner => { outage with inner }

def spend (operation : Operation) : Option Nat → Action (Outage σ) (Option Nat)
  | none => return none
  | some 0 => throw (.engine operation .unavailable)
  | some (left + 1) => return some left

def admitRead (operation : Operation) : Action (Outage σ) Unit := do
  let reads ← spend operation (← Action.state).reads
  Action.setState { (← Action.state) with reads }

def admitWrite (operation : Operation) : Action (Outage σ) Unit := do
  let writes ← spend operation (← Action.state).writes
  Action.setState { (← Action.state) with writes }

def engine (behind : Engine σ) : Engine (Outage σ) where
  readLimit := behind.readLimit
  writeLimit := behind.writeLimit
  pageBound outage := behind.pageBound outage.inner
  pauses := behind.pauses
  query request := do
    admitRead .query
    reach (behind.query request)
  count request := do
    admitRead .query
    reach (behind.count request)
  get table key := do
    admitRead .getItem
    reach (behind.get table key)
  put table item condition := do
    admitWrite .putItem
    reach (behind.put table item condition)
  delete table key := do
    admitWrite .deleteItem
    reach (behind.delete table key)
  batchGet table keys :=
    ((behind.batchGet table keys).through reach).after (admitRead .batchGetItem)
  batchWrite table puts deletes :=
    ((behind.batchWrite table puts deletes).through reach).after (admitWrite .batchWriteItem)

end Outage

end SharedTable
