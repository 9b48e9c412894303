import SharedTable.Store.Page

set_option autoImplicit false

namespace SharedTable

-- How often each call was made, failed ones included.
structure CallCounts where
  query : Nat
  count : Nat
  get : Nat
  put : Nat
  delete : Nat
  batchGet : Nat
  batchWrite : Nat
  deriving DecidableEq, Repr

namespace CallCounts

def zero : CallCounts := ⟨0, 0, 0, 0, 0, 0, 0⟩

def reads (calls : CallCounts) : Nat := calls.query + calls.count + calls.get + calls.batchGet

def writes (calls : CallCounts) : Nat := calls.put + calls.delete + calls.batchWrite

end CallCounts

structure BatchLimits where
  read : Nat
  write : Nat
  deriving DecidableEq, Repr

namespace BatchLimits

def standard : BatchLimits := ⟨100, 25⟩

def atLeastOne (limits : BatchLimits) : BatchLimits := ⟨max limits.read 1, max limits.write 1⟩

end BatchLimits

structure Memory where
  store : Store
  calls : CallCounts

namespace Memory

def empty : Memory := ⟨∅, .zero⟩

def counted (bump : CallCounts → CallCounts) : Action Memory Unit := do
  let memory ← Action.state
  Action.setState { memory with calls := bump memory.calls }

def ask {α : Type} (question : Store → Except Fault α) : Action Memory α := do
  Action.ofExcept (question (← Action.state).store)

def change (update : Store → Except Fault Store) : Action Memory Unit := do
  let memory ← Action.state
  let store ← Action.ofExcept (update memory.store)
  Action.setState { memory with store }

def page (request : Request) (store : Store) : Except Fault QueryPage :=
  (store.page request).mapError .cursor

def batchGet (limits : BatchLimits) (table : String) (keys : List PrimaryKey) :
    Action Memory (List Item) := do
  counted fun calls => { calls with batchGet := calls.batchGet + 1 }
  ask fun store => store.batchGet limits.atLeastOne.read table keys

def batchWrite (limits : BatchLimits) (table : String) (puts : List Item)
    (deletes : List PrimaryKey) : Action Memory Unit := do
  counted fun calls => { calls with batchWrite := calls.batchWrite + 1 }
  change fun store => store.batchWrite limits.atLeastOne.write table puts deletes

def engine (limits : BatchLimits) : Engine Memory where
  readLimit := limits.atLeastOne.read
  writeLimit := limits.atLeastOne.write
  pageBound memory := memory.store.values.foldl (fun sum contents => sum + contents.size) 1
  pauses := 0
  query request := do
    counted fun calls => { calls with query := calls.query + 1 }
    ask (page request)
  count request := do
    counted fun calls => { calls with count := calls.count + 1 }
    let answer ← ask (page request)
    return ⟨answer.items.length, answer.lastKey⟩
  get table key := do
    counted fun calls => { calls with get := calls.get + 1 }
    ask fun store => return store.get? table key
  put table item condition := do
    counted fun calls => { calls with put := calls.put + 1 }
    change fun store => store.put table item condition
  delete table key := do
    counted fun calls => { calls with delete := calls.delete + 1 }
    change fun store => return store.delete table key
  batchGet := batchGet limits
  batchWrite := batchWrite limits

end Memory

end SharedTable
