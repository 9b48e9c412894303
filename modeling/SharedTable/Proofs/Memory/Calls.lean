import SharedTable.Proofs.Action
import SharedTable.Store.Memory

set_option autoImplicit false

namespace SharedTable

inductive CallKind where
  | query
  | count
  | get
  | put
  | delete
  | batchGet
  | batchWrite

def CallCounts.plus (calls : CallCounts) (kind : CallKind) (times : Nat) : CallCounts :=
  match kind with
  | .query => { calls with query := calls.query + times }
  | .count => { calls with count := calls.count + times }
  | .get => { calls with get := calls.get + times }
  | .put => { calls with put := calls.put + times }
  | .delete => { calls with delete := calls.delete + times }
  | .batchGet => { calls with batchGet := calls.batchGet + times }
  | .batchWrite => { calls with batchWrite := calls.batchWrite + times }

def World.asked (world : World Memory) (kind : CallKind) (times : Nat) : World Memory :=
  { world with state := { world.state with calls := world.state.calls.plus kind times } }

def World.stored (world : World Memory) (store : Store) : World Memory :=
  { world with state := { world.state with store } }

@[simp] theorem World.asked_store (world : World Memory) (kind : CallKind) (times : Nat) :
    (world.asked kind times).state.store = world.state.store := rfl

@[simp] theorem World.stored_store (world : World Memory) (store : Store) :
    (world.stored store).state.store = store := rfl

@[simp] theorem World.stored_calls (world : World Memory) (store : Store) :
    (world.stored store).state.calls = world.state.calls := rfl

theorem CallCounts.plus_plus (calls : CallCounts) (kind : CallKind) (first more : Nat) :
    (calls.plus kind first).plus kind more = calls.plus kind (first + more) := by
  cases kind <;> simp only [plus, Nat.add_assoc]

theorem World.asked_asked (world : World Memory) (kind : CallKind) (first more : Nat) :
    (world.asked kind first).asked kind more = world.asked kind (first + more) := by
  simp only [asked, CallCounts.plus_plus]

namespace Memory

variable {α : Type} (limits : BatchLimits) (world : World Memory)

theorem run_ask (question : Store → Except Fault α) :
    (ask question).run world = (question world.state.store, world) := rfl

theorem run_change (update : Store → Except Fault Store) :
    (change update).run world =
      match update world.state.store with
      | .ok store => (.ok (), world.stored store)
      | .error fault => (.error fault, world) := by
  unfold change
  rw [Action.run_bind_ok (Action.run_state world), Action.run_bind, Action.run_ofExcept]
  cases update world.state.store <;> rfl

theorem run_query (request : Request) :
    ((engine limits).query request).run world =
      ((world.state.store.page request).mapError .cursor, world.asked .query 1) := rfl

theorem run_count (request : Request) :
    ((engine limits).count request).run world =
      (((world.state.store.page request).mapError .cursor).map fun page =>
        ⟨page.items.length, page.lastKey⟩, world.asked .count 1) := by
  change ((ask (page request) >>= fun answer =>
    pure (CountPage.mk answer.items.length answer.lastKey)) : Action Memory CountPage).run
      (world.asked .count 1) = _
  rw [Action.run_bind, run_ask, World.asked_store]
  unfold page
  cases world.state.store.page request <;> rfl

theorem run_put (table : String) (item : Item) (condition : PutCondition) :
    ((engine limits).put table item condition).run world =
      match world.state.store.put table item condition with
      | .ok store => (.ok (), (world.asked .put 1).stored store)
      | .error fault => (.error fault, world.asked .put 1) :=
  run_change (world.asked .put 1) fun store => store.put table item condition

theorem run_delete (table : String) (key : PrimaryKey) :
    ((engine limits).delete table key).run world =
      (.ok (), (world.asked .delete 1).stored (world.state.store.delete table key)) := rfl

theorem run_get (table : String) (key : PrimaryKey) :
    ((engine limits).get table key).run world =
      (.ok (world.state.store.get? table key), world.asked .get 1) := rfl

theorem run_batchGet (table : String) (keys : List PrimaryKey) :
    (batchGet limits table keys).run world =
      (world.state.store.batchGet limits.atLeastOne.read table keys, world.asked .batchGet 1) :=
  rfl

theorem run_batchWrite (table : String) (puts : List Item) (deletes : List PrimaryKey) :
    (batchWrite limits table puts deletes).run world =
      match world.state.store.batchWrite limits.atLeastOne.write table puts deletes with
      | .ok store => (.ok (), (world.asked .batchWrite 1).stored store)
      | .error fault => (.error fault, world.asked .batchWrite 1) :=
  run_change (world.asked .batchWrite 1) fun store =>
    store.batchWrite limits.atLeastOne.write table puts deletes

end Memory

end SharedTable
