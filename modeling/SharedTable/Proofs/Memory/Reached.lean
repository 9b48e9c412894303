import SharedTable.Proofs.Memory.Calls
import SharedTable.Proofs.Store.Keyed

set_option autoImplicit false

namespace SharedTable

inductive Write where
  | put (table : String) (item : Item) (condition : PutCondition)
  | delete (table : String) (key : PrimaryKey)
  | batch (table : String) (puts : List Item) (deletes : List PrimaryKey)

namespace Write

variable {σ : Type}

def ask (engine : Engine σ) : Write → Action σ Unit
  | .put table item condition => engine.put table item condition
  | .delete table key => engine.delete table key
  | .batch table puts deletes => (engine.batchWrite table puts deletes).run

def after (engine : Engine σ) (world : World σ) (writes : List Write) : World σ :=
  writes.foldl (fun world write => ((write.ask engine).run world).2) world

theorem ask_keyed (limits : BatchLimits) (world : World Memory) (write : Write)
    (keyed : world.state.store.Keyed) :
    ((write.ask (Memory.engine limits)).run world).2.state.store.Keyed := by
  cases write with
  | put table item condition =>
    change (((Memory.engine limits).put table item condition).run world).2.state.store.Keyed
    rw [Memory.run_put]
    cases done : world.state.store.put table item condition with
    | ok next => exact keyed.put done
    | error fault => exact keyed
  | delete table key => exact keyed.delete table key
  | batch table puts deletes =>
    change ((Memory.batchWrite limits table puts deletes).run world).2.state.store.Keyed
    rw [Memory.run_batchWrite]
    cases done : world.state.store.batchWrite limits.atLeastOne.write table puts deletes with
    | ok next => exact keyed.batchWrite done
    | error fault => exact keyed

theorem after_keyed (limits : BatchLimits) (world : World Memory) (writes : List Write)
    (keyed : world.state.store.Keyed) :
    (after (Memory.engine limits) world writes).state.store.Keyed := by
  induction writes generalizing world with
  | nil => exact keyed
  | cons write rest ih => exact ih _ (ask_keyed limits world write keyed)

end Write

def Store.Reached (limits : BatchLimits) (store : Store) : Prop :=
  ∃ writes : List Write,
    (Write.after (Memory.engine limits) (.ofState .empty) writes).state.store = store

theorem Store.Reached.keyed {limits : BatchLimits} {store : Store} (reached : store.Reached limits) :
    store.Keyed := by
  obtain ⟨writes, rfl⟩ := reached
  exact Write.after_keyed limits _ writes Store.keyed_empty

end SharedTable
