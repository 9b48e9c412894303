import SharedTable.Proofs.Memory.Reached
import SharedTable.Proofs.Table.Isolation

set_option autoImplicit false

namespace SharedTable

variable {α : Type}

theorem Contents.Keyed.insertEntries {contents : Contents} (keyed : contents.Keyed)
    {entries : List (PrimaryKey × Item)}
    (own : ∀ entry ∈ entries, PrimaryKey.ofItem? entry.2 = some entry.1) :
    Keyed (contents.insertMany entries) := by
  rw [← edited_inserts]
  induction entries generalizing contents with
  | nil => exact keyed
  | cons entry rest ih =>
    obtain ⟨first, later⟩ := List.forall_mem_cons.mp own
    refine ih (keyed.edit ?_) later
    intro item same
    cases same
    exact first

theorem Memory.batchWritten_keyed {memory : Memory} (keyed : memory.store.Keyed) {contents : Contents}
    (own : contents.Keyed) (name : String) (batches : Nat) :
    (memory.batchWritten name batches contents).store.Keyed := by
  rw [batchWritten]
  split
  next => exact keyed
  next => exact keyed.insert own name

section Served

variable {limits : BatchLimits} {table : Table Memory α} (served : table.engine = Memory.engine limits)
  {world : World Memory} (keyed : world.state.store.Keyed)

include served keyed

theorem RecordWrite.act_keyed (write : RecordWrite α) :
    ((write.act table).run world).2.state.store.Keyed := by
  have here := keyed.contents table.name
  rw [← perform_eq]
  cases write with
  | put record =>
    rw [perform]
    cases encoded : table.encode record with
    | error fault =>
      rw [Table.put_run_unencoded world encoded]
      exact keyed
    | ok entry =>
      rw [Table.put_run served world encoded]
      exact keyed.insert (here.insert (Table.ofItem?_of_encode encoded)) table.name
  | putIfAbsent record =>
    rw [perform]
    cases encoded : table.encode record with
    | error fault =>
      rw [Table.putIfAbsent_run_unencoded world encoded]
      exact keyed
    | ok entry =>
      by_cases taken : entry.1 ∈ world.state.store.contents table.name
      next =>
        rw [Table.putIfAbsent_run_taken served world encoded taken]
        exact keyed
      next =>
        rw [Table.putIfAbsent_run_free served world encoded taken]
        exact keyed.insert (here.insert (Table.ofItem?_of_encode encoded)) table.name
  | delete key =>
    rw [perform]
    cases composed : table.primaryKey key with
    | error fault =>
      rw [Table.delete_run_uncomposed world composed]
      exact keyed
    | ok key =>
      rw [Table.delete_run served world composed]
      exact keyed.delete table.name key
  | batchPut records =>
    rw [perform]
    cases encoded : records.mapM table.encode with
    | error fault =>
      rw [Table.batchPut_run_unencoded world encoded]
      exact keyed
    | ok entries =>
      obtain ⟨next, ran, left⟩ := Table.batchPut_run served world encoded
      rw [ran, left]
      exact Memory.batchWritten_keyed keyed (here.insertEntries (Table.own_of_encoded encoded)) _ _
  | batchDelete keys =>
    rw [perform]
    cases composed : keys.mapM table.primaryKey with
    | error fault =>
      rw [Table.batchDelete_run_uncomposed world composed]
      exact keyed
    | ok keys =>
      obtain ⟨next, ran, left⟩ := Table.batchDelete_run served world composed
      rw [ran, left]
      exact Memory.batchWritten_keyed keyed (here.foldl_erase keys) _ _

theorem RecordCall.act_keyed (call : RecordCall α) :
    ((call.act table).run world).2.state.store.Keyed := by
  cases call with
  | get key =>
    rw [act, Action.run_map]
    cases composed : table.primaryKey key with
    | error fault =>
      rw [Table.get_run_uncomposed world composed]
      exact keyed
    | ok key =>
      rw [Table.get_run served world composed]
      exact keyed
  | batchGet keys =>
    rw [act, Action.run_map]
    cases composed : keys.mapM table.primaryKey with
    | error fault =>
      rw [Table.batchGet_run_uncomposed world composed]
      exact keyed
    | ok keys =>
      obtain ⟨next, ran, left⟩ := Table.batchGet_run served world (keyed.contents table.name) composed
      rw [ran, left]
      exact keyed
  | write update => exact update.act_keyed served keyed

theorem TableCall.act_keyed (call : TableCall table) : (call.act.run world).2.state.store.Keyed := by
  cases call with
  | record call =>
    rw [act, Action.run_map]
    exact call.act_keyed served keyed
  | page query own =>
    cases own
    rw [act, Action.run_map, Query.execute_keeps served world]
    exact keyed
  | all query own =>
    cases own
    rw [act, Action.run_map, Query.all_keeps served world]
    exact keyed
  | count query own =>
    cases own
    rw [act, Action.run_map, Query.count_keeps served world]
    exact keyed

end Served

inductive World.Reached (limits : BatchLimits) : World Memory → Prop where
  | empty {world : World Memory} (unwritten : world.state.store = ∅) : Reached limits world
  | call {α : Type} {table : Table Memory α} (served : table.engine = Memory.engine limits)
      {world : World Memory} (reached : Reached limits world) (call : TableCall table) :
      Reached limits (call.act.run world).2

theorem World.Reached.keyed {limits : BatchLimits} {world : World Memory}
    (reached : world.Reached limits) : world.state.store.Keyed := by
  induction reached with
  | empty unwritten =>
    rw [unwritten]
    exact Store.keyed_empty
  | call served _ call ih => exact call.act_keyed served ih

end SharedTable
