import SharedTable.Proofs.Item
import SharedTable.Proofs.Memory.Batch
import SharedTable.Table

set_option autoImplicit false

namespace SharedTable

theorem Value.fields_eq_ok_iff {value : Value} {fields : Fields} :
    value.fields = .ok fields ↔ value.fields? = some fields := by
  unfold Value.fields
  cases value.fields? <;> simp

namespace Table

section Composed

variable {σ α : Type} {table : Table σ α} {record : α} {key : PrimaryKey} {item : Item}

theorem encode_eq_ok_iff :
    table.encode record = .ok (key, item) ↔
      ∃ fields, (table.type.toValue record).fields? = some fields ∧
        table.schema.primaryKey fields = key ∧ Item.encode table.schema fields = item := by
  simp only [encode, bind_eq_ok_iff, Value.fields_eq_ok_iff, pure_eq_ok_iff, Prod.mk.injEq]

theorem ofItem?_of_encode (encoded : table.encode record = .ok (key, item)) :
    PrimaryKey.ofItem? item = some key := by
  obtain ⟨fields, _, rfl, rfl⟩ := encode_eq_ok_iff.mp encoded
  exact Item.ofItem?_encode table.schema fields

theorem own_of_encoded {records : List α} {entries : List (PrimaryKey × Item)}
    (encoded : records.mapM table.encode = .ok entries) :
    ∀ entry ∈ entries, PrimaryKey.ofItem? entry.2 = some entry.1 := by
  intro entry member
  obtain ⟨record, _, done⟩ := exists_of_mem_right (mapM_eq_ok_iff.mp encoded) member
  exact ofItem?_of_encode done

theorem putIfAbsent_run (encoded : table.encode record = .ok (key, item)) (world : World σ) :
    (table.putIfAbsent record).run world =
      match (table.engine.put table.name item .ifAbsent).run world with
      | (.ok (), next) => (.ok true, next.reported (.created table.name key))
      | (.error .conditionFailed, next) => (.ok false, next.reported (.keyTaken table.name key))
      | (.error fault, next) => (.error fault, next) := by
  unfold putIfAbsent
  rw [encoded, Action.run_bind_ok (Action.run_ofExcept _ _)]
  simp only [Action.run_bind, Action.run_tryCatch]
  rcases (table.engine.put table.name item .ifAbsent).run world with ⟨fault | ⟨⟩, next⟩
  · cases fault <;> rfl
  · rfl

variable {fault : Fault} (world : World σ)

theorem put_run_unencoded (failed : table.encode record = .error fault) :
    (table.put record).run world = (.error fault, world) := by
  unfold put
  rw [failed, Action.run_bind_error (Action.run_ofExcept _ _)]

theorem putIfAbsent_run_unencoded (failed : table.encode record = .error fault) :
    (table.putIfAbsent record).run world = (.error fault, world) := by
  unfold putIfAbsent
  rw [failed, Action.run_bind_error (Action.run_ofExcept _ _)]

theorem delete_run_uncomposed {value : Value} (failed : table.primaryKey value = .error fault) :
    (table.delete value).run world = (.error fault, world) := by
  unfold delete
  rw [failed, Action.run_bind_error (Action.run_ofExcept _ _)]

theorem batchPut_run_unencoded {records : List α} (failed : records.mapM table.encode = .error fault) :
    (table.batchPut records).run world = (.error fault, world) := by
  unfold batchPut
  rw [failed, Action.run_bind_error (Action.run_ofExcept _ _)]

theorem batchDelete_run_uncomposed {values : List Value}
    (failed : values.mapM table.primaryKey = .error fault) :
    (table.batchDelete values).run world = (.error fault, world) := by
  unfold batchDelete
  rw [failed, Action.run_bind_error (Action.run_ofExcept _ _)]

end Composed

section Served

variable {α : Type} {limits : BatchLimits} {table : Table Memory α} {record : α} {key : PrimaryKey}
  {item : Item} (served : table.engine = Memory.engine limits) (world : World Memory)

include served

theorem put_run (encoded : table.encode record = .ok (key, item)) :
    (table.put record).run world =
      (.ok record, ((world.reported (.put table.name table.typeName key)).asked .put 1).stored
        (world.state.store.insert table.name
          ((world.state.store.contents table.name).insert key item))) := by
  have written := Memory.run_put limits (world.reported (.put table.name table.typeName key))
    table.name item .always
  rw [World.reported_state,
    Store.put_of_free (ofItem?_of_encode encoded) .always PutCondition.noConfusion] at written
  unfold put
  rw [encoded, Action.run_bind_ok (Action.run_ofExcept _ _), served]
  exact (Action.run_bind_ok (Action.run_report _ _)).trans (Action.run_bind_ok written)

theorem putIfAbsent_run_free (encoded : table.encode record = .ok (key, item))
    (free : key ∉ world.state.store.contents table.name) :
    (table.putIfAbsent record).run world =
      (.ok true, ((world.asked .put 1).stored
        (world.state.store.insert table.name
          ((world.state.store.contents table.name).insert key item))).reported
            (.created table.name key)) := by
  rw [putIfAbsent_run encoded, served, Memory.run_put,
    Store.put_of_free (ofItem?_of_encode encoded) .ifAbsent fun _ => free]

theorem putIfAbsent_run_taken (encoded : table.encode record = .ok (key, item))
    (taken : key ∈ world.state.store.contents table.name) :
    (table.putIfAbsent record).run world =
      (.ok false, (world.asked .put 1).reported (.keyTaken table.name key)) := by
  rw [putIfAbsent_run encoded, served, Memory.run_put,
    Store.put_of_taken (ofItem?_of_encode encoded) taken]

theorem delete_run {value : Value} (composed : table.primaryKey value = .ok key) :
    (table.delete value).run world =
      (.ok (), ((world.reported (.delete table.name key)).asked .delete 1).stored
        (world.state.store.delete table.name key)) := by
  unfold delete
  rw [composed, Action.run_bind_ok (Action.run_ofExcept _ _), served]
  exact (Action.run_bind_ok (Action.run_report _ _)).trans
    (Memory.run_delete limits _ table.name key)

theorem forEachChunk_put (items : List Item) :
    (table.forEachChunk items table.engine.writeLimit fun chunk =>
        table.engine.batchWrite table.name chunk []) =
      Batch.forEachChunk table.client.schedule items limits.atLeastOne.write
        table.client.batchConcurrency (Memory.putChunk limits table.name) := by
  -- The pauses of the operation depend on the engine, so the engine is put in for that of the table.
  obtain ⟨⟨engine, name, width, schedule⟩, type, schema⟩ := table
  change engine = Memory.engine limits at served
  subst served
  rfl

theorem forEachChunk_delete (keys : List PrimaryKey) :
    (table.forEachChunk keys table.engine.writeLimit fun chunk =>
        table.engine.batchWrite table.name [] chunk) =
      Batch.forEachChunk table.client.schedule keys limits.atLeastOne.write
        table.client.batchConcurrency (Memory.deleteChunk limits table.name) := by
  obtain ⟨⟨engine, name, width, schedule⟩, type, schema⟩ := table
  change engine = Memory.engine limits at served
  subst served
  rfl

theorem batchPut_run {records : List α} {entries : List (PrimaryKey × Item)}
    (encoded : records.mapM table.encode = .ok entries) :
    ∃ next, (table.batchPut records).run world = (.ok (), next) ∧
      next.state = world.state.batchWritten table.name
        (Batch.chunkCount limits.atLeastOne.write (entries.map Prod.fst).toFinset.card)
        ((world.state.store.contents table.name).insertMany entries) := by
  have own := own_of_encoded encoded
  rw [← Batch.insertMany_latestItems own, ← Batch.length_latestItems]
  unfold batchPut
  rw [encoded, Action.run_bind_ok (Action.run_ofExcept _ _)]
  -- A batch of nothing reports nothing and calls nothing.
  by_cases empty : Batch.latestItems entries = []
  · refine ⟨world, by simp [empty], ?_⟩
    rw [empty, List.length_nil, (Batch.chunkCount_eq_zero_iff limits.atLeastOne_write_pos).mpr rfl]
    rfl
  · obtain ⟨results, next, ran, left⟩ := Memory.putChunks_run limits table.name
      (fun item => Batch.isSome_of_mem_latestItems own) (Batch.keyed_latestItems_nodup own)
      table.client.schedule table.client.batchConcurrency
      (world.reported (.batchPut table.name table.typeName (Batch.latestItems entries).length
        (Batch.chunkCount table.engine.writeLimit (Batch.latestItems entries).length)))
    refine ⟨next, ?_, left⟩
    simp only [List.isEmpty_iff, empty, if_false, forEachChunk_put served]
    exact (Action.run_bind_ok (Action.run_report _ _)).trans (Action.run_bind_ok ran)

theorem batchDelete_run {values : List Value} {keys : List PrimaryKey}
    (composed : values.mapM table.primaryKey = .ok keys) :
    ∃ next, (table.batchDelete values).run world = (.ok (), next) ∧
      next.state = world.state.batchWritten table.name
        (Batch.chunkCount limits.atLeastOne.write keys.toFinset.card)
        (keys.foldl Std.ExtTreeMap.erase (world.state.store.contents table.name)) := by
  rw [← foldl_erase_congr (fun key => @Batch.mem_distinctKeys keys key),
    ← Batch.length_distinctKeys]
  unfold batchDelete
  rw [composed, Action.run_bind_ok (Action.run_ofExcept _ _)]
  by_cases empty : Batch.distinctKeys keys = []
  · refine ⟨world, by simp [empty], ?_⟩
    rw [empty, List.length_nil, (Batch.chunkCount_eq_zero_iff limits.atLeastOne_write_pos).mpr rfl]
    rfl
  · obtain ⟨results, next, ran, left⟩ := Memory.deleteChunks_run limits table.name
      (Batch.distinctKeys_nodup keys) table.client.schedule table.client.batchConcurrency
      (world.reported (.batchDelete table.name table.typeName (Batch.distinctKeys keys).length
        (Batch.chunkCount table.engine.writeLimit (Batch.distinctKeys keys).length)))
    refine ⟨next, ?_, left⟩
    simp only [List.isEmpty_iff, empty, if_false, forEachChunk_delete served]
    exact (Action.run_bind_ok (Action.run_report _ _)).trans (Action.run_bind_ok ran)

end Served

end Table

end SharedTable
