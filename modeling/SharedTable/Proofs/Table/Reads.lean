import SharedTable.Proofs.Store.Keyed
import SharedTable.Proofs.Table.Writes

set_option autoImplicit false

namespace SharedTable

namespace Contents

variable {contents : Contents} {keys : List PrimaryKey}

theorem Keyed.keyed_filterMap (keyed : contents.Keyed) (keys : List PrimaryKey) :
    Batch.keyed (keys.filterMap fun key => contents[key]?) =
      keys.filterMap fun key => (contents[key]?).map fun item => (key, item) := by
  rw [Batch.keyed, List.filterMap_filterMap]
  apply List.filterMap_congr
  intro key _
  cases found : contents[key]? with
  | none => rfl
  | some item => simp [keyed key item found]

theorem keys_filterMap_sublist (contents : Contents) (keys : List PrimaryKey) :
    ((keys.filterMap fun key => (contents[key]?).map fun item => (key, item)).map Prod.fst).Sublist
      keys := by
  induction keys with
  | nil => exact .slnil
  | cons key rest ih =>
    rw [List.filterMap_cons]
    cases contents[key]? with
    | none => exact ih.cons key
    | some item => exact ih.cons_cons key

theorem Keyed.ofList_keyed (keyed : contents.Keyed) (distinct : keys.Nodup) {items : List Item}
    (same : items.Perm (keys.filterMap fun key => contents[key]?)) {key : PrimaryKey}
    (member : key ∈ keys) :
    (Std.ExtTreeMap.ofList (Batch.keyed items) : Contents)[key]? = contents[key]? := by
  have entries := same.filterMap fun item => (PrimaryKey.ofItem? item).map fun key => (key, item)
  change (Batch.keyed items).Perm (Batch.keyed _) at entries
  rw [keyed.keyed_filterMap] at entries
  have names := distinct.sublist (keys_filterMap_sublist contents keys)
  rw [Std.ExtTreeMap.ofList_eq_insertMany_empty,
    insertMany_perm entries ((entries.map Prod.fst).nodup_iff.mpr names)]
  apply Option.ext
  intro item
  rw [getElem?_insertMany_of_nodup names]
  simp [member]

end Contents

namespace Table

section Uncomposed

variable {σ α : Type} {table : Table σ α} {fault : Fault} (world : World σ)

theorem get_run_uncomposed {value : Value} (failed : table.primaryKey value = .error fault) :
    (table.get value).run world = (.error fault, world) := by
  unfold get
  rw [failed, Action.run_bind_error (Action.run_ofExcept _ _)]

theorem batchGet_run_uncomposed {values : List Value}
    (failed : values.mapM table.primaryKey = .error fault) :
    (table.batchGet values).run world = (.error fault, world) := by
  unfold batchGet
  rw [failed, Action.run_bind_error (Action.run_ofExcept _ _)]

end Uncomposed

variable {α : Type} {limits : BatchLimits} {table : Table Memory α}
  (served : table.engine = Memory.engine limits) (world : World Memory)

include served

theorem get_run {value : Value} {key : PrimaryKey} (composed : table.primaryKey value = .ok key) :
    (table.get value).run world =
      (((world.state.store.contents table.name)[key]?).mapM table.decode,
        (world.reported (.get table.name table.typeName key)).asked .get 1) := by
  have asked := Memory.run_get limits (world.reported (.get table.name table.typeName key))
    table.name key
  rw [World.reported_state, Store.get?] at asked
  unfold get
  rw [composed, Action.run_bind_ok (Action.run_ofExcept _ _), served,
    Action.run_bind_ok (Action.run_report _ _), Action.run_bind_ok asked]
  cases (world.state.store.contents table.name)[key]? with
  | none => rfl
  | some item =>
    have read : (some item).mapM table.decode = some <$> table.decode item := rfl
    simp only [read, Action.run_bind, Action.run_ofExcept]
    cases table.decode item <;> rfl

theorem mapM_get_run {values : List Value} {keys : List PrimaryKey}
    (composed : List.Forall₂ (fun value key => table.primaryKey value = .ok key) values keys) :
    ((values.mapM table.get).run world).1 =
      keys.mapM fun key => ((world.state.store.contents table.name)[key]?).mapM table.decode := by
  induction composed generalizing world with
  | nil => rfl
  | @cons value key _ keys first _ ih =>
    have later := ih ((world.reported (.get table.name table.typeName key)).asked .get 1)
    rw [World.asked_store, World.reported_state] at later
    rw [List.mapM_cons, List.mapM_cons, Action.run_bind, get_run served world first, ← later]
    -- A failing get ends the run with its fault; otherwise the run goes on with the tables as they are.
    cases ((world.state.store.contents table.name)[key]?).mapM table.decode with
    | error fault => rfl
    | ok found =>
      simp only [bind_pure_comp, Action.run_map]
      rfl

theorem forEachChunk_get (keys : List PrimaryKey) :
    (table.forEachChunk keys table.engine.readLimit (table.engine.batchGet table.name)) =
      Batch.forEachChunk table.client.schedule keys limits.atLeastOne.read
        table.client.batchConcurrency (Memory.getChunk limits table.name) := by
  obtain ⟨⟨engine, name, width, schedule⟩, type, schema⟩ := table
  change engine = Memory.engine limits at served
  subst served
  rfl

theorem batchGet_run (keyed : (world.state.store.contents table.name).Keyed) {values : List Value}
    {keys : List PrimaryKey} (composed : values.mapM table.primaryKey = .ok keys) :
    ∃ next, (table.batchGet values).run world =
        ((keys.eraseDups.filterMap fun key => (world.state.store.contents table.name)[key]?).mapM
          table.decode, next) ∧
      next.state = ⟨world.state.store, world.state.calls.plus .batchGet
        (Batch.chunkCount limits.atLeastOne.read keys.toFinset.card)⟩ := by
  change ∃ next, _ = (((Batch.distinctKeys keys).filterMap _).mapM table.decode, next) ∧ _
  rw [← Batch.length_distinctKeys]
  unfold batchGet
  rw [composed, Action.run_bind_ok (Action.run_ofExcept _ _)]
  by_cases empty : Batch.distinctKeys keys = []
  · refine ⟨world, by simp [empty]; rfl, ?_⟩
    rw [empty, List.length_nil, (Batch.chunkCount_eq_zero_iff limits.atLeastOne_read_pos).mpr rfl]
    rfl
  · obtain ⟨pages, middle, ran, same, left⟩ := Memory.getChunks_run limits table.name
      (Batch.distinctKeys_nodup keys) table.client.schedule table.client.batchConcurrency world
    let found : Contents := .ofList (Batch.keyed pages.flatten)
    let event : Event := .batchGet table.name table.typeName (Batch.distinctKeys keys).length found.size
    have again : (Batch.distinctKeys keys).filterMap (fun key => found[key]?) =
        (Batch.distinctKeys keys).filterMap fun key =>
          (world.state.store.contents table.name)[key]? :=
      List.filterMap_congr fun key member =>
        keyed.ofList_keyed (Batch.distinctKeys_nodup keys) same member
    refine ⟨middle.reported event, ?_, left⟩
    simp only [List.isEmpty_iff, empty, if_false, forEachChunk_get served]
    rw [Action.run_bind_ok ran, ← again]
    exact Action.run_bind_ok (Action.run_report event _)

end Table

end SharedTable
