import SharedTable.Proofs.Memory.Batch
import SharedTable.Proofs.Memory.Reached

/-!
A failing call leaves the tables as they were. The calls are written out as steps on the tables themselves,
each of which stays if a later one fails, in the order in which they check and change. As all checks come
first, or what they follow changes nothing, such a call is all or nothing.
-/

set_option autoImplicit false

namespace SharedTable

namespace Memory

/-- One step on the tables. A table comes into being when it is first looked at to be changed. -/
def alter (table : String) (change : Contents → Contents) : Action Memory Unit := do
  let memory ← Action.state
  let store := memory.store.insert table (change (memory.store.contents table))
  Action.setState { memory with store }

def putInPlace (table : String) (item : Item) (condition : PutCondition) : Action Memory Unit := do
  counted (·.plus .put 1)
  let key ← Action.ofExcept (Store.itemKey item)
  -- From here on the table is there, whether or not the item gets in.
  alter table id
  let memory ← Action.state
  if condition = .ifAbsent && (memory.store.contents table).contains key then throw .conditionFailed
  alter table (·.insert key item)

def deleteInPlace (table : String) (key : PrimaryKey) : Action Memory Unit := do
  counted (·.plus .delete 1)
  let memory ← Action.state
  if table ∈ memory.store then alter table (·.erase key)

def batchWriteInPlace (limit : Nat) (table : String) (puts : List Item) (deletes : List PrimaryKey) :
    Action Memory Unit := do
  counted (·.plus .batchWrite 1)
  let entries := puts.length + deletes.length
  if limit < entries then throw (.engine .batchWriteItem (.tooManyEntries entries limit))
  let keys ← Action.ofExcept (puts.mapM Store.itemKey)
  Action.ofExcept (Store.refuseRepeats .batchWriteItem (keys ++ deletes))
  alter table id
  forM (keys.zip puts) fun (key, item) => alter table (·.insert key item)
  forM deletes fun key => alter table (·.erase key)

variable (table : String) (world : World Memory)

theorem run_counted (kind : CallKind) :
    (counted (·.plus kind 1)).run world = (.ok (), world.asked kind 1) := rfl

theorem run_alter (change : Contents → Contents) :
    (alter table change).run world =
      (.ok (), world.stored (world.state.store.insert table (change (world.state.store.contents table)))) :=
  rfl

theorem change_keeps (update : Store → Except Fault Store) {fault : Fault}
    (failed : ((change update).run world).1 = .error fault) : ((change update).run world).2 = world := by
  rw [run_change] at failed ⊢
  cases done : update world.state.store with
  | error refused => rfl
  | ok store =>
    rw [done] at failed
    cases failed

theorem run_alter_stored (change : Contents → Contents) (contents : Contents) :
    (alter table change).run (world.stored (world.state.store.insert table contents)) =
      (.ok (), world.stored (world.state.store.insert table (change contents))) := by
  rw [run_alter, World.stored_store, Store.contents_insert_self, insert_insert]
  rfl

theorem run_forM_alter {ε : Type} (change : ε → Contents → Contents) (entries : List ε)
    (contents : Contents) :
    (forM entries fun entry => alter table (change entry)).run
        (world.stored (world.state.store.insert table contents)) =
      (.ok (), world.stored (world.state.store.insert table
        (entries.foldl (fun contents entry => change entry contents) contents))) := by
  induction entries generalizing contents with
  | nil => rfl
  | cons entry rest ih =>
    rw [List.forM_cons, Action.run_bind_ok (run_alter_stored table world _ _), ih]
    rfl

theorem putInPlace_eq (limits : BatchLimits) (item : Item) (condition : PutCondition) :
    (putInPlace table item condition).run world =
      ((engine limits).put table item condition).run world := by
  rw [run_put, putInPlace, Action.run_bind_ok (run_counted world _)]
  cases own : Store.itemKey item with
  | error fault =>
    have refused : world.state.store.put table item condition = .error fault := by
      rw [Store.put, own]
      rfl
    rw [Action.run_bind_error (Action.run_ofExcept _ _), refused]
  | ok key =>
    have keyed := Store.itemKey_eq_ok_iff.mp own
    rw [Action.run_bind_ok (Action.run_ofExcept _ _), Action.run_bind_ok (run_alter table _ id),
      Action.run_bind_ok (Action.run_state _), World.stored_store, World.asked_store,
      Store.contents_insert_self]
    by_cases taken : condition = .ifAbsent ∧ key ∈ world.state.store.contents table
    · obtain ⟨rfl, held⟩ := taken
      -- A key that is taken is in a table that was there, so opening that changed nothing.
      have written : table ∈ world.state.store := by
        by_contra unwritten
        simp [Store.contents_of_not_mem unwritten] at held
      have found := Std.ExtTreeMap.mem_iff_contains.mp held
      have same : (world.asked .put 1).stored (Std.ExtTreeMap.insert world.state.store table
          (id (world.state.store.contents table))) = world.asked .put 1 := by
        rw [id_eq, Store.insert_contents written]
        rfl
      rw [Store.put_of_taken keyed held, same]
      simp only [id_eq, found, decide_true, Bool.and_self, if_true]
      rfl
    · have free : (decide (condition = .ifAbsent) && (world.state.store.contents table).contains key) =
          false := by
        rw [← Bool.not_eq_true, Bool.and_eq_true, decide_eq_true_eq, ← Std.ExtTreeMap.mem_iff_contains]
        exact taken
      rw [Store.put_of_free keyed condition (not_and.mp taken)]
      simp only [id_eq, free, Bool.false_eq_true, if_false]
      exact run_alter_stored table (world.asked .put 1) _ _

theorem deleteInPlace_eq (limits : BatchLimits) (key : PrimaryKey) :
    (deleteInPlace table key).run world = ((engine limits).delete table key).run world := by
  rw [run_delete, deleteInPlace, Action.run_bind_ok (run_counted world _),
    Action.run_bind_ok (Action.run_state _), World.asked_store]
  by_cases written : table ∈ world.state.store
  · rw [Store.delete_of_mem written, if_pos written]
    rfl
  · rw [Store.delete_of_not_mem written, if_neg written]
    rfl

theorem batchWriteInPlace_eq (limits : BatchLimits) (puts : List Item) (deletes : List PrimaryKey) :
    (batchWriteInPlace limits.atLeastOne.write table puts deletes).run world =
      (batchWrite limits table puts deletes).run world := by
  rw [run_batchWrite, batchWriteInPlace, Action.run_bind_ok (run_counted world _), Store.batchWrite]
  by_cases many : limits.atLeastOne.write < puts.length + deletes.length
  · simp only [many, if_true]
    rfl
  · simp only [many, if_false]
    cases own : puts.mapM Store.itemKey with
    | error fault => rfl
    | ok keys =>
      rw [Action.run_bind_ok (Action.run_ofExcept _ _)]
      cases distinct : Store.refuseRepeats .batchWriteItem (keys ++ deletes) with
      | error fault =>
        rw [Action.run_bind_error (Action.run_ofExcept _ _)]
        simp only [bind, Except.bind, distinct]
      | ok _ =>
        rw [Action.run_bind_ok (Action.run_ofExcept _ _), Action.run_bind_ok (run_alter table _ id),
          Action.run_bind_ok (run_forM_alter table _ _ _ _), run_forM_alter]
        simp only [bind, Except.bind, distinct]
        rw [insertMany_eq_foldl]
        rfl

end Memory

namespace Batch

theorem mem_keyed {items : List Item} {key : PrimaryKey} {item : Item} :
    (key, item) ∈ keyed items ↔ item ∈ items ∧ PrimaryKey.ofItem? item = some key := by
  simp [keyed]

theorem zip_eq_keyed {items : List Item} {keys : List PrimaryKey}
    (own : List.Forall₂ (fun item key => PrimaryKey.ofItem? item = some key) items keys) :
    keys.zip items = keyed items := by
  induction own with
  | nil => rfl
  | cons first _ ih =>
    rw [List.zip_cons_cons, ih, keyed, keyed, List.filterMap_cons, first]
    rfl

theorem keys_eq_keyed {items : List Item} {keys : List PrimaryKey}
    (own : List.Forall₂ (fun item key => PrimaryKey.ofItem? item = some key) items keys) :
    keys = (keyed items).map Prod.fst := by
  rw [← zip_eq_keyed own, List.map_fst_zip own.length_eq.ge]

end Batch

namespace Store

/-- Whether a batch of writes on a table has been done as a whole, and nothing else. -/
structure Applied (before after : Store) (table : String) (puts : List Item)
    (deletes : List PrimaryKey) : Prop where
  put : ∀ item ∈ puts, ∃ key, PrimaryKey.ofItem? item = some key ∧ after.get? table key = some item
  deleted : ∀ key ∈ deletes, after.get? table key = none
  kept : ∀ key, key ∉ deletes → (∀ item ∈ puts, PrimaryKey.ofItem? item ≠ some key) →
    after.get? table key = before.get? table key
  apart : ∀ other, other ≠ table → after[other]? = before[other]?

variable {limit : Nat} {table : String} {puts : List Item} {deletes : List PrimaryKey}
  {store next : Store}

theorem batchWrite_eq_ok_iff_keyed :
    store.batchWrite limit table puts deletes = .ok next ↔
      (puts.length + deletes.length ≤ limit ∧ (∀ item ∈ puts, (PrimaryKey.ofItem? item).isSome = true) ∧
        ((Batch.keyed puts).map Prod.fst ++ deletes).Nodup) ∧
      next = store.insert table
        (deletes.foldl Std.ExtTreeMap.erase ((store.contents table).insertMany (Batch.keyed puts))) := by
  rw [batchWrite_eq_ok_iff]
  constructor
  · rintro ⟨few, keys, own, distinct, rfl⟩
    rw [Batch.zip_eq_keyed own]
    rw [repeatedKey?_eq_none_iff, Batch.keys_eq_keyed own] at distinct
    refine ⟨⟨few, fun item member => ?_, distinct.1⟩, rfl⟩
    obtain ⟨key, _, first⟩ := exists_of_mem_left own member
    rw [first]
    rfl
  · rintro ⟨⟨few, own, distinct⟩, rfl⟩
    obtain ⟨keys, zipped⟩ := Batch.forall₂_keyed own
    refine ⟨few, _, keys, ?_, by rw [zipped]⟩
    exact repeatedKey?_eq_none_iff.mpr ⟨distinct, fun _ _ => List.not_mem_nil⟩

theorem applied_of_batchWrite (done : store.batchWrite limit table puts deletes = .ok next) :
    store.Applied next table puts deletes := by
  obtain ⟨⟨_, own, distinct⟩, rfl⟩ := batchWrite_eq_ok_iff_keyed.mp done
  obtain ⟨names, _, separate⟩ := List.nodup_append.mp distinct
  have read (key : PrimaryKey) : get? (Std.ExtTreeMap.insert store table (deletes.foldl
      Std.ExtTreeMap.erase ((store.contents table).insertMany (Batch.keyed puts)))) table key =
        if key ∈ deletes then none
        else ((store.contents table).insertMany (Batch.keyed puts))[key]? := by
    rw [get?, contents_insert_self, getElem?_foldl_erase]
  constructor
  · intro item member
    obtain ⟨key, first⟩ := Option.isSome_iff_exists.mp (own item member)
    have entry := Batch.mem_keyed.mpr ⟨member, first⟩
    have other : key ∉ deletes := fun deleted =>
      separate key (List.mem_map_of_mem entry) key deleted rfl
    refine ⟨key, first, ?_⟩
    rw [read, if_neg other, getElem?_insertMany_of_nodup names]
    exact .inl entry
  · intro key member
    rw [read, if_pos member]
  · intro key other silent
    have unnamed : key ∉ (Batch.keyed puts).map Prod.fst := by
      intro named
      obtain ⟨⟨_, item⟩, entry, rfl⟩ := List.mem_map.mp named
      obtain ⟨member, first⟩ := Batch.mem_keyed.mp entry
      exact silent item member first
    rw [read, if_neg other, Std.ExtTreeMap.getElem?_insertMany_list_of_contains_eq_false
      (by simpa using unnamed), get?]
  · intro other differ
    rw [Std.ExtTreeMap.getElem?_insert, if_neg]
    exact fun same => differ (Std.LawfulEqCmp.eq_of_compare same).symm

end Store

inductive Call : Type → Type
  | query (request : Request) : Call QueryPage
  | count (request : Request) : Call CountPage
  | get (table : String) (key : PrimaryKey) : Call (Option Item)
  | batchGet (table : String) (keys : List PrimaryKey) : Call (List Item)
  | write (write : Write) : Call Unit

namespace Call

variable {α : Type} (limits : BatchLimits)

def ask : Call α → Action Memory α
  | .query request => (Memory.engine limits).query request
  | .count request => (Memory.engine limits).count request
  | .get table key => (Memory.engine limits).get table key
  | .batchGet table keys => ((Memory.engine limits).batchGet table keys).run
  | .write change => change.ask (Memory.engine limits)

def steps : Call α → Action Memory α
  | .write (.put table item condition) => Memory.putInPlace table item condition
  | .write (.delete table key) => Memory.deleteInPlace table key
  | .write (.batch table puts deletes) =>
    Memory.batchWriteInPlace limits.atLeastOne.write table puts deletes
  | call => call.ask limits

theorem steps_run (call : Call α) (world : World Memory) :
    (call.steps limits).run world = (call.ask limits).run world := by
  cases call with
  | write change =>
    cases change with
    | put table item condition => exact Memory.putInPlace_eq table world limits item condition
    | delete table key => exact Memory.deleteInPlace_eq table world limits key
    | batch table puts deletes => exact Memory.batchWriteInPlace_eq table world limits puts deletes
  | _ => rfl

theorem ask_keeps_of_error (call : Call α) (world : World Memory) {fault : Fault}
    (failed : ((call.ask limits).run world).1 = .error fault) :
    ((call.ask limits).run world).2.state.store = world.state.store := by
  cases call with
  | query request => rfl
  | count request => rw [ask, Memory.run_count, World.asked_store]
  | get table key => rfl
  | batchGet table keys => rfl
  | write change =>
    cases change with
    | put table item condition =>
      exact congrArg (·.state.store) (Memory.change_keeps (world.asked .put 1)
        (fun store => store.put table item condition) failed)
    | delete table key => cases failed
    | batch table puts deletes =>
      exact congrArg (·.state.store) (Memory.change_keeps (world.asked .batchWrite 1)
        (fun store => store.batchWrite limits.atLeastOne.write table puts deletes) failed)

/--
A call that fails leaves all tables as they were, though each of its steps would stay. A batch of writes
succeeds exactly when it is within the limit, every item has a key and no key occurs twice, and then every
put and every deletion has been done, and nothing else.
-/
theorem all_or_nothing (world : World Memory) :
    (∀ (α : Type) (call : Call α),
      (call.steps limits).run world = (call.ask limits).run world ∧
      ∀ fault, ((call.steps limits).run world).1 = .error fault →
        ((call.steps limits).run world).2.state.store = world.state.store) ∧
    ∀ table puts deletes,
      let outcome := ((write (.batch table puts deletes)).ask limits).run world
      (outcome.1 = .ok () ↔ puts.length + deletes.length ≤ limits.atLeastOne.write ∧
        (∀ item ∈ puts, (PrimaryKey.ofItem? item).isSome = true) ∧
        ((Batch.keyed puts).map Prod.fst ++ deletes).Nodup) ∧
      (outcome.1 = .ok () →
        world.state.store.Applied outcome.2.state.store table puts deletes) := by
  refine ⟨fun α call => ?_, fun table puts deletes => ?_⟩
  · rw [steps_run]
    exact ⟨rfl, fun fault failed => call.ask_keeps_of_error limits world failed⟩
  · intro outcome
    have ran : outcome = _ := Memory.run_batchWrite limits world table puts deletes
    rw [ran]
    cases done : world.state.store.batchWrite limits.atLeastOne.write table puts deletes with
    | ok next =>
      have accepted := (Store.batchWrite_eq_ok_iff_keyed.mp done).1
      exact ⟨iff_of_true rfl accepted, fun _ => Store.applied_of_batchWrite done⟩
    | error fault =>
      refine ⟨iff_of_false nofun fun accepted => ?_, nofun⟩
      cases done.symm.trans (Store.batchWrite_eq_ok_iff_keyed.mpr ⟨accepted, rfl⟩)

def itemNamed (name : String) : Item :=
  .ofList [("partitionKey", Value.string "Name"), ("sortKey", Value.string name)]

def adaWritten : World Memory :=
  Write.after (Memory.engine .standard) (.ofState .empty) [.put "names" (itemNamed "Ada") .always]

-- The item without a key comes last, behind one that could have been written.
theorem keyless_batch_leaves_ada :
    let batch := (write (.batch "names" [itemNamed "Ben", ∅] [⟨"Name", "Ada"⟩])).steps .standard
    (batch.run adaWritten).1 = .error (.data .keyless) ∧
      (batch.run adaWritten).2.state.store = adaWritten.state.store :=
  ⟨rfl, ((all_or_nothing .standard adaWritten).1 Unit
    (write (.batch "names" [itemNamed "Ben", ∅] [⟨"Name", "Ada"⟩]))).2 _ rfl⟩

end Call

end SharedTable
