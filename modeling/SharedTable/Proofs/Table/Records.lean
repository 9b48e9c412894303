import SharedTable.Proofs.Table.Reads

/-!
Calls on the records of a table. Over memory, the items of the table tell what a call comes to: its
answer, and the edits that it makes under the keys of its records.
-/

set_option autoImplicit false

namespace SharedTable

variable {σ α : Type}

def Table.Unreserved (table : Table σ α) (record : α) : Prop :=
  ∀ fields, (table.type.toValue record).fields? = some fields → Item.Unreserved fields

inductive RecordWrite (α : Type) where
  | put (record : α)
  | putIfAbsent (record : α)
  | delete (key : Value)
  | batchPut (records : List α)
  | batchDelete (keys : List Value)

namespace RecordWrite

def records : RecordWrite α → List α
  | .put record => [record]
  | .putIfAbsent record => [record]
  | .delete _ => []
  | .batchPut records => records
  | .batchDelete _ => []

def perform (table : Table σ α) (world : World σ) : RecordWrite α → World σ
  | .put record => ((table.put record).run world).2
  | .putIfAbsent record => ((table.putIfAbsent record).run world).2
  | .delete key => ((table.delete key).run world).2
  | .batchPut records => ((table.batchPut records).run world).2
  | .batchDelete keys => ((table.batchDelete keys).run world).2

def after (table : Table σ α) (world : World σ) (writes : List (RecordWrite α)) : World σ :=
  writes.foldl (perform table) world

end RecordWrite

inductive RecordCall (α : Type) where
  | get (key : Value)
  | batchGet (keys : List Value)
  | write (write : RecordWrite α)

inductive RecordAnswer (α : Type) where
  | found (record : Option α)
  | batch (records : List α)
  | stored (record : α)
  | created (fresh : Bool)
  | done

abbrev Edit := PrimaryKey × Option Item

namespace Contents

def edit (contents : Contents) : Edit → Contents
  | (key, some item) => contents.insert key item
  | (key, none) => contents.erase key

def edited (contents : Contents) (edits : List Edit) : Contents := edits.foldl edit contents

theorem getElem?_edit (contents : Contents) (edit : Edit) (key : PrimaryKey) :
    (contents.edit edit)[key]? = if edit.1 = key then edit.2 else contents[key]? := by
  obtain ⟨place, _ | item⟩ := edit <;>
    simp [Contents.edit, Std.ExtTreeMap.getElem?_erase, Std.ExtTreeMap.getElem?_insert]

theorem getElem?_edited_of_not_mem (contents : Contents) {edits : List Edit} {key : PrimaryKey}
    (apart : key ∉ edits.map Prod.fst) : (contents.edited edits)[key]? = contents[key]? := by
  induction edits generalizing contents with
  | nil => rfl
  | cons edit rest ih =>
    rw [List.map_cons, List.mem_cons, not_or] at apart
    exact (ih (contents.edit edit) apart.2).trans
      ((getElem?_edit contents edit key).trans (if_neg (Ne.symm apart.1)))

theorem edited_inserts (contents : Contents) (entries : List (PrimaryKey × Item)) :
    contents.edited (entries.map fun entry => (entry.1, some entry.2)) = contents.insertMany entries := by
  rw [Std.ExtTreeMap.insertMany_list_eq_foldl, edited, List.foldl_map]
  rfl

theorem edited_erases (contents : Contents) (keys : List PrimaryKey) :
    contents.edited (keys.map fun key => (key, none)) = keys.foldl Std.ExtTreeMap.erase contents := by
  rw [edited, List.foldl_map]
  rfl

end Contents

structure Store.Edited (name : String) (edits : List Edit) (before after : Store) : Prop where
  contents : after.contents name = (before.contents name).edited edits
  kept : name ∈ before → name ∈ after

namespace Store

variable {store : Store} {name : String}

theorem edited_nil : Edited name [] store store := ⟨rfl, id⟩

theorem edited_insert {edits : List Edit} {contents : Contents}
    (same : (store.contents name).edited edits = contents) :
    Edited name edits store (store.insert name contents) where
  contents := (contents_insert_self store name contents).trans same.symm
  kept _ := Std.ExtTreeMap.mem_insert_self

theorem edited_delete (key : PrimaryKey) :
    Edited name [(key, none)] store (store.delete name key) := by
  by_cases written : name ∈ store
  · rw [delete_of_mem written]
    exact edited_insert rfl
  · exact ⟨contents_delete_self store name key, fun also => absurd also written⟩

theorem edited_batches {memory : Memory} {edits : List Edit} {batches : Nat} {contents : Contents}
    (same : (memory.store.contents name).edited edits = contents) (none : batches = 0 → edits = []) :
    Edited name edits memory.store (memory.batchWritten name batches contents).store := by
  rw [Memory.batchWritten]
  split
  next idle =>
    rw [none idle]
    exact edited_nil
  next => exact edited_insert same

end Store

structure Effect (α : Type) where
  answer : RecordAnswer α
  edits : List Edit

namespace Effect

def editsOf : Except Fault (Effect α) → List Edit
  | .ok effect => effect.edits
  | .error _ => []

/-- A step answers as an outcome says, and leaves the tables as the edits of the outcome do. -/
def Describes (outcome : Except Fault (Effect α)) (name : String)
    (action : Action Memory (RecordAnswer α)) (world : World Memory) : Prop :=
  ∃ next, action.run world = (outcome.map answer, next) ∧
    Store.Edited name (editsOf outcome) world.state.store next.state.store

variable {β : Type} {action : Action Memory β} {shown : β → RecordAnswer α} {name : String}
  {world next : World Memory}

theorem describes_unchanged {outcome : Except Fault β} (ran : action.run world = (outcome, next))
    (same : next.state.store = world.state.store) :
    Describes (outcome.map fun result => ⟨shown result, []⟩) name (shown <$> action) world := by
  have idle : editsOf (outcome.map fun result => (⟨shown result, []⟩ : Effect α)) = [] := by
    cases outcome <;> rfl
  rw [Describes, Action.run_map, ran, idle]
  refine ⟨next, ?_, same ▸ Store.edited_nil⟩
  cases outcome <;> rfl

theorem describes_edits {result : β} {edits : List Edit} (ran : action.run world = (.ok result, next))
    (edited : Store.Edited name edits world.state.store next.state.store) :
    Describes (.ok ⟨shown result, edits⟩) name (shown <$> action) world := by
  rw [Describes, Action.run_map, ran]
  exact ⟨next, rfl, edited⟩

end Effect

def Table.recordKey (table : Table σ α) (record : α) : Except Fault PrimaryKey :=
  table.primaryKey (table.type.toValue record)

theorem Table.recordKey_eq (table : Table σ α) (record : α) :
    table.recordKey record = (table.encode record).map Prod.fst := by
  unfold recordKey primaryKey encode
  cases (table.type.toValue record).fields <;> rfl

theorem Table.mapM_recordKey (table : Table σ α) (records : List α) :
    records.mapM table.recordKey = (records.mapM table.encode).map (List.map Prod.fst) := by
  induction records with
  | nil => rfl
  | cons record rest ih =>
    rw [List.mapM_cons, List.mapM_cons, ih, Table.recordKey_eq]
    cases table.encode record with
    | error fault => rfl
    | ok entry => cases rest.mapM table.encode <;> rfl

namespace RecordWrite

def act (table : Table σ α) : RecordWrite α → Action σ (RecordAnswer α)
  | .put record => .stored <$> table.put record
  | .putIfAbsent record => .created <$> table.putIfAbsent record
  | .delete key => (fun _ => .done) <$> table.delete key
  | .batchPut records => (fun _ => .done) <$> table.batchPut records
  | .batchDelete keys => (fun _ => .done) <$> table.batchDelete keys

theorem perform_eq (table : Table σ α) (world : World σ) (write : RecordWrite α) :
    perform table world write = ((write.act table).run world).2 := by
  cases write <;> rw [perform, act, Action.run_map]

def outcome (table : Table σ α) (contents : Contents) : RecordWrite α → Except Fault (Effect α)
  | .put record => do
    let (key, item) ← table.encode record
    return ⟨.stored record, [(key, some item)]⟩
  | .putIfAbsent record => do
    let (key, item) ← table.encode record
    return if key ∈ contents then ⟨.created false, []⟩ else ⟨.created true, [(key, some item)]⟩
  | .delete key => do
    let key ← table.primaryKey key
    return ⟨.done, [(key, none)]⟩
  | .batchPut records => do
    let entries ← records.mapM table.encode
    return ⟨.done, entries.map fun entry => (entry.1, some entry.2)⟩
  | .batchDelete keys => do
    let keys ← keys.mapM table.primaryKey
    return ⟨.done, keys.map fun key => (key, none)⟩

def keys (table : Table σ α) : RecordWrite α → Except Fault (List PrimaryKey)
  | .put record => (table.recordKey record).map fun key => [key]
  | .putIfAbsent record => (table.recordKey record).map fun key => [key]
  | .delete key => (table.primaryKey key).map fun key => [key]
  | .batchPut records => records.mapM table.recordKey
  | .batchDelete keys => keys.mapM table.primaryKey

section Edits

variable {table : Table σ α} {contents : Contents} {write : RecordWrite α} {edit : Edit}

theorem mem_edits_put {record : α}
    (member : edit ∈ Effect.editsOf ((RecordWrite.put record).outcome table contents)) :
    ∃ entry, table.encode record = .ok entry ∧ edit = (entry.1, some entry.2) := by
  rw [outcome] at member
  cases encoded : table.encode record with
  | error fault =>
    rw [encoded] at member
    cases member
  | ok entry =>
    rw [encoded] at member
    exact ⟨entry, rfl, List.mem_singleton.mp member⟩

theorem edits_putIfAbsent_subset (record : α) :
    Effect.editsOf ((RecordWrite.putIfAbsent record).outcome table contents) ⊆
      Effect.editsOf ((RecordWrite.put record).outcome table contents) := by
  rw [outcome, outcome]
  cases table.encode record with
  | error fault => exact List.Subset.refl _
  | ok entry =>
    by_cases taken : entry.1 ∈ contents
    · simp only [bind, Except.bind, taken, if_true]
      exact List.nil_subset _
    · simp only [bind, Except.bind, taken, if_false]
      exact List.Subset.refl _

theorem mem_edits (member : edit ∈ Effect.editsOf (write.outcome table contents)) :
    (∃ keys, write.keys table = .ok keys ∧ edit.1 ∈ keys) ∧
      ∀ item, edit.2 = some item → ∃ record ∈ write.records, table.encode record = .ok (edit.1, item) := by
  -- Edits are made only where the keys of the write have been composed.
  have single {record : α} (member : edit ∈ Effect.editsOf ((RecordWrite.put record).outcome table contents)) :
      (∃ keys, (table.recordKey record).map (fun key => [key]) = .ok keys ∧ edit.1 ∈ keys) ∧
        ∀ item, edit.2 = some item → ∃ own ∈ [record], table.encode own = .ok (edit.1, item) := by
    obtain ⟨entry, encoded, rfl⟩ := mem_edits_put member
    rw [Table.recordKey_eq, encoded]
    refine ⟨⟨[entry.1], rfl, List.mem_cons_self⟩, fun item same => ⟨record, List.mem_cons_self, ?_⟩⟩
    cases same
    exact encoded
  cases write with
  | put record => exact single member
  | putIfAbsent record => exact single (edits_putIfAbsent_subset record member)
  | delete key =>
    rw [outcome] at member
    rw [keys]
    cases composed : table.primaryKey key with
    | error fault => rw [composed] at member; cases member
    | ok key =>
      rw [composed] at member
      cases List.mem_singleton.mp member
      exact ⟨⟨[key], rfl, List.mem_cons_self⟩, nofun⟩
  | batchPut records =>
    rw [outcome] at member
    rw [keys, Table.mapM_recordKey]
    cases encoded : records.mapM table.encode with
    | error fault => rw [encoded] at member; cases member
    | ok entries =>
      rw [encoded] at member
      obtain ⟨entry, inEntries, rfl⟩ := List.mem_map.mp member
      obtain ⟨record, inRecords, also⟩ := exists_of_mem_right (mapM_eq_ok_iff.mp encoded) inEntries
      refine ⟨⟨_, rfl, List.mem_map_of_mem inEntries⟩, fun item same => ⟨record, inRecords, ?_⟩⟩
      cases same
      exact also
  | batchDelete keys =>
    rw [outcome] at member
    rw [RecordWrite.keys]
    cases composed : keys.mapM table.primaryKey with
    | error fault => rw [composed] at member; cases member
    | ok keys =>
      rw [composed] at member
      obtain ⟨key, inKeys, rfl⟩ := List.mem_map.mp member
      exact ⟨⟨_, rfl, inKeys⟩, nofun⟩

end Edits

end RecordWrite

namespace RecordCall

def act (table : Table σ α) : RecordCall α → Action σ (RecordAnswer α)
  | .get key => .found <$> table.get key
  | .batchGet keys => .batch <$> table.batchGet keys
  | .write update => update.act table

def records : RecordCall α → List α
  | .write update => update.records
  | _ => []

def outcome (table : Table σ α) (contents : Contents) : RecordCall α → Except Fault (Effect α)
  | .get key => do
    let key ← table.primaryKey key
    return ⟨.found (← contents[key]?.mapM table.decode), []⟩
  | .batchGet keys => do
    let keys ← keys.mapM table.primaryKey
    return ⟨.batch (← (keys.eraseDups.filterMap fun key => contents[key]?).mapM table.decode), []⟩
  | .write update => update.outcome table contents

theorem editsOf_get {table : Table σ α} {contents : Contents} (key : Value) :
    Effect.editsOf ((RecordCall.get key).outcome table contents) = [] := by
  rw [outcome]
  cases table.primaryKey key with
  | error fault => rfl
  | ok key =>
    simp only [bind, Except.bind]
    cases contents[key]?.mapM table.decode <;> rfl

theorem editsOf_batchGet {table : Table σ α} {contents : Contents} (keys : List Value) :
    Effect.editsOf ((RecordCall.batchGet keys).outcome table contents) = [] := by
  rw [outcome]
  cases keys.mapM table.primaryKey with
  | error fault => rfl
  | ok keys =>
    simp only [bind, Except.bind]
    cases (keys.eraseDups.filterMap fun key => contents[key]?).mapM table.decode <;> rfl

theorem write_of_mem_edits {table : Table σ α} {contents : Contents} {call : RecordCall α} {edit : Edit}
    (member : edit ∈ Effect.editsOf (call.outcome table contents)) :
    ∃ write, call = .write write ∧ edit ∈ Effect.editsOf (write.outcome table contents) := by
  cases call with
  | get key =>
    rw [editsOf_get] at member
    cases member
  | batchGet keys =>
    rw [editsOf_batchGet] at member
    cases member
  | write update => exact ⟨update, rfl, member⟩

end RecordCall

section Served

variable {limits : BatchLimits} {table : Table Memory α} (served : table.engine = Memory.engine limits)
  (world : World Memory)

include served

theorem RecordWrite.describes (write : RecordWrite α) :
    Effect.Describes (write.outcome table (world.state.store.contents table.name)) table.name
      (write.act table) world := by
  cases write with
  | put record =>
    rw [outcome, act]
    cases encoded : table.encode record with
    | error fault => exact Effect.describes_unchanged (Table.put_run_unencoded world encoded) rfl
    | ok entry =>
      exact Effect.describes_edits (Table.put_run served world encoded) (Store.edited_insert rfl)
  | putIfAbsent record =>
    rw [outcome, act]
    cases encoded : table.encode record with
    | error fault => exact Effect.describes_unchanged (Table.putIfAbsent_run_unencoded world encoded) rfl
    | ok entry =>
      by_cases taken : entry.1 ∈ world.state.store.contents table.name
      · simp only [bind, Except.bind, taken, if_true]
        exact Effect.describes_unchanged (Table.putIfAbsent_run_taken served world encoded taken) rfl
      · simp only [bind, Except.bind, taken, if_false]
        exact Effect.describes_edits (Table.putIfAbsent_run_free served world encoded taken)
          (Store.edited_insert rfl)
  | delete key =>
    rw [outcome, act]
    cases composed : table.primaryKey key with
    | error fault => exact Effect.describes_unchanged (Table.delete_run_uncomposed world composed) rfl
    | ok key =>
      exact Effect.describes_edits (Table.delete_run served world composed) (Store.edited_delete key)
  | batchPut records =>
    rw [outcome, act]
    cases encoded : records.mapM table.encode with
    | error fault => exact Effect.describes_unchanged (Table.batchPut_run_unencoded world encoded) rfl
    | ok entries =>
      obtain ⟨next, ran, left⟩ := Table.batchPut_run served world encoded
      have made := Contents.edited_inserts (world.state.store.contents table.name) entries
      refine Effect.describes_edits ran (left ▸ Store.edited_batches made ?_)
      rw [Batch.chunkCount_card_eq_zero_iff limits.atLeastOne_write_pos, List.map_eq_nil_iff,
        List.map_eq_nil_iff]
      exact id
  | batchDelete keys =>
    rw [outcome, act]
    cases composed : keys.mapM table.primaryKey with
    | error fault => exact Effect.describes_unchanged (Table.batchDelete_run_uncomposed world composed) rfl
    | ok keys =>
      obtain ⟨next, ran, left⟩ := Table.batchDelete_run served world composed
      have made := Contents.edited_erases (world.state.store.contents table.name) keys
      refine Effect.describes_edits ran (left ▸ Store.edited_batches made ?_)
      rw [Batch.chunkCount_card_eq_zero_iff limits.atLeastOne_write_pos, List.map_eq_nil_iff]
      exact id

theorem RecordCall.describes (keyed : (world.state.store.contents table.name).Keyed)
    (call : RecordCall α) :
    Effect.Describes (call.outcome table (world.state.store.contents table.name)) table.name
      (call.act table) world := by
  cases call with
  | get key =>
    rw [outcome, act]
    cases composed : table.primaryKey key with
    | error fault => exact Effect.describes_unchanged (Table.get_run_uncomposed world composed) rfl
    | ok key => exact Effect.describes_unchanged (Table.get_run served world composed) rfl
  | batchGet keys =>
    rw [outcome, act]
    cases composed : keys.mapM table.primaryKey with
    | error fault => exact Effect.describes_unchanged (Table.batchGet_run_uncomposed world composed) rfl
    | ok keys =>
      obtain ⟨next, ran, left⟩ := Table.batchGet_run served world keyed composed
      exact Effect.describes_unchanged ran (by rw [left])
  | write update => exact update.describes served world

end Served

end SharedTable
