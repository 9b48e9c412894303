import SharedTable.Proofs.Table.Records

/-!
Runs of calls on a table, and the ledger of what they leave: under every key the record last written
there and not deleted since. Over memory, the contents of the table mirror the ledger.
-/

set_option autoImplicit false

namespace SharedTable

variable {σ α : Type}

abbrev Ledger (α : Type) := Std.ExtTreeMap PrimaryKey α

namespace RecordWrite

/-- The ledger after a write. A write whose keys cannot be composed leaves it as it is. -/
def note (table : Table σ α) (ledger : Ledger α) : RecordWrite α → Ledger α
  | .put record =>
    match table.recordKey record with
    | .ok key => ledger.insert key record
    | .error _ => ledger
  | .putIfAbsent record =>
    match table.recordKey record with
    | .ok key => if key ∈ ledger then ledger else ledger.insert key record
    | .error _ => ledger
  | .delete key =>
    match table.primaryKey key with
    | .ok key => ledger.erase key
    | .error _ => ledger
  | .batchPut records =>
    match records.mapM table.recordKey with
    | .ok keys => ledger.insertMany (keys.zip records)
    | .error _ => ledger
  | .batchDelete keys =>
    match keys.mapM table.primaryKey with
    | .ok keys => keys.foldl Std.ExtTreeMap.erase ledger
    | .error _ => ledger

def ledger (table : Table σ α) (writes : List (RecordWrite α)) : Ledger α :=
  writes.foldl (note table) ∅

end RecordWrite

namespace RecordCall

def perform (table : Table σ α) (world : World σ) (call : RecordCall α) : World σ :=
  ((call.act table).run world).2

def after (table : Table σ α) (world : World σ) (calls : List (RecordCall α)) : World σ :=
  calls.foldl (perform table) world

def note (table : Table σ α) (ledger : Ledger α) : RecordCall α → Ledger α
  | .write update => update.note table ledger
  | _ => ledger

def ledger (table : Table σ α) (calls : List (RecordCall α)) : Ledger α :=
  calls.foldl (note table) ∅

end RecordCall

def Mirrors (table : Table σ α) (fits : α → Prop) (ledger : Ledger α) (contents : Contents) : Prop :=
  ∀ key, Option.Rel (fun record item => fits record ∧ table.encode record = .ok (key, item))
    ledger[key]? contents[key]?

namespace Mirrors

variable {table : Table σ α} {fits : α → Prop} {ledger : Ledger α} {contents : Contents}

theorem empty : Mirrors table fits ∅ ∅ := by
  intro key
  rw [Std.ExtTreeMap.getElem?_empty, Std.ExtTreeMap.getElem?_empty]
  exact .none

theorem insert (mirrors : Mirrors table fits ledger contents) {record : α} {key : PrimaryKey}
    {item : Item} (fit : fits record) (encoded : table.encode record = .ok (key, item)) :
    Mirrors table fits (ledger.insert key record) (contents.insert key item) := by
  intro other
  rw [Std.ExtTreeMap.getElem?_insert, Std.ExtTreeMap.getElem?_insert]
  by_cases same : compare key other = .eq
  · cases Std.LawfulEqCmp.eq_of_compare same
    rw [if_pos same, if_pos same]
    exact .some ⟨fit, encoded⟩
  · rw [if_neg same, if_neg same]
    exact mirrors other

theorem erase (mirrors : Mirrors table fits ledger contents) (key : PrimaryKey) :
    Mirrors table fits (ledger.erase key) (contents.erase key) := by
  intro other
  rw [Std.ExtTreeMap.getElem?_erase, Std.ExtTreeMap.getElem?_erase]
  by_cases same : compare key other = .eq
  · rw [if_pos same, if_pos same]
    exact .none
  · rw [if_neg same, if_neg same]
    exact mirrors other

theorem insertMany (mirrors : Mirrors table fits ledger contents) {records : List α}
    {entries : List (PrimaryKey × Item)}
    (encoded : List.Forall₂ (fun record entry => table.encode record = .ok entry) records entries)
    (fit : ∀ record ∈ records, fits record) :
    Mirrors table fits (ledger.insertMany ((entries.map Prod.fst).zip records))
      (contents.insertMany entries) := by
  induction encoded generalizing ledger contents with
  | nil => exact mirrors
  | cons first _ ih =>
    rw [List.map_cons, List.zip_cons_cons, Std.ExtTreeMap.insertMany_cons,
      Std.ExtTreeMap.insertMany_cons]
    rw [List.forall_mem_cons] at fit
    exact ih (mirrors.insert fit.1 first) fit.2

theorem foldl_erase (mirrors : Mirrors table fits ledger contents) (keys : List PrimaryKey) :
    Mirrors table fits (keys.foldl Std.ExtTreeMap.erase ledger)
      (keys.foldl Std.ExtTreeMap.erase contents) := by
  induction keys generalizing ledger contents with
  | nil => exact mirrors
  | cons key rest ih => exact ih (mirrors.erase key)

theorem mem_iff (mirrors : Mirrors table fits ledger contents) (key : PrimaryKey) :
    key ∈ ledger ↔ key ∈ contents := by
  rw [Std.ExtTreeMap.mem_iff_isSome_getElem?, Std.ExtTreeMap.mem_iff_isSome_getElem?]
  have related := mirrors key
  generalize ledger[key]? = held at related ⊢
  generalize contents[key]? = stored at related ⊢
  cases related <;> rfl

theorem getElem?_eq_some_iff (mirrors : Mirrors table fits ledger contents) {key : PrimaryKey}
    {item : Item} :
    contents[key]? = some item ↔
      ∃ record, ledger[key]? = some record ∧ fits record ∧ table.encode record = .ok (key, item) := by
  have related := mirrors key
  generalize ledger[key]? = held at related ⊢
  generalize contents[key]? = stored at related ⊢
  cases related with
  | none => simp
  | some related =>
    simp only [Option.some.injEq, exists_eq_left']
    constructor
    · rintro rfl
      exact related
    · rintro ⟨_, also⟩
      exact (Prod.mk.inj (Except.ok.inj (related.2.symm.trans also))).2

theorem stored_of_held (mirrors : Mirrors table fits ledger contents) {key : PrimaryKey} {record : α}
    (held : ledger[key]? = some record) :
    ∃ item, contents[key]? = some item ∧ fits record ∧ table.encode record = .ok (key, item) := by
  have related := mirrors key
  rw [held] at related
  generalize contents[key]? = stored at related ⊢
  cases related with
  | some related => exact ⟨_, rfl, related⟩

theorem keyed (mirrors : Mirrors table fits ledger contents) : contents.Keyed := by
  intro key item found
  obtain ⟨record, _, _, encoded⟩ := mirrors.getElem?_eq_some_iff.mp found
  exact Table.ofItem?_of_encode encoded

end Mirrors

theorem Mirrors.note {table : Table σ α} {fits : α → Prop} {ledger : Ledger α} {contents : Contents}
    (mirrors : Mirrors table fits ledger contents) (write : RecordWrite α)
    (fit : ∀ record ∈ write.records, fits record) :
    Mirrors table fits (write.note table ledger)
      (contents.edited (Effect.editsOf (write.outcome table contents))) := by
  cases write with
  | put record =>
    rw [RecordWrite.note, RecordWrite.outcome, Table.recordKey_eq]
    -- What cannot be encoded changes neither the table nor the ledger.
    cases encoded : table.encode record with
    | error fault => exact mirrors
    | ok entry => exact mirrors.insert (fit record List.mem_cons_self) encoded
  | putIfAbsent record =>
    rw [RecordWrite.note, RecordWrite.outcome, Table.recordKey_eq]
    cases encoded : table.encode record with
    | error fault => exact mirrors
    | ok entry =>
      by_cases taken : entry.1 ∈ contents
      · simp only [bind, Except.bind, Except.map, (mirrors.mem_iff entry.1).mpr taken, taken, if_true]
        exact mirrors
      · simp only [bind, Except.bind, Except.map, mt (mirrors.mem_iff entry.1).mp taken, taken, if_false]
        exact mirrors.insert (fit record List.mem_cons_self) encoded
  | delete key =>
    rw [RecordWrite.note, RecordWrite.outcome]
    cases table.primaryKey key with
    | error fault => exact mirrors
    | ok key => exact mirrors.erase key
  | batchPut records =>
    rw [RecordWrite.note, RecordWrite.outcome, Table.mapM_recordKey]
    cases encoded : records.mapM table.encode with
    | error fault => exact mirrors
    | ok entries =>
      have many := mirrors.insertMany (mapM_eq_ok_iff.mp encoded) fit
      rw [← Contents.edited_inserts] at many
      exact many
  | batchDelete keys =>
    rw [RecordWrite.note, RecordWrite.outcome]
    cases keys.mapM table.primaryKey with
    | error fault => exact mirrors
    | ok keys =>
      have many := mirrors.foldl_erase keys
      rw [← Contents.edited_erases] at many
      exact many

namespace RecordCall

variable {limits : BatchLimits} {table : Table Memory α} {fits : α → Prop} {ledger : Ledger α}
  {world : World Memory}

theorem perform_mirrors (served : table.engine = Memory.engine limits)
    (mirrors : Mirrors table fits ledger (world.state.store.contents table.name)) (call : RecordCall α)
    (fit : ∀ record ∈ call.records, fits record) :
    Mirrors table fits (call.note table ledger)
      ((call.perform table world).state.store.contents table.name) := by
  obtain ⟨next, ran, edited⟩ := call.describes served world mirrors.keyed
  rw [perform, ran, edited.contents]
  cases call with
  | get key =>
    rw [editsOf_get]
    exact mirrors
  | batchGet keys =>
    rw [editsOf_batchGet]
    exact mirrors
  | write update => exact mirrors.note update fit

theorem foldl_perform_mirrors (served : table.engine = Memory.engine limits)
    (mirrors : Mirrors table fits ledger (world.state.store.contents table.name))
    (calls : List (RecordCall α)) (fit : ∀ call ∈ calls, ∀ record ∈ call.records, fits record) :
    Mirrors table fits (calls.foldl (note table) ledger)
      ((after table world calls).state.store.contents table.name) := by
  induction calls generalizing ledger world with
  | nil => exact mirrors
  | cons call rest ih =>
    rw [List.forall_mem_cons] at fit
    exact ih (perform_mirrors served mirrors call fit.1) fit.2

theorem after_mirrors (served : table.engine = Memory.engine limits)
    (empty : world.state.store.contents table.name = ∅) (calls : List (RecordCall α))
    (fit : ∀ call ∈ calls, ∀ record ∈ call.records, fits record) :
    Mirrors table fits (RecordCall.ledger table calls)
      ((after table world calls).state.store.contents table.name) := by
  refine foldl_perform_mirrors served ?_ calls fit
  rw [empty]
  exact .empty

end RecordCall

namespace RecordWrite

variable {limits : BatchLimits} {fits : α → Prop}

theorem after_eq (table : Table σ α) (world : World σ) (writes : List (RecordWrite α)) :
    after table world writes = RecordCall.after table world (writes.map .write) := by
  have step : perform table = fun world write => RecordCall.perform table world (.write write) :=
    funext₂ (perform_eq table)
  rw [after, RecordCall.after, List.foldl_map, step]

theorem ledger_eq (table : Table σ α) (writes : List (RecordWrite α)) :
    ledger table writes = RecordCall.ledger table (writes.map .write) := by
  rw [ledger, RecordCall.ledger, List.foldl_map]
  rfl

theorem after_mirrors {table : Table Memory α} {world : World Memory}
    (served : table.engine = Memory.engine limits)
    (empty : world.state.store.contents table.name = ∅) (writes : List (RecordWrite α))
    (fit : ∀ write ∈ writes, ∀ record ∈ write.records, fits record) :
    Mirrors table fits (RecordWrite.ledger table writes)
      ((after table world writes).state.store.contents table.name) := by
  rw [after_eq, ledger_eq]
  apply RecordCall.after_mirrors served empty
  intro call member
  obtain ⟨write, inWrites, rfl⟩ := List.mem_map.mp member
  exact fit write inWrites

end RecordWrite

end SharedTable
