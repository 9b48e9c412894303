import SharedTable.Proofs.Condition.Compile
import SharedTable.Proofs.Item
import SharedTable.Proofs.Key.Spelling
import SharedTable.Proofs.Query.Answers
import SharedTable.Proofs.Table.Records

/-!
Items of different types in one table. What a table of one type holds among the items of others is what it
would hold alone: its keys begin with its type name, and no other item shows this name in an attribute
that a query looks for partitions in.
-/

set_option autoImplicit false

namespace SharedTable

def PrimaryKey.isOf (typeName : String) (key : PrimaryKey) : Bool := Key.owner key.partition = typeName

theorem PrimaryKey.isOf_eq_false {key : PrimaryKey} {typeName other : String}
    (own : key.isOf typeName = true) (differ : typeName ≠ other) : key.isOf other = false := by
  have named : Key.owner key.partition = typeName := of_decide_eq_true own
  exact decide_eq_false (named.trans_ne differ)

def partitionAttrOf (slot : Option IndexSlot) : String :=
  (slot.map IndexSlot.partitionAttr).getD partitionAttr

def Item.HiddenFrom (typeName : String) (item : Item) : Prop :=
  ∀ slot text, item.text? (partitionAttrOf slot) = some text → Key.owner text ≠ typeName

theorem Item.HiddenFrom.holds_eq_false {typeName : String} {item : Item} (hidden : item.HiddenFrom typeName)
    (slot : Option IndexSlot) {partition : String} (asks : Key.owner partition = typeName)
    (sort : Option SortCondition) : (KeyCondition.ofSlot slot partition sort).holds item = false := by
  rw [← Bool.not_eq_true, Contents.holds_iff]
  intro meets
  exact hidden slot partition meets.1 asks

theorem Item.hiddenFrom_encode {schema : Schema} (plain : Key.Plain schema.typeName) {fields : Fields}
    (unreserved : Item.Unreserved fields) {typeName : String} (differ : schema.typeName ≠ typeName) :
    (Item.encode schema fields).HiddenFrom typeName := by
  intro slot text read
  cases slot with
  | none =>
    have own := (PrimaryKey.ofItem?_eq_some_iff.mp (Item.ofItem?_encode schema fields)).1
    change (Item.encode schema fields).text? partitionAttr = some text at read
    rw [own, Option.some.injEq] at read
    rw [← read]
    exact (Key.owner_partition plain _ _).trans_ne differ
  | some slot =>
    obtain ⟨index, _, rfl⟩ := Item.index_of_text? unreserved read
    exact (Key.owner_partition plain _ _).trans_ne differ

namespace Contents

def ofType (typeName : String) (contents : Contents) : Contents :=
  contents.filter fun key _ => key.isOf typeName

theorem getElem?_ofType {typeName : String} {contents : Contents} {key : PrimaryKey}
    (own : key.isOf typeName = true) : (contents.ofType typeName)[key]? = contents[key]? := by
  rw [ofType, Std.ExtTreeMap.getElem?_filter']
  cases contents[key]? with
  | none => rfl
  | some item => simp [own]

theorem ofType_edit_own {typeName : String} (contents : Contents) {edit : Edit}
    (own : edit.1.isOf typeName = true) :
    (contents.edit edit).ofType typeName = (contents.ofType typeName).edit edit := by
  apply Std.ExtTreeMap.ext_getElem?
  intro key
  simp only [ofType, Std.ExtTreeMap.getElem?_filter', getElem?_edit]
  by_cases same : edit.1 = key
  · subst same
    simp only [if_true]
    cases edit.2 <;> simp [own]
  · simp only [same, if_false]

theorem ofType_edit_other {typeName : String} (contents : Contents) {edit : Edit}
    (other : edit.1.isOf typeName = false) :
    (contents.edit edit).ofType typeName = contents.ofType typeName := by
  apply Std.ExtTreeMap.ext_getElem?
  intro key
  simp only [ofType, Std.ExtTreeMap.getElem?_filter', getElem?_edit]
  by_cases same : edit.1 = key
  · subst same
    simp only [if_true]
    cases edit.2 <;> cases contents[edit.1]? <;> simp [other]
  · simp only [same, if_false]

end Contents

def Edit.Keyed (edit : Edit) : Prop := ∀ item, edit.2 = some item → PrimaryKey.ofItem? item = some edit.1

theorem Contents.Keyed.edit {contents : Contents} (keyed : contents.Keyed) {edit : Edit}
    (own : edit.Keyed) : (contents.edit edit).Keyed := by
  intro key item found
  rw [Contents.getElem?_edit] at found
  split at found
  next same => exact same ▸ own item found
  next => exact keyed key item found

structure Apart (typeName : String) (shared alone : Contents) : Prop where
  own : alone = shared.ofType typeName
  keyed : shared.Keyed
  hidden : ∀ (key : PrimaryKey) (item : Item), shared[key]? = some item → key.isOf typeName = false →
    item.HiddenFrom typeName

namespace Apart

variable {typeName : String} {shared alone : Contents}

theorem empty : Apart typeName ∅ ∅ where
  own := by
    apply Std.ExtTreeMap.ext_getElem?
    intro key
    simp [Contents.ofType]
  keyed := Contents.keyed_empty
  hidden key item found := by simp at found

theorem aloneKeyed (apart : Apart typeName shared alone) : alone.Keyed := by
  intro key item found
  rw [apart.own, Contents.ofType, Std.ExtTreeMap.getElem?_filter', Option.filter_eq_some_iff] at found
  exact apart.keyed key item found.1

theorem getElem?_eq (apart : Apart typeName shared alone) {key : PrimaryKey}
    (own : key.isOf typeName = true) : shared[key]? = alone[key]? := by
  rw [apart.own, Contents.getElem?_ofType own]

theorem edit_own (apart : Apart typeName shared alone) {edit : Edit} (keyed : edit.Keyed)
    (own : edit.1.isOf typeName = true) : Apart typeName (shared.edit edit) (alone.edit edit) where
  own := by rw [Contents.ofType_edit_own shared own, ← apart.own]
  keyed := apart.keyed.edit keyed
  hidden key item found other := by
    rw [Contents.getElem?_edit] at found
    split at found
    next same =>
      rw [← same, own] at other
      cases other
    next => exact apart.hidden key item found other

theorem edit_other (apart : Apart typeName shared alone) {edit : Edit} (keyed : edit.Keyed)
    (other : edit.1.isOf typeName = false)
    (hidden : ∀ item : Item, edit.2 = some item → item.HiddenFrom typeName) :
    Apart typeName (shared.edit edit) alone where
  own := by rw [Contents.ofType_edit_other shared other, ← apart.own]
  keyed := apart.keyed.edit keyed
  hidden key item found apartKey := by
    rw [Contents.getElem?_edit] at found
    split at found
    next => exact hidden item found
    next => exact apart.hidden key item found apartKey

theorem edited_own (apart : Apart typeName shared alone) {edits : List Edit}
    (own : ∀ edit ∈ edits, edit.Keyed ∧ edit.1.isOf typeName = true) :
    Apart typeName (shared.edited edits) (alone.edited edits) := by
  induction edits generalizing shared alone with
  | nil => exact apart
  | cons edit rest ih =>
    rw [List.forall_mem_cons] at own
    exact ih (apart.edit_own own.1.1 own.1.2) own.2

theorem edited_other (apart : Apart typeName shared alone) {edits : List Edit}
    (other : ∀ edit ∈ edits, edit.Keyed ∧ edit.1.isOf typeName = false ∧
      ∀ item : Item, edit.2 = some item → item.HiddenFrom typeName) :
    Apart typeName (shared.edited edits) alone := by
  induction edits generalizing shared with
  | nil => exact apart
  | cons edit rest ih =>
    rw [List.forall_mem_cons] at other
    obtain ⟨⟨keyed, apartKey, hidden⟩, later⟩ := other
    exact ih (apart.edit_other keyed apartKey hidden) later

theorem inOrder_eq (apart : Apart typeName shared alone) (slot : Option IndexSlot) {partition : String}
    (asks : Key.owner partition = typeName) (sort : Option SortCondition) (forward : Bool) :
    shared.inOrder (.ofSlot slot partition sort) forward =
      alone.inOrder (.ofSlot slot partition sort) forward := by
  have selected : alone.selected (.ofSlot slot partition sort) =
      shared.selected (.ofSlot slot partition sort) := by
    rw [apart.own, Contents.selected, Contents.selected, Contents.ofType, Std.ExtTreeMap.toList_filter,
      List.filterMap_filter]
    apply List.filterMap_congr
    intro entry member
    have stored := Std.ExtTreeMap.mem_toList_iff_getElem?_eq_some.mp member
    cases own : entry.1.isOf typeName with
    | true => rfl
    | false =>
      have hidden := apart.hidden entry.1 entry.2 stored own
      simp [hidden.holds_eq_false slot asks sort]
  rw [Contents.inOrder, Contents.inOrder, selected]

end Apart

theorem Query.seesAlike {α : Type} {query : Query Memory α} {request : Request} {a b : Store}
    (plain : Key.Plain query.table.typeName)
    (apart : Apart query.table.typeName (a.contents query.table.name) (b.contents query.table.name))
    (resumed : query.cursor = none ∨ query.table.name ∈ a ∧ query.table.name ∈ b)
    (compiled : query.compile = .ok request) : request.SeesAlike a b := by
  obtain ⟨_, index, condition, startKey, declared, restricted, named, rfl⟩ :=
    Query.compile_eq_ok_iff.mp compiled
  obtain ⟨sort, _, rfl⟩ := KeyCondition.compile_eq_ok_iff.mp restricted
  constructor
  next => exact apart.inOrder_eq _ (Key.owner_partition plain _ _) _ _
  next =>
    rcases resumed with fresh | stored
    next =>
      rw [startKey_of_fresh fresh] at named
      exact .inl (Except.ok.inj named).symm
    next => exact .inr stored

section Composed

variable {σ α : Type} {table : Table σ α} {contents : Contents}

theorem Table.primaryKey_isOf (plain : Key.Plain table.typeName) {value : Value} {key : PrimaryKey}
    (composed : table.primaryKey value = .ok key) : key.isOf table.typeName = true := by
  obtain ⟨fields, _, same⟩ := bind_eq_ok_iff.mp composed
  cases same
  exact decide_eq_true (Key.owner_partition plain _ _)

namespace RecordWrite

variable {write : RecordWrite α} {edit : Edit}

theorem isOf_of_keys (plain : Key.Plain table.typeName) {keys : List PrimaryKey}
    (composed : write.keys table = .ok keys) : ∀ key ∈ keys, key.isOf table.typeName = true := by
  have single {value : Value} (composed : (table.primaryKey value).map (fun key => [key]) = .ok keys) :
      ∀ key ∈ keys, key.isOf table.typeName = true := by
    cases one : table.primaryKey value with
    | error fault =>
      rw [one] at composed
      cases composed
    | ok key =>
      rw [one] at composed
      cases composed
      exact List.forall_mem_singleton.mpr (Table.primaryKey_isOf plain one)
  cases write with
  | put record => exact single composed
  | putIfAbsent record => exact single composed
  | delete key => exact single composed
  | batchPut records =>
    intro key member
    obtain ⟨record, _, one⟩ := exists_of_mem_right (mapM_eq_ok_iff.mp composed) member
    exact Table.primaryKey_isOf plain one
  | batchDelete values =>
    intro key member
    obtain ⟨value, _, one⟩ := exists_of_mem_right (mapM_eq_ok_iff.mp composed) member
    exact Table.primaryKey_isOf plain one

theorem edits_own (plain : Key.Plain table.typeName)
    (member : edit ∈ Effect.editsOf (write.outcome table contents)) :
    edit.Keyed ∧ edit.1.isOf table.typeName = true := by
  obtain ⟨⟨keys, composed, inKeys⟩, items⟩ := mem_edits member
  refine ⟨fun item put => ?_, isOf_of_keys plain composed edit.1 inKeys⟩
  obtain ⟨record, _, encoded⟩ := items item put
  exact Table.ofItem?_of_encode encoded

theorem edits_hidden (plain : Key.Plain table.typeName)
    (unreserved : ∀ record ∈ write.records, table.Unreserved record) {typeName : String}
    (differ : table.typeName ≠ typeName)
    (member : edit ∈ Effect.editsOf (write.outcome table contents)) :
    ∀ item : Item, edit.2 = some item → item.HiddenFrom typeName := by
  intro item put
  obtain ⟨record, inWrite, encoded⟩ := (mem_edits member).2 item put
  obtain ⟨fields, shown, _, rfl⟩ := Table.encode_eq_ok_iff.mp encoded
  exact Item.hiddenFrom_encode plain (unreserved record inWrite fields shown) differ

end RecordWrite

/-- A call comes to the same in contents with the same items under the keys of its type. -/
theorem RecordCall.outcome_congr (plain : Key.Plain table.typeName) {a b : Contents}
    (same : ∀ key : PrimaryKey, key.isOf table.typeName = true → a[key]? = b[key]?)
    (call : RecordCall α) : call.outcome table a = call.outcome table b := by
  cases call with
  | get value =>
    rw [outcome, outcome]
    cases composed : table.primaryKey value with
    | error fault => rfl
    | ok key =>
      simp only [bind, Except.bind, same key (Table.primaryKey_isOf plain composed)]
  | batchGet values =>
    rw [outcome, outcome]
    cases composed : values.mapM table.primaryKey with
    | error fault => rfl
    | ok keys =>
      have found : (keys.eraseDups.filterMap fun key => a[key]?) =
          keys.eraseDups.filterMap fun key => b[key]? := by
        apply List.filterMap_congr
        intro key member
        obtain ⟨value, _, one⟩ :=
          exists_of_mem_right (mapM_eq_ok_iff.mp composed) (List.mem_eraseDups.mp member)
        exact same key (Table.primaryKey_isOf plain one)
      simp only [bind, Except.bind, found]
  | write write =>
    rw [outcome, outcome]
    cases write with
    | putIfAbsent record =>
      rw [RecordWrite.outcome, RecordWrite.outcome]
      cases encoded : table.encode record with
      | error fault => rfl
      | ok entry =>
        have composed : table.recordKey record = .ok entry.1 := by
          rw [Table.recordKey_eq, encoded]
          rfl
        have taken : entry.1 ∈ a ↔ entry.1 ∈ b := by
          rw [Std.ExtTreeMap.mem_iff_isSome_getElem?, Std.ExtTreeMap.mem_iff_isSome_getElem?,
            same entry.1 (Table.primaryKey_isOf plain composed)]
        simp only [bind, Except.bind, taken]
    | put record => rfl
    | delete key => rfl
    | batchPut records => rfl
    | batchDelete keys => rfl

end Composed

end SharedTable
