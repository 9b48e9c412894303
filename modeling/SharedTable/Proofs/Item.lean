import Mathlib.Data.List.Nodup
import SharedTable.Item
import SharedTable.Proofs.Maps
import SharedTable.Proofs.Schema.Basic
import SharedTable.Proofs.Store.Paging

set_option autoImplicit false

namespace SharedTable

theorem fields?_ofFields (fields : Fields) : (Value.ofFields fields).fields? = some fields :=
  congrArg some (ofList_toList fields)

theorem reservedAttrs_nodup : reservedAttrs.Nodup := by decide

def IndexSlot.attrs (slot : IndexSlot) : List String := [slot.partitionAttr, slot.sortAttr]

namespace Item

variable {schema : Schema} {fields : Fields}

theorem derived_names_sublist (schema : Schema) (fields : Fields) :
    ((derived schema fields).map Prod.fst).Sublist reservedAttrs := by
  -- Slot by slot: a declared index adds both of its names or neither.
  have names (slots : List IndexSlot) :
      (((slots.filterMap schema.indexAt?).flatMap (indexAttrs schema fields)).map Prod.fst).Sublist
        (slots.flatMap fun slot => [slot.partitionAttr, slot.sortAttr]) := by
    induction slots with
    | nil => exact .slnil
    | cons slot rest ih =>
      rw [List.flatMap_cons, List.filterMap_cons]
      cases found : schema.indexAt? slot with
      | none => exact (List.nil_sublist _).append ih
      | some index =>
        obtain ⟨registration, _, rfl⟩ := Option.map_eq_some_iff.mp found
        rw [List.flatMap_cons, List.map_append]
        refine List.Sublist.append ?_ ih
        unfold indexAttrs
        split
        · exact List.Sublist.refl _
        · exact List.nil_sublist _
  rw [derived, List.map_append]
  exact (List.Sublist.refl _).append (names IndexSlot.all)

theorem derived_names_nodup (schema : Schema) (fields : Fields) :
    ((derived schema fields).map Prod.fst).Nodup :=
  reservedAttrs_nodup.sublist (derived_names_sublist schema fields)

theorem getElem?_encode_of_mem {attr : String} {value : Value}
    (member : (attr, value) ∈ derived schema fields) : (encode schema fields)[attr]? = some value := by
  refine Std.ExtTreeMap.getElem?_insertMany_list_of_mem Std.ReflCmp.compare_self ?_ member
  apply (List.pairwise_map.mp (derived_names_nodup schema fields)).imp
  intro a b differ same
  exact differ (Std.LawfulEqCmp.eq_of_compare same)

theorem getElem?_encode_of_not_mem {attr : String}
    (absent : attr ∉ (derived schema fields).map Prod.fst) :
    (encode schema fields)[attr]? = fields[attr]? := by
  apply Std.ExtTreeMap.getElem?_insertMany_list_of_contains_eq_false
  simpa using absent

theorem text?_encode_of_mem {attr text : String}
    (member : (attr, Value.string text) ∈ derived schema fields) :
    (encode schema fields).text? attr = some text := by
  rw [Fields.text?, getElem?_encode_of_mem member]
  rfl

theorem ofItem?_encode (schema : Schema) (fields : Fields) :
    PrimaryKey.ofItem? (encode schema fields) = some (schema.primaryKey fields) :=
  PrimaryKey.ofItem?_eq_some_iff.mpr
    ⟨text?_encode_of_mem (by simp [derived]), text?_encode_of_mem (by simp [derived])⟩

section Index

variable {index : Index}

theorem slot_of_mem_attrs {slot : IndexSlot} {name : String} (own : name ∈ slot.attrs) :
    name ∉ [partitionAttr, sortAttr, typeAttr] ∧
      ∀ other : IndexSlot, name ∈ other.attrs → other = slot := by
  have apart (other : IndexSlot) : ∀ name ∈ slot.attrs,
      name ∉ [partitionAttr, sortAttr, typeAttr] ∧ (name ∈ other.attrs → other = slot) := by
    cases slot <;> cases other <;> decide
  exact ⟨(apart slot name own).1, fun other => (apart other name own).2⟩

theorem mem_derived_iff {slot : IndexSlot} {name : String} (own : name ∈ slot.attrs) {value : Value} :
    (name, value) ∈ derived schema fields ↔
      ∃ index, schema.indexAt? slot = some index ∧ (name, value) ∈ indexAttrs schema fields index := by
  constructor
  · intro member
    rcases List.mem_append.mp member with fixed | member
    · have named := List.mem_map_of_mem (f := Prod.fst) fixed
      exact absurd named (slot_of_mem_attrs own).1
    · obtain ⟨index, declared, found⟩ := List.mem_flatMap.mp member
      have named : name ∈ index.slot.attrs := by
        unfold indexAttrs at found
        split at found
        · exact List.mem_map_of_mem (f := Prod.fst) found
        · cases found
      have same := (slot_of_mem_attrs own).2 index.slot named
      exact ⟨index, same ▸ Schema.indexAt?_of_mem declared, found⟩
  · rintro ⟨index, declared, found⟩
    exact List.mem_append_right _ (List.mem_flatMap.mpr ⟨index, Schema.mem_of_indexAt? declared, found⟩)

theorem getElem?_encode_populated {slot : IndexSlot} (declared : schema.indexAt? slot = some index)
    (populated : index.isPopulatedBy fields = true) :
    (encode schema fields)[slot.partitionAttr]? =
        some (.string (index.key.partitionKey schema.typeName fields)) ∧
      (encode schema fields)[slot.sortAttr]? =
        some (.string (index.key.sortKey schema.typeName fields)) := by
  obtain ⟨registration, _, rfl⟩ := Option.map_eq_some_iff.mp declared
  have member {name : String} {value : Value} (own : name ∈ slot.attrs)
      (given : (name, value) ∈ indexAttrs schema fields ⟨slot, registration.name, registration.key⟩) :
      (encode schema fields)[name]? = some value :=
    getElem?_encode_of_mem ((mem_derived_iff own).mpr ⟨_, declared, given⟩)
  constructor
  · exact member (by simp [IndexSlot.attrs]) (by simp [indexAttrs, populated, Schema.indexKey])
  · exact member (by simp [IndexSlot.attrs]) (by simp [indexAttrs, populated, Schema.indexKey])

theorem text?_encode_populated {slot : IndexSlot} (declared : schema.indexAt? slot = some index)
    (populated : index.isPopulatedBy fields = true) :
    (encode schema fields).text? slot.partitionAttr =
        some (index.key.partitionKey schema.typeName fields) ∧
      (encode schema fields).text? slot.sortAttr =
        some (index.key.sortKey schema.typeName fields) := by
  obtain ⟨partition, sort⟩ := getElem?_encode_populated declared populated
  exact ⟨congrArg (·.bind Value.string?) partition, congrArg (·.bind Value.string?) sort⟩

theorem getElem?_encode_unpopulated {slot : IndexSlot}
    (bare : ∀ index, schema.indexAt? slot = some index → index.isPopulatedBy fields = false)
    {name : String} (own : name ∈ slot.attrs) : (encode schema fields)[name]? = fields[name]? := by
  apply getElem?_encode_of_not_mem
  intro named
  obtain ⟨⟨_, value⟩, member, rfl⟩ := List.mem_map.mp named
  obtain ⟨index, declared, found⟩ := (mem_derived_iff own).mp member
  simp [indexAttrs, bare index declared] at found

end Index

def Unreserved (fields : Fields) : Prop := ∀ name ∈ reservedAttrs, fields[name]? = none

theorem getElem?_strip (item : Item) (name : String) :
    item.strip[name]? = if name ∈ reservedAttrs then none else item[name]? := by
  rw [strip, Std.ExtTreeMap.getElem?_filter']
  by_cases reserved : name ∈ reservedAttrs
  · rw [if_pos reserved, Option.filter_eq_none_iff]
    simp [reserved]
  · rw [if_neg reserved]
    cases item[name]? <;> simp [reserved]

theorem strip_encode (schema : Schema) (fields : Fields) : (encode schema fields).strip = strip fields := by
  apply Std.ExtTreeMap.ext_getElem?
  intro name
  rw [getElem?_strip, getElem?_strip]
  split
  next => rfl
  next free =>
    apply getElem?_encode_of_not_mem
    exact fun member => free ((derived_names_sublist schema fields).subset member)

theorem strip_of_unreserved (unreserved : Unreserved fields) : strip fields = fields := by
  apply Std.ExtTreeMap.ext_getElem?
  intro name
  rw [getElem?_strip]
  split
  next reserved => exact (unreserved name reserved).symm
  next => rfl

theorem text?_unpopulated (unreserved : Unreserved fields) {slot : IndexSlot}
    (bare : ∀ index, schema.indexAt? slot = some index → index.isPopulatedBy fields = false) :
    (encode schema fields).text? slot.partitionAttr = none := by
  have own : slot.partitionAttr ∈ slot.attrs := List.mem_cons_self
  have reserved : slot.partitionAttr ∈ reservedAttrs := by
    cases slot <;> decide
  rw [Fields.text?, getElem?_encode_unpopulated bare own, unreserved _ reserved]
  rfl

theorem index_of_text? (unreserved : Unreserved fields) {slot : IndexSlot} {text : String}
    (read : (encode schema fields).text? slot.partitionAttr = some text) :
    ∃ index ∈ schema.indexes, text = index.key.partitionKey schema.typeName fields := by
  by_cases bare : ∀ index, schema.indexAt? slot = some index → index.isPopulatedBy fields = false
  · rw [text?_unpopulated unreserved bare] at read
    cases read
  · push Not at bare
    obtain ⟨index, declared, populated⟩ := bare
    rw [(text?_encode_populated declared (by simpa using populated)).1, Option.some.injEq] at read
    exact ⟨index, Schema.mem_of_indexAt? declared, read.symm⟩

theorem decode_encode {α : Type} {type : RecordType α} (trips : type.RoundTrips) {record : α}
    (shown : (type.toValue record).fields? = some fields) (unreserved : Unreserved fields)
    (written read : Schema) : decode type read (encode written fields) = .ok record := by
  rw [decode, strip_encode, strip_of_unreserved unreserved, trips record fields shown]
  rfl

theorem holds_encode_iff {index : Index} (declared : index ∈ schema.indexes)
    (unreserved : Unreserved fields) {partitionKey : String} {sort : Option SortCondition} :
    (KeyCondition.ofSlot (some index.slot) partitionKey sort).holds (encode schema fields) = true ↔
      index.isPopulatedBy fields = true ∧
        index.key.partitionKey schema.typeName fields = partitionKey ∧
        ∀ wanted, sort = some wanted →
          wanted.holds (index.key.sortKey schema.typeName fields) = true := by
  change KeyCondition.holds ⟨index.slot.partitionAttr, partitionKey, index.slot.sortAttr, sort⟩
    (encode schema fields) = true ↔ _
  rw [Contents.holds_iff]
  have found := Schema.indexAt?_of_mem declared
  cases populated : index.isPopulatedBy fields with
  | true =>
    obtain ⟨partition, sorted⟩ := text?_encode_populated found populated
    simp [partition, sorted]
  | false =>
    have absent : (encode schema fields).text? index.slot.partitionAttr = none := by
      apply text?_unpopulated unreserved
      intro other also
      rw [found] at also
      cases also
      exact populated
    simp [absent]

end Item

end SharedTable
