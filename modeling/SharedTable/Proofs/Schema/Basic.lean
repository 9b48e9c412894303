import Mathlib.Data.List.Nodup
import SharedTable.Schema.Basic

set_option autoImplicit false

namespace SharedTable

theorem IndexSlot.mem_all (slot : IndexSlot) : slot ∈ IndexSlot.all := by
  cases slot <;> decide

namespace Schema

variable {schema : Schema} {index : Index}

theorem mem_of_indexAt? {slot : IndexSlot} (declared : schema.indexAt? slot = some index) :
    index ∈ schema.indexes :=
  List.mem_filterMap.mpr ⟨slot, slot.mem_all, declared⟩

theorem indexAt?_of_mem (declared : index ∈ schema.indexes) :
    schema.indexAt? index.slot = some index := by
  obtain ⟨slot, _, found⟩ := List.mem_filterMap.mp declared
  obtain ⟨registration, _, rfl⟩ := Option.map_eq_some_iff.mp found
  exact found

theorem mem_indexes_iff :
    index ∈ schema.indexes ↔ schema.slots index.slot = some ⟨index.name, index.key⟩ := by
  constructor
  · intro declared
    obtain ⟨registration, found, same⟩ := Option.map_eq_some_iff.mp (indexAt?_of_mem declared)
    rw [found, ← same]
  · intro found
    have declared : schema.indexAt? index.slot = some index := by
      rw [indexAt?, found]
      rfl
    exact mem_of_indexAt? declared

theorem slots_sublist (schema : Schema) : (schema.indexes.map Index.slot).Sublist IndexSlot.all := by
  have among (slots : List IndexSlot) : ((slots.filterMap schema.indexAt?).map Index.slot).Sublist slots := by
    induction slots with
    | nil => exact .slnil
    | cons slot rest ih =>
      rw [List.filterMap_cons]
      cases found : schema.indexAt? slot with
      | none => exact ih.cons slot
      | some index =>
        obtain ⟨_, _, rfl⟩ := Option.map_eq_some_iff.mp found
        exact ih.cons_cons slot
  exact among IndexSlot.all

def NamesApart (schema : Schema) : Prop :=
  ∀ slot other first second, schema.slots slot = some first → schema.slots other = some second →
    first.name = second.name → slot = other

namespace NamesApart

variable (apart : schema.NamesApart)

include apart

theorem eq_of_name {other : Index} (declared : index ∈ schema.indexes) (also : other ∈ schema.indexes)
    (same : index.name = other.name) : index = other := by
  have slots := apart _ _ _ _ (mem_indexes_iff.mp declared) (mem_indexes_iff.mp also) same
  exact Option.some.inj ((indexAt?_of_mem declared).symm.trans (slots ▸ indexAt?_of_mem also))

theorem names_nodup : (schema.indexes.map Index.name).Nodup := by
  have distinct : schema.indexes.Nodup :=
    .of_map Index.slot (List.Nodup.sublist schema.slots_sublist (by decide))
  exact distinct.map_on fun _ declared _ also same => apart.eq_of_name declared also same

theorem index?_eq_some_iff {name : String} :
    schema.index? name = some index ↔ index ∈ schema.indexes ∧ index.name = name := by
  constructor
  · intro found
    exact ⟨List.mem_of_find?_eq_some found, by simpa using List.find?_some found⟩
  · rintro ⟨declared, rfl⟩
    have exists_one : (schema.index? index.name).isSome = true :=
      List.find?_isSome.mpr ⟨index, declared, beq_self_eq_true _⟩
    obtain ⟨other, found⟩ := Option.isSome_iff_exists.mp exists_one
    have named : other.name = index.name := by simpa using List.find?_some found
    rw [found, apart.eq_of_name (List.mem_of_find?_eq_some found) declared named]

end NamesApart

end Schema

end SharedTable
