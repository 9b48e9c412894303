import SharedTable.Proofs.Key.Identity
import SharedTable.Proofs.Number.Padding

set_option autoImplicit false

namespace SharedTable

theorem Key.plain_padded (n : Integer) : Key.Plain (Number.padded (.integer n)) := by
  intro member
  rcases Number.isDigit_or_sign_of_mem_padded member with digit | sign
  · cases digit
  · cases sign

/--
Integers are told apart by their texts in keys: with zeros in front of the digits or of the sign, and also
where the digits outgrow the width of keys. The texts fill that width, and none holds a separator.
-/
theorem Number.padding_merges_no_integers (m n : Integer) :
    (padded (.integer m) = padded (.integer n) ↔ m = n) ∧
      16 ≤ (padded (.integer m)).length ∧ '#' ∉ (padded (.integer m)).toList :=
  ⟨padded_inj, keyWidth_le_length_padded _, Key.plain_padded m⟩

example : Number.padded (.integer ⟨-5, by decide, by decide⟩) = "00000000000000-5" := by decide

inductive Value.Alike : Value → Value → Prop
  -- Not all numbers: a double without a fraction is written like the integer.
  | integers (m n : Integer) : Alike (.number (.integer m)) (.number (.integer n))
  | booleans (a b : Bool) : Alike (.bool a) (.bool b)
  | strings {s t : String} (plain : Key.Plain s) (also : Key.Plain t) : Alike (.string s) (.string t)

theorem Value.keyText_bool (b : Bool) : (Value.bool b).keyText = toString b := by
  cases b <;> rfl

namespace Value.Alike

variable {this that : Value}

theorem symm (alike : this.Alike that) : that.Alike this := by
  cases alike with
  | integers m n => exact .integers n m
  | booleans a b => exact .booleans b a
  | strings plain also => exact .strings also plain

theorem isNull_eq_false (alike : this.Alike that) : this.isNull = false := by
  cases alike <;> rfl

theorem plain (alike : this.Alike that) : Key.Plain this.keyText := by
  cases alike with
  | integers m _ => exact Key.plain_padded m
  | booleans a _ =>
    rw [keyText_bool]
    unfold Key.Plain
    cases a <;> decide
  | strings plain _ => exact plain

theorem keyText_inj (alike : this.Alike that) : this.keyText = that.keyText ↔ this = that := by
  cases alike with
  | integers m n =>
    rw [number.injEq, Number.integer.injEq]
    exact Number.padded_inj
  | booleans a b =>
    rw [keyText_bool, keyText_bool, bool.injEq]
    cases a <;> cases b <;> decide
  | strings =>
    rw [string.injEq]
    rfl

end Value.Alike

def KeyFields.Alike (key : KeyFields) (these those : Fields) : Prop :=
  ∀ field ∈ key.partition ++ key.sort,
    ∃ this that, these[field]? = some this ∧ those[field]? = some that ∧ this.Alike that

namespace KeyFields.Alike

variable {key : KeyFields} {these those : Fields} (alike : key.Alike these those)

include alike

theorem symm : key.Alike those these := by
  intro field member
  obtain ⟨this, that, held, also, same⟩ := alike field member
  exact ⟨that, this, also, held, same.symm⟩

theorem present : ∀ field ∈ key.partition ++ key.sort, (these.present? field).isSome = true := by
  intro field member
  obtain ⟨this, _, held, _, same⟩ := alike field member
  rw [Fields.present?_eq_some_iff.mpr ⟨held, same.isNull_eq_false⟩]
  rfl

theorem rendered_plain : ∀ field ∈ key.partition ++ key.sort, Key.Plain (Key.rendered these field) := by
  intro field member
  obtain ⟨this, _, held, _, same⟩ := alike field member
  rw [Key.rendered_of_present (Fields.present?_eq_some_iff.mpr ⟨held, same.isNull_eq_false⟩)]
  exact same.plain

theorem rendered_inj {field : String} (member : field ∈ key.partition ++ key.sort) :
    Key.rendered these field = Key.rendered those field ↔ these[field]? = those[field]? := by
  obtain ⟨this, that, held, also, same⟩ := alike field member
  have present := Fields.present?_eq_some_iff.mpr ⟨held, same.isNull_eq_false⟩
  have presentToo := Fields.present?_eq_some_iff.mpr ⟨also, same.symm.isNull_eq_false⟩
  rw [Key.rendered_of_present present, Key.rendered_of_present presentToo, held, also,
    Option.some.injEq]
  exact same.keyText_inj

end KeyFields.Alike

/-- A primary key of integers, booleans and strings without a separator identifies its record. -/
theorem Schema.primaryKey_inj_of_alike {schema : Schema} {these those : Fields}
    (alike : schema.key.Alike these those) :
    schema.primaryKey these = schema.primaryKey those ↔ schema.key.Agree these those := by
  obtain ⟨plainPartition, plainSort⟩ := List.forall_mem_append.mp alike.rendered_plain
  obtain ⟨alsoPartition, alsoSort⟩ := List.forall_mem_append.mp alike.symm.rendered_plain
  have presentThese := (List.forall_mem_append.mp alike.present).2
  have presentThose := (List.forall_mem_append.mp alike.symm.present).2
  have partitions := Key.partition_inj schema.typeName plainPartition alsoPartition
  have sorts : schema.key.sortKey schema.typeName these = schema.key.sortKey schema.typeName those ↔
      ∀ field ∈ schema.key.sort, Key.rendered these field = Key.rendered those field :=
    (Key.sort_eq_iff schema.typeName presentThese presentThose).trans
      (Key.spelled_inj (Key.delimited_chain_of_plain plainSort id)
        (Key.delimited_chain_of_plain alsoSort id))
  calc schema.primaryKey these = schema.primaryKey those
      ↔ schema.key.partitionKey schema.typeName these = schema.key.partitionKey schema.typeName those ∧
          schema.key.sortKey schema.typeName these = schema.key.sortKey schema.typeName those := by
        rw [primaryKey, primaryKey, PrimaryKey.mk.injEq]
    _ ↔ ∀ field ∈ schema.key.partition ++ schema.key.sort,
          Key.rendered these field = Key.rendered those field := by
        rw [List.forall_mem_append]
        exact and_congr partitions sorts
    _ ↔ schema.key.Agree these those := forall₂_congr fun _ member => alike.rendered_inj member

end SharedTable
