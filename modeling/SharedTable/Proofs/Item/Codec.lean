import SharedTable.Proofs.Item

set_option autoImplicit false

namespace SharedTable

/-- Whether an index is declared on a slot of which a record has every key field, none of them null. -/
def Schema.Populates (schema : Schema) (fields : Fields) (slot : IndexSlot) (index : Index) : Prop :=
  schema.indexAt? slot = some index ∧
    ∀ name ∈ index.key.partition ++ index.key.sort, ∃ value, fields[name]? = some value ∧ value ≠ .null

theorem Index.isPopulatedBy_iff {index : Index} {fields : Fields} :
    index.isPopulatedBy fields = true ↔
      ∀ name ∈ index.key.partition ++ index.key.sort,
        ∃ value, fields[name]? = some value ∧ value ≠ .null := by
  simp only [Index.isPopulatedBy, KeyFields.all, List.all_eq_true, Fields.present?_isSome_iff]

namespace IndexSlot

def Admits (slot : IndexSlot) (item : Fields) : Prop :=
  ∃ partitionKey sort, (KeyCondition.ofSlot (some slot) partitionKey sort).holds item = true

theorem admits_iff {slot : IndexSlot} {item : Fields} :
    slot.Admits item ↔
      (item.text? slot.partitionAttr).isSome = true ∧ (item.text? slot.sortAttr).isSome = true := by
  constructor
  · rintro ⟨partitionKey, sort, selected⟩
    obtain ⟨partition, text, sorted, _⟩ := Contents.holds_iff.mp selected
    exact ⟨Option.isSome_of_eq_some partition, Option.isSome_of_eq_some sorted⟩
  · rintro ⟨partition, sorted⟩
    obtain ⟨partitionKey, read⟩ := Option.isSome_iff_exists.mp partition
    obtain ⟨sort, also⟩ := Option.isSome_iff_exists.mp sorted
    exact ⟨partitionKey, none, Contents.holds_iff.mpr ⟨read, sort, also, nofun⟩⟩

end IndexSlot

namespace Item

theorem unpopulated_of_not_populates {schema : Schema} {fields : Fields} {slot : IndexSlot}
    (bare : ¬ ∃ index, schema.Populates fields slot index) :
    ∀ index, schema.indexAt? slot = some index → index.isPopulatedBy fields = false := by
  intro index declared
  rw [← Bool.not_eq_true]
  exact fun populated => bare ⟨index, declared, Index.isPopulatedBy_iff.mp populated⟩

/--
A slot is sparse as declared: the item has both key attributes where the record populates the index. In
every other slot it has neither, and stays out of the index, exactly as far as the record itself has no
fields of these names.
-/
theorem slot_sparse_iff (schema : Schema) (fields : Fields) (slot : IndexSlot) :
    (∀ index, schema.Populates fields slot index →
      (encode schema fields)[slot.partitionAttr]? = some (.string (schema.indexKey index fields).1) ∧
      (encode schema fields)[slot.sortAttr]? = some (.string (schema.indexKey index fields).2)) ∧
    ((¬ ∃ index, schema.Populates fields slot index) →
      ((encode schema fields)[slot.partitionAttr]? = none ∧
          (encode schema fields)[slot.sortAttr]? = none ↔
        fields[slot.partitionAttr]? = none ∧ fields[slot.sortAttr]? = none) ∧
      (slot.Admits (encode schema fields) ↔ slot.Admits fields)) := by
  constructor
  · rintro index ⟨declared, present⟩
    exact getElem?_encode_populated declared (Index.isPopulatedBy_iff.mpr present)
  · intro bare
    have own := unpopulated_of_not_populates bare
    have partition : (encode schema fields)[slot.partitionAttr]? = fields[slot.partitionAttr]? :=
      getElem?_encode_unpopulated own (by simp [IndexSlot.attrs])
    have sort : (encode schema fields)[slot.sortAttr]? = fields[slot.sortAttr]? :=
      getElem?_encode_unpopulated own (by simp [IndexSlot.attrs])
    constructor
    · rw [partition, sort]
    · rw [IndexSlot.admits_iff, IndexSlot.admits_iff]
      simp only [Fields.text?, partition, sort]

def memberSchema : Schema where
  typeName := "Member"
  key := ⟨["id"], []⟩
  slots slot := if slot = .gsi1 then some ⟨"byOrg", ⟨["org"], []⟩⟩ else none

def byOrg : Index := ⟨.gsi1, "byOrg", ⟨["org"], []⟩⟩

def member (id : String) (org : Value) : Fields := .ofList [("id", Value.string id), ("org", org)]

theorem populates_byOrg_iff {fields : Fields} :
    (∃ index, memberSchema.Populates fields .gsi1 index) ↔ (fields.present? "org").isSome = true := by
  rw [Fields.present?_isSome_iff]
  constructor
  · rintro ⟨index, declared, present⟩
    cases declared
    exact present "org" List.mem_cons_self
  · intro present
    exact ⟨byOrg, rfl, by simpa [byOrg] using present⟩

theorem members_sparse :
    memberSchema.Populates (member "a" (.string "acme")) .gsi1 byOrg ∧
      (encode memberSchema (member "a" (.string "acme")))[IndexSlot.gsi1.partitionAttr]? =
        some (.string "Member#org#acme") ∧
      (¬ ∃ index, memberSchema.Populates (member "b" .null) .gsi1 index) ∧
      (encode memberSchema (member "b" .null))[IndexSlot.gsi1.partitionAttr]? = none ∧
      ¬ IndexSlot.gsi1.Admits (encode memberSchema (member "b" .null)) := by
  have populated : memberSchema.Populates (member "a" (.string "acme")) .gsi1 byOrg :=
    ⟨rfl, Index.isPopulatedBy_iff.mp (by decide)⟩
  have bare : ¬ ∃ index, memberSchema.Populates (member "b" .null) .gsi1 index := by
    rw [populates_byOrg_iff]
    decide
  obtain ⟨sparse, enters⟩ := (slot_sparse_iff memberSchema (member "b" .null) .gsi1).2 bare
  refine ⟨populated, ?_, bare, ?_, ?_⟩
  · exact ((slot_sparse_iff memberSchema (member "a" (.string "acme")) .gsi1).1 byOrg populated).1
  · exact (sparse.mpr ⟨by decide, by decide⟩).1
  · rw [enters, IndexSlot.admits_iff]
    decide

def posing : Fields :=
  .ofList [("id", Value.string "a"), ("org", .null),
    ("gsi1_partitionKey", .string "Member#org#acme"), ("gsi1_sortKey", .string "Member")]

theorem posing_enters_byOrg :
    (¬ ∃ index, memberSchema.Populates posing .gsi1 index) ∧
      ¬ ((encode memberSchema posing)[IndexSlot.gsi1.partitionAttr]? = none ∧
        (encode memberSchema posing)[IndexSlot.gsi1.sortAttr]? = none) ∧
      (KeyCondition.ofSlot (some .gsi1)
        (byOrg.key.partitionKey "Member" (.ofList [("org", Value.string "acme")])) none).holds
          (encode memberSchema posing) = true := by
  refine ⟨?_, ?_, by decide⟩
  · rw [populates_byOrg_iff]
    decide
  · rintro ⟨absent, _⟩
    cases absent

/--
Whatever schema an item was written under, stripping it leaves the fields without a reserved name. A record
with no other fields is read back as it was under any schema, and is written as the same item again.
-/
theorem decode_under_any_schema {α : Type} (type : RecordType α) (written read : Schema)
    (fields : Fields) :
    reservedAttrs = ["partitionKey", "sortKey", "typeTag", "gsi1_partitionKey", "gsi1_sortKey",
      "gsi2_partitionKey", "gsi2_sortKey", "gsi3_partitionKey", "gsi3_sortKey", "gsi4_partitionKey",
      "gsi4_sortKey", "gsi5_partitionKey", "gsi5_sortKey"] ∧
    (∀ name, (encode written fields).strip[name]? =
      if name ∈ reservedAttrs then none else fields[name]?) ∧
    PrimaryKey.ofItem? (encode written fields) = some (written.primaryKey fields) ∧
    (Unreserved fields →
      (encode written fields).strip = fields ∧
      encode written (encode written fields).strip = encode written fields ∧
      ∀ record, type.RoundTrips → (type.toValue record).fields? = some fields →
        decode type read (encode written fields) = .ok record) := by
  refine ⟨by decide, ?_, ofItem?_encode written fields, ?_⟩
  · intro name
    rw [strip_encode, getElem?_strip]
  · intro unreserved
    have same : (encode written fields).strip = fields := by
      rw [strip_encode, strip_of_unreserved unreserved]
    exact ⟨same, by rw [same], fun record trips shown =>
      decode_encode trips shown unreserved written read⟩

def members : RecordType Fields := ⟨["id", "org"], Value.ofFields, .ok⟩

theorem members_roundTrips : members.RoundTrips := by
  intro record fields shown
  cases (fields?_ofFields record).symm.trans shown
  rfl

theorem member_without_index :
    Unreserved (member "a" (.string "acme")) ∧
      decode members (.empty "Member") (encode memberSchema (member "a" (.string "acme"))) =
        .ok (member "a" (.string "acme")) := by
  have unreserved : Unreserved (member "a" (.string "acme")) := by
    unfold Unreserved
    decide
  obtain ⟨_, _, _, read⟩ := decode_under_any_schema members memberSchema (.empty "Member")
    (member "a" (.string "acme"))
  exact ⟨unreserved, (read unreserved).2.2 _ members_roundTrips (fields?_ofFields _)⟩

end Item

end SharedTable
