import SharedTable.Proofs.Condition.Exact
import SharedTable.Proofs.Query.Selection
import SharedTable.Proofs.Table.Ledger

set_option autoImplicit false

namespace SharedTable

namespace Contents

def found (contents : Contents) (condition : KeyCondition) (forward : Bool) : List (PrimaryKey × Item) :=
  (contents.inOrder condition forward).map fun placed => (placed.1.key, placed.2)

variable {contents : Contents} {condition : KeyCondition} {forward : Bool}

theorem mem_found {key : PrimaryKey} {item : Item} :
    (key, item) ∈ contents.found condition forward ↔
      contents[key]? = some item ∧ condition.holds item = true := by
  simp only [found, List.mem_map, Prod.mk.injEq, Prod.exists, mem_inOrder, mem_selected]
  constructor
  · rintro ⟨position, _, ⟨stored, meets, _⟩, rfl, rfl⟩
    exact ⟨stored, meets⟩
  · rintro ⟨stored, meets⟩
    obtain ⟨_, sort, read, _⟩ := holds_iff.mp meets
    exact ⟨⟨sort, key⟩, item, ⟨stored, meets, read⟩, rfl, rfl⟩

theorem found_keys_nodup : ((contents.found condition forward).map Prod.fst).Nodup := by
  rw [found, List.map_map]
  apply List.pairwise_map.mpr
  apply (inOrder_ascending contents condition forward).imp_of_mem
  rintro ⟨first, item⟩ ⟨second, other⟩ inFirst inSecond beyond same
  have firstPlaced := mem_selected.mp (mem_inOrder.mp inFirst)
  have secondPlaced := mem_selected.mp (mem_inOrder.mp inSecond)
  change first.key = second.key at same
  rw [same, secondPlaced.1, Option.some.injEq] at firstPlaced
  obtain ⟨rfl, -, read⟩ := firstPlaced
  rw [secondPlaced.2.2, Option.some.injEq] at read
  -- One item under one key stands at one position, which does not lie beyond itself.
  have equal : second = first := by
    cases first
    cases second
    simp_all
  rw [equal, Position.isBeyond_irrefl] at beyond
  cases beyond

end Contents

namespace Index

structure Fits (index : Index) (fields : Fields) : Prop where
  unreserved : Item.Unreserved fields
  plain : ∀ name ∈ index.key.all, Key.Plain (Key.rendered fields name)

/--
Fields that populate an index, with the texts of a partition and with those of the values given for the
leading sort fields.
-/
structure Finds (index : Index) (partition : Fields) (leading : List (String × Value))
    (fields : Fields) : Prop where
  populated : ∀ name ∈ index.key.all, (fields.present? name).isSome = true
  partition : ∀ name ∈ index.key.partition, Key.rendered fields name = Key.rendered partition name
  leading : ∀ given ∈ leading, Key.rendered fields given.1 = given.2.keyText

theorem holds_encode_iff_finds {schema : Schema} {index : Index} (declared : index ∈ schema.indexes)
    {partition : Fields} (plainPartition : ∀ name ∈ index.key.partition,
      Key.Plain (Key.rendered partition name)) {leading : List (String × Value)} {rest : List String}
    {filter : SortFilter} (exact : ExactOn index.key.sort leading rest filter)
    (plainValues : ∀ given ∈ leading, Key.Plain given.2.keyText) {fields : Fields}
    (fits : index.Fits fields) :
    (KeyCondition.ofSlot (some index.slot) (index.key.partitionKey schema.typeName partition)
        (ExactOn.condition schema.typeName leading rest)).holds (Item.encode schema fields) = true ↔
      index.Finds partition leading fields := by
  have inPartition : ∀ name ∈ index.key.partition, name ∈ index.key.all :=
    fun name member => List.mem_append_left _ member
  have inSort : ∀ name ∈ index.key.sort, name ∈ index.key.all :=
    fun name member => List.mem_append_right _ member
  have inLeading : ∀ given ∈ leading, given.1 ∈ index.key.all :=
    fun given member => inSort given.1 (exact.split ▸
      List.mem_append_left _ (List.mem_map_of_mem member))
  rw [Item.holds_encode_iff declared fits.unreserved, isPopulatedBy, List.all_eq_true]
  have partitions := Key.partition_inj schema.typeName
    (fun name member => fits.plain name (inPartition name member)) plainPartition
  have leadings (populated : ∀ name ∈ index.key.all, (fields.present? name).isSome = true) :=
    exact.selects_iff schema.typeName (fun name member => populated name (inSort name member))
      (fun given member => fits.plain given.1 (inLeading given member)) plainValues
  constructor
  · rintro ⟨populated, partition, sort⟩
    exact ⟨populated, partitions.mp partition, (leadings populated).mp sort⟩
  · rintro ⟨populated, partition, leading⟩
    exact ⟨populated, partitions.mpr partition, (leadings populated).mpr leading⟩

end Index

namespace Table

variable {σ α : Type}

def Fits (table : Table σ α) (index : Index) (record : α) : Prop :=
  ∀ fields, (table.type.toValue record).fields? = some fields → index.Fits fields

def Finds (table : Table σ α) (index : Index) (partition : Fields) (leading : List (String × Value))
    (record : α) : Prop :=
  ∃ fields, (table.type.toValue record).fields? = some fields ∧
    index.Finds partition leading fields

theorem mem_indexes_of_index {table : Table σ α} {name : String} {index : Index}
    (declared : table.index name = .ok index) : index ∈ table.schema.indexes := by
  unfold Table.index at declared
  cases found : table.schema.index? name with
  | none => simp [found] at declared
  | some other =>
    simp only [found, pure_eq_ok_iff] at declared
    subst declared
    exact List.mem_of_find?_eq_some found

end Table

theorem Mirrors.read_found {σ α : Type} {table : Table σ α} {index : Index} {ledger : Ledger α}
    {contents : Contents} (mirrors : Mirrors table (table.Fits index) ledger contents)
    (trips : table.type.RoundTrips) (condition : KeyCondition) (forward : Bool) :
    ∃ entries : List (PrimaryKey × α),
      entries.map Prod.fst = (contents.found condition forward).map Prod.fst ∧
      List.Forall₂ (fun item record => table.decode item = .ok record)
        ((contents.found condition forward).map Prod.snd) (entries.map Prod.snd) ∧
      ∀ key record, (key, record) ∈ entries ↔ ledger[key]? = some record ∧
        ∃ item, table.encode record = .ok (key, item) ∧ condition.holds item = true := by
  -- Every item found is that of a record in the ledger, and is read as this record.
  have each : ∀ placed ∈ contents.found condition forward, ∃ entry : PrimaryKey × α,
      entry.1 = placed.1 ∧ ledger[placed.1]? = some entry.2 ∧ table.encode entry.2 = .ok placed ∧
        table.decode placed.2 = .ok entry.2 := by
    rintro ⟨key, item⟩ inFound
    obtain ⟨stored, _⟩ := Contents.mem_found.mp inFound
    obtain ⟨record, held, fits, encoded⟩ := mirrors.getElem?_eq_some_iff.mp stored
    obtain ⟨fields, shown, rfl, rfl⟩ := Table.encode_eq_ok_iff.mp encoded
    exact ⟨(_, record), rfl, held, encoded,
      Item.decode_encode trips shown (fits fields shown).unreserved table.schema table.schema⟩
  obtain ⟨entries, read⟩ := forall₂_of_forall_exists each
  refine ⟨entries, ?_, ?_, ?_⟩
  · rw [← List.forall₂_eq_eq_eq, List.forall₂_map_left_iff, List.forall₂_map_right_iff]
    exact read.flip.imp fun _ _ same => same.1
  · rw [List.forall₂_map_left_iff, List.forall₂_map_right_iff]
    exact read.imp fun _ _ same => same.2.2.2
  · intro key record
    constructor
    · intro member
      obtain ⟨⟨other, item⟩, inFound, same, held, encoded, _⟩ := exists_of_mem_right read member
      cases same
      exact ⟨held, item, encoded, (Contents.mem_found.mp inFound).2⟩
    · rintro ⟨held, item, encoded, meets⟩
      obtain ⟨other, stored, _, also⟩ := mirrors.stored_of_held held
      rw [encoded] at also
      cases also
      obtain ⟨⟨same, found⟩, member, rfl, again, _⟩ :=
        exists_of_mem_left read (Contents.mem_found.mpr ⟨stored, meets⟩)
      rw [held, Option.some.injEq] at again
      exact again ▸ member

namespace Query

variable {α : Type} {limits : BatchLimits} {table : Table Memory α} {world : World Memory}

theorem ofPartition_eq {σ : Type} {table : Table σ α} {index : Option Index} {given : Value}
    {partition : Fields} (asked : given.fields? = some partition) :
    Query.ofPartition table index given =
      .ok ⟨table, index.map Index.slot, partition, .unbounded, [], none, none, false⟩ := by
  rw [ofPartition, Value.fields_eq_ok_iff.mpr asked]
  rfl

theorem all_run_found {query : Query Memory α} (served : query.table.engine = Memory.engine limits)
    (keyed : (world.state.store.contents query.table.name).Keyed) {slot : Option IndexSlot}
    {condition : KeyCondition} (compiled : query.compile =
      .ok ⟨query.table.name, slot, condition, [], none, none, true⟩) {records : List α}
    (decoded : List.Forall₂ (fun item record => query.table.decode item = .ok record)
      (((world.state.store.contents query.table.name).found condition true).map Prod.snd) records) :
    (query.all.run world).1 = .ok records := by
  have passed (items : List Item) : items.filter (Filter.holds []) = items :=
    List.filter_eq_self.mpr fun _ _ => rfl
  rw [Contents.found, List.map_map] at decoded
  have ran := all_run served keyed compiled rfl rfl
    ((congrArg query.decodeAll (passed _)).trans (decodeAll_eq_ok_iff.mpr decoded))
  exact congrArg Prod.fst ran

/--
After any writes on an empty table, a query on an index with exact values for its leading sort fields
returns, each once, the records of the ledger that populate the index and have the given texts there.
-/
theorem index_query_exact (served : table.engine = Memory.engine limits)
    (trips : table.type.RoundTrips) (empty : world.state.store.contents table.name = ∅)
    {name : String} {index : Index} (declared : table.index name = .ok index)
    (distinct : index.key.sort.Nodup) {writes : List (RecordWrite α)}
    (fit : ∀ write ∈ writes, ∀ record ∈ write.records, table.Fits index record) {given : Value}
    {partition : Fields} (asked : given.fields? = some partition)
    (plainPartition : ∀ name ∈ index.key.partition, Key.Plain (Key.rendered partition name))
    {leading : List (String × Value)} {rest : List String} {filter : SortFilter}
    (exact : ExactOn index.key.sort leading rest filter)
    (plainValues : ∀ given ∈ leading, Key.Plain given.2.keyText) :
    ∃ (query : Query Memory α) (entries : List (PrimaryKey × α)),
      Query.ofPartition table (some index) given = .ok query ∧
      (entries.map Prod.fst).Nodup ∧
      (∀ key record, (key, record) ∈ entries ↔
        (RecordWrite.ledger table writes)[key]? = some record ∧
          table.Finds index partition leading record) ∧
      ({ query with sortKey := filter }.all.run (RecordWrite.after table world writes)).1 =
        .ok (entries.map Prod.snd) := by
  have mirrors := RecordWrite.after_mirrors served empty writes fit
  have inSchema := Table.mem_indexes_of_index declared
  let condition := KeyCondition.ofSlot (some index.slot)
    (index.key.partitionKey table.schema.typeName partition)
    (ExactOn.condition table.schema.typeName leading rest)
  -- On records that fit, meeting the condition is being asked for.
  have meets {fields : Fields} (fits : index.Fits fields) :
      condition.holds (Item.encode table.schema fields) = true ↔
        index.Finds partition leading fields :=
    Index.holds_encode_iff_finds inSchema plainPartition exact plainValues fits
  have compiled : KeyCondition.compile table.schema (some index) partition filter = .ok condition :=
    KeyCondition.compile_eq_ok_iff.mpr ⟨_, exact.compile_eq distinct _, rfl⟩
  obtain ⟨entries, keys, decoded, members⟩ := mirrors.read_found trips condition true
  refine ⟨_, entries, ofPartition_eq asked, ?_, ?_, ?_⟩
  · rw [keys]
    exact Contents.found_keys_nodup
  · intro key record
    rw [members]
    apply and_congr_right
    intro held
    obtain ⟨stored, _, fits, encoded⟩ := mirrors.stored_of_held held
    obtain ⟨fields, shown, _, same⟩ := Table.encode_eq_ok_iff.mp encoded
    constructor
    · rintro ⟨item, also, selected⟩
      rw [encoded] at also
      cases also
      exact ⟨fields, shown, (meets (fits fields shown)).mp (same ▸ selected)⟩
    · rintro ⟨other, again, finds⟩
      rw [shown] at again
      cases again
      exact ⟨stored, encoded, same ▸ (meets (fits fields shown)).mpr finds⟩
  · let query : Query Memory α :=
      ⟨table, some index.slot, partition, filter, [], none, none, false⟩
    have named : query.index = .ok (some index) := by
      simp only [Query.index, query, Schema.indexAt?_of_mem inSchema]
      rfl
    have requested : query.compile =
        .ok ⟨table.name, some index.slot, condition, [], none, none, true⟩ :=
      compile_eq_ok_iff.mpr ⟨nofun, some index, condition, none, named, compiled, rfl, rfl⟩
    exact all_run_found served mirrors.keyed requested decoded

def tickets : Table Memory Fields where
  client := ⟨Memory.engine .standard, "tickets", 2, .byClock⟩
  type := ⟨["id", "owner", "status"], Value.ofFields, .ok⟩
  schema := ⟨"Ticket", ⟨["id"], []⟩, fun slot =>
    if slot = .gsi1 then some ⟨"byOwner", ⟨["owner"], ["status", "id"]⟩⟩ else none⟩

def byOwner : Index := ⟨.gsi1, "byOwner", ⟨["owner"], ["status", "id"]⟩⟩

def ticket (id owner status : String) : Fields :=
  .ofList [("id", Value.string id), ("owner", Value.string owner), ("status", Value.string status)]

-- One ticket changes its owner, and one has a longer status than the one asked for.
def ticketWrites : List (RecordWrite Fields) :=
  [.put (ticket "t1" "ana" "open"), .batchPut [ticket "t2" "ana" "opened", ticket "t1" "ben" "open"],
    .putIfAbsent (ticket "t3" "ana" "open"), .delete (.ofFields (ticket "t4" "ana" "open"))]

theorem ticket_fits {id owner status : String} (plainId : Key.Plain id) (plainOwner : Key.Plain owner)
    (plainStatus : Key.Plain status) : tickets.Fits byOwner (ticket id owner status) := by
  intro fields shown
  cases (fields?_ofFields (ticket id owner status)).symm.trans shown
  constructor
  · intro name reserved
    have apart : ∀ name ∈ reservedAttrs, name ∉ ["id", "owner", "status"] := by decide
    apply Std.ExtTreeMap.getElem?_ofList_of_contains_eq_false
    simpa using apart name reserved
  · intro name member
    simp only [byOwner, KeyFields.all, List.cons_append, List.nil_append, List.mem_cons,
      List.not_mem_nil, or_false] at member
    rcases member with rfl | rfl | rfl
    · exact plainOwner
    · exact plainStatus
    · exact plainId

theorem tickets_roundTrips : tickets.type.RoundTrips := by
  intro record fields shown
  cases (fields?_ofFields record).symm.trans shown
  rfl

theorem ticketWrites_fit :
    ∀ write ∈ ticketWrites, ∀ record ∈ write.records, tickets.Fits byOwner record := by
  intro write inWrites record inWrite
  have written : record ∈ ticketWrites.flatMap RecordWrite.records :=
    List.mem_flatMap.mpr ⟨write, inWrites, inWrite⟩
  simp only [ticketWrites, RecordWrite.records, List.flatMap_cons, List.flatMap_nil, List.cons_append,
    List.nil_append, List.mem_cons, List.not_mem_nil, or_false] at written
  rcases written with rfl | rfl | rfl | rfl <;>
    exact ticket_fits (by unfold Key.Plain; decide) (by unfold Key.Plain; decide)
      (by unfold Key.Plain; decide)

theorem open_tickets_of_ana :
    ∃ (query : Query Memory Fields) (entries : List (PrimaryKey × Fields)),
      Query.ofPartition tickets (some byOwner) (.ofFields (.ofList [("owner", Value.string "ana")])) =
        .ok query ∧
      (entries.map Prod.fst).Nodup ∧
      (∀ key record, (key, record) ∈ entries ↔
        (RecordWrite.ledger tickets ticketWrites)[key]? = some record ∧
          tickets.Finds byOwner (.ofList [("owner", Value.string "ana")]) [("status", .string "open")]
            record) ∧
      ({ query with sortKey := .fields [("status", .exact (.string "open"))] }.all.run
        (RecordWrite.after tickets (.ofState .empty) ticketWrites)).1 = .ok (entries.map Prod.snd) := by
  exact @index_query_exact Fields .standard tickets (.ofState .empty) rfl tickets_roundTrips rfl "byOwner"
    byOwner rfl (by decide) ticketWrites ticketWrites_fit _ _ (fields?_ofFields _)
    (by unfold Key.Plain; decide) [("status", .string "open")] ["id"] _
    ⟨rfl, .inr ⟨_, rfl, ⟨by decide, by decide⟩, .refl _⟩⟩ (by unfold Key.Plain; decide)

end Query

end SharedTable
