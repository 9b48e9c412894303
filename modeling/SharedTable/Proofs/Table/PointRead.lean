import SharedTable.Proofs.Condition.Grammar
import SharedTable.Proofs.Table.Index
import SharedTable.Proofs.Table.Reached

set_option autoImplicit false

namespace SharedTable

namespace KeyFields

def pointFilter (key : KeyFields) (values : Fields) : SortFilter :=
  if key.sort = [] then .unbounded
  else .exact (values.filter fun field _ => key.sort.contains field)

def pointValues (key : KeyFields) (values : Fields) : List (String × Value) :=
  key.sort.map fun field => (field, (values.present? field).getD .null)

theorem pointValues_fields (key : KeyFields) (values : Fields) :
    (key.pointValues values).map Prod.fst = key.sort := by
  simp [pointValues, Function.comp_def]

variable {key : KeyFields} {values : Fields}
  (present : ∀ field ∈ key.sort, (values.present? field).isSome = true)

include present

theorem mem_pointValues_iff {given : String × Value} :
    given ∈ key.pointValues values ↔
      given ∈ (values.filter fun field _ => key.sort.contains field).toList := by
  obtain ⟨field, value⟩ := given
  rw [Std.ExtTreeMap.mem_toList_iff_getElem?_eq_some, Std.ExtTreeMap.getElem?_filter',
    Option.filter_eq_some_iff, pointValues, List.mem_map, List.contains_iff_mem]
  constructor
  · rintro ⟨_, declared, same⟩
    cases same
    obtain ⟨value, found⟩ := Option.isSome_iff_exists.mp (present _ declared)
    rw [found]
    exact ⟨(Fields.present?_eq_some_iff.mp found).1, declared⟩
  · rintro ⟨held, declared⟩
    obtain ⟨other, found⟩ := Option.isSome_iff_exists.mp (present field declared)
    have same := (Fields.present?_eq_some_iff.mp found).1
    rw [held] at same
    cases same
    exact ⟨field, declared, by rw [found]; rfl⟩

-- The map gives the values by the order of their names, the key fields in that of their declaration.
theorem exactOn_pointFilter (distinct : key.sort.Nodup) :
    ExactOn key.sort (key.pointValues values) [] (key.pointFilter values) := by
  have names := key.pointValues_fields values
  refine ⟨by rw [names, List.append_nil], ?_⟩
  by_cases none : key.sort = []
  · exact .inl ⟨if_pos none, List.map_eq_nil_iff.mpr none⟩
  let given := (values.filter fun field _ => key.sort.contains field).toList
  have apart : (given.map Prod.fst).Nodup := by
    rw [Std.ExtTreeMap.map_fst_toList_eq_keys]
    exact Std.ExtTreeMap.nodup_keys
  have same : given.Perm (key.pointValues values) :=
    (List.perm_ext_iff_of_nodup apart.of_map (List.Nodup.of_map Prod.fst (names ▸ distinct))).mpr
      fun _ => (mem_pointValues_iff present).symm
  have fields : (exactly given).map Prod.fst = given.map Prod.fst := by
    simp [exactly, Function.comp_def]
  refine .inr ⟨exactly given, if_neg none, SortFilter.wellNamed_of_distinct ?_ (fields ▸ apart), ?_⟩
  · intro held member
    rw [← names, ← (same.map Prod.fst).mem_iff, ← fields]
    exact List.mem_map_of_mem member
  · have asks : ∀ held ∈ exactly given, held.2.isGiven = true := by
      intro held member
      obtain ⟨asked, inGiven, rfl⟩ := List.mem_map.mp member
      have found := (mem_pointValues_iff present).mpr inGiven
      obtain ⟨_, declared, rfl⟩ := List.mem_map.mp found
      obtain ⟨value, given⟩ := Option.isSome_iff_exists.mp (present _ declared)
      simp [Operand.isGiven, given, (Fields.present?_eq_some_iff.mp given).2]
    rw [List.filter_eq_self.mpr asks]
    exact same.map _

theorem pointFilter_compile (distinct : key.sort.Nodup) (typeName : String) :
    (key.pointFilter values).compile typeName key.sort =
      .ok (some (.equals (key.sortKey typeName values))) := by
  rw [(exactOn_pointFilter present distinct).compile_eq distinct, ExactOn.condition, sortKey]
  by_cases none : key.sort = []
  · simp [pointValues, none, Key.sort]
  · rw [if_neg (by simpa [pointValues] using none), if_pos rfl, Key.sort_of_present none present,
      pointValues, List.map_map]
    congr 4
    apply List.map_congr_left
    intro field declared
    obtain ⟨value, given⟩ := Option.isSome_iff_exists.mp (present field declared)
    simp [Key.rendered_of_present given, given]

end KeyFields

def KeyCondition.at (key : PrimaryKey) : KeyCondition :=
  .ofSlot none key.partition (some (.equals key.sort))

theorem KeyCondition.holds_at_iff {key : PrimaryKey} {item : Item} :
    (KeyCondition.at key).holds item = true ↔ PrimaryKey.ofItem? item = some key := by
  rw [Contents.holds_iff, PrimaryKey.ofItem?_eq_some_iff]
  apply and_congr_right
  intro _
  constructor
  · rintro ⟨sort, read, meets⟩
    have same : sort = key.sort := by simpa [SortCondition.holds] using meets _ rfl
    exact same ▸ read
  · intro read
    refine ⟨key.sort, read, ?_⟩
    rintro _ ⟨⟩
    simp [SortCondition.holds]

namespace Contents

variable {contents : Contents} (keyed : contents.Keyed) (key : PrimaryKey)

include keyed

theorem mem_inOrder_at {forward : Bool} {placed : Position × Item} :
    placed ∈ contents.inOrder (.at key) forward ↔
      placed.1 = ⟨key.sort, key⟩ ∧ contents[key]? = some placed.2 := by
  obtain ⟨⟨sort, other⟩, item⟩ := placed
  rw [mem_inOrder, mem_selected, KeyCondition.holds_at_iff]
  constructor
  · rintro ⟨stored, meets, read⟩
    cases (keyed other item stored).symm.trans meets
    cases read.symm.trans (PrimaryKey.ofItem?_eq_some_iff.mp meets).2
    exact ⟨rfl, stored⟩
  · rintro ⟨place, stored⟩
    cases place
    have own := keyed key item stored
    exact ⟨stored, own, (PrimaryKey.ofItem?_eq_some_iff.mp own).2⟩

theorem inOrder_at (forward : Bool) :
    contents.inOrder (.at key) forward =
      (contents[key]?.map fun item => (⟨key.sort, key⟩, item)).toList := by
  have members (placed : Position × Item) : placed ∈ contents.inOrder (.at key) forward ↔
      placed.1 = ⟨key.sort, key⟩ ∧ contents[key]? = some placed.2 := mem_inOrder_at keyed key
  have ascending := contents.inOrder_ascending (.at key) forward
  generalize contents.inOrder (.at key) forward = found at members ascending
  cases found with
  | nil =>
    cases held : contents[key]? with
    | none => rfl
    | some item => exact absurd ((members (⟨key.sort, key⟩, item)).mpr ⟨rfl, held⟩) List.not_mem_nil
  | cons first rest =>
    obtain ⟨place, held⟩ := (members first).mp List.mem_cons_self
    cases rest with
    | nil => rw [held, Option.map_some, ← place]; rfl
    | cons next later =>
      -- A second one would stand at the same position, which does not lie beyond itself.
      obtain ⟨also, _⟩ := (members next).mp (List.mem_cons_of_mem _ List.mem_cons_self)
      have beyond := List.rel_of_pairwise_cons ascending List.mem_cons_self
      rw [also, ← place, Position.isBeyond_irrefl] at beyond
      cases beyond

end Contents

namespace Table

variable {α : Type} {limits : BatchLimits} {table : Table Memory α}

theorem point_query_compile {σ : Type} {table : Table σ α} {values : Fields}
    (distinct : table.schema.key.sort.Nodup)
    (present : ∀ field ∈ table.schema.key.sort, (values.present? field).isSome = true)
    {limit : Option Nat} (positive : limit ≠ some 0) (reverse : Bool) :
    Query.compile ⟨table, none, values, table.schema.key.pointFilter values, [], limit, none, reverse⟩ =
      .ok ⟨table.name, none, .at (table.schema.primaryKey values), [], limit, none, !reverse⟩ := by
  refine Query.compile_eq_ok_iff.mpr ⟨positive, none, _, none, rfl, ?_, rfl, rfl⟩
  exact KeyCondition.compile_eq_ok_iff.mpr
    ⟨_, KeyFields.pointFilter_compile present distinct table.schema.typeName, rfl⟩

/--
In tables that calls have led to, an exact query for a key that gives every key field returns what
reading by the key finds, as a list, or fails to decode the same item, whichever way it goes and whatever
its limit. Only a limit of zero is refused, before the engine is called.
-/
theorem exact_query_eq_get (served : table.engine = Memory.engine limits) {world : World Memory}
    (reached : world.Reached limits) (distinct : table.schema.key.sort.Nodup) {key : Value}
    {values : Fields} (asked : key.fields? = some values)
    (present : ∀ field ∈ table.schema.key.all, (values.present? field).isSome = true) :
    ∃ query, Query.ofPartition table none key = .ok query ∧
      ∀ (limit : Option Nat) (reverse : Bool),
        let point := { query with sortKey := table.schema.key.pointFilter values, limit, reverse }
        (limit ≠ some 0 →
          (point.all.run world).1 = ((table.get key).run world).1.map Option.toList) ∧
        (limit = some 0 → point.all.run world = (.error (.filter .zeroLimit), world)) := by
  have sort : ∀ field ∈ table.schema.key.sort, (values.present? field).isSome = true :=
    fun field declared => present field (List.mem_append_right _ declared)
  have composed : table.primaryKey key = .ok (table.schema.primaryKey values) := by
    rw [primaryKey, Value.fields_eq_ok_iff.mpr asked]
    rfl
  refine ⟨_, Query.ofPartition_eq asked, fun limit reverse => ⟨fun positive => ?_, ?_⟩⟩
  next =>
    have keyed := reached.keyed.contents table.name
    have compiled := point_query_compile distinct sort positive reverse
    have found := (Contents.behind_none ..).trans
      (Contents.inOrder_at keyed (table.schema.primaryKey values) !reverse)
    rw [get_run served world composed]
    refine (Query.all_answer served compiled (Request.starts_of_fresh rfl) keyed found).trans ?_
    cases (world.state.store.contents table.name)[table.schema.primaryKey values]? with
    | none => rfl
    | some item =>
      have read : Query.decodeAll
          ⟨table, none, values, table.schema.key.pointFilter values, [], limit, none, reverse⟩ [item] =
            (table.decode item).map fun record => [record] := by
        rw [Query.decodeAll, List.mapM_cons, List.mapM_nil]
        cases table.decode item <;> rfl
      refine read.trans ?_
      change _ = Except.map _ (some <$> table.decode item)
      cases table.decode item <;> rfl
  next =>
    rintro rfl
    exact Query.all_uncompiled rfl world

-- The values of these letters hold separators and the names of other fields.
def letters : Table Memory Fields where
  client := ⟨Memory.engine .standard, "letters", 1, .byClock⟩
  type := ⟨["owner", "folder", "id"], Value.ofFields, .ok⟩
  schema := ⟨"Letter", ⟨["owner"], ["folder", "id"]⟩, fun _ => none⟩

def letter : Fields :=
  .ofList [("owner", Value.string "ana#folder#x"), ("folder", Value.string "x#id#y"), ("id", Value.ofNat 7)]

def posted : World Memory := ((letters.put letter).run (.ofState .empty)).2

theorem posted_reached : posted.Reached .standard := by
  have written : posted =
      ((TableCall.record (.write (.put letter)) : TableCall letters).act.run (.ofState .empty)).2 :=
    RecordWrite.perform_eq letters (.ofState .empty) (.put letter)
  rw [written]
  exact .call rfl (.empty rfl) _

theorem letter_present : ∀ field ∈ letters.schema.key.all, (letter.present? field).isSome = true := by
  decide

theorem get_letter : ((letters.get (.ofFields letter)).run posted).1 = .ok (some letter) := by
  have shown := fields?_ofFields letter
  have encoded : letters.encode letter =
      .ok (letters.schema.primaryKey letter, Item.encode letters.schema letter) :=
    encode_eq_ok_iff.mpr ⟨letter, shown, rfl, rfl⟩
  have composed : letters.primaryKey (.ofFields letter) = .ok (letters.schema.primaryKey letter) := by
    rw [primaryKey, Value.fields_eq_ok_iff.mpr shown]
    rfl
  have unreserved : Item.Unreserved letter := by
    unfold Item.Unreserved
    decide
  have trips : letters.type.RoundTrips := by
    intro record fields given
    cases (fields?_ofFields record).symm.trans given
    rfl
  rw [get_run rfl posted composed, posted, put_run rfl _ encoded, World.stored_store,
    Store.contents_insert_self, Std.ExtTreeMap.getElem?_insert_self]
  exact congrArg (fun found => some <$> found)
    (Item.decode_encode trips shown unreserved letters.schema letters.schema)

theorem letter_found_by_exact_query :
    ∃ query, Query.ofPartition letters none (.ofFields letter) = .ok query ∧
      ({ query with
        sortKey := letters.schema.key.pointFilter letter, limit := some 1, reverse := true
      }.all.run posted).1 = .ok [letter] := by
  obtain ⟨query, asked, answers⟩ := exact_query_eq_get rfl posted_reached (by decide)
    (fields?_ofFields letter) letter_present
  refine ⟨query, asked, ((answers (some 1) true).1 (by decide)).trans ?_⟩
  rw [get_letter]
  rfl

theorem exact_query_of_none_refused :
    posted.Reached .standard ∧ ((letters.get (.ofFields letter)).run posted).1 = .ok (some letter) ∧
      ((⟨letters, none, letter, letters.schema.key.pointFilter letter, [], some 0, none, false⟩ :
        Query Memory Fields).all.run posted).1 ≠
          ((letters.get (.ofFields letter)).run posted).1.map Option.toList := by
  refine ⟨posted_reached, get_letter, ?_⟩
  have refused : ((⟨letters, none, letter, letters.schema.key.pointFilter letter, [], some 0, none, false⟩ :
      Query Memory Fields).all.run posted) = (.error (.filter .zeroLimit), posted) :=
    Query.all_uncompiled rfl posted
  rw [refused, get_letter]
  exact nofun

end Table

end SharedTable
