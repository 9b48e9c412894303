import SharedTable.Proofs.Condition.Exact
import SharedTable.Proofs.Item

/-!
Exact filters on the primary key, whose records may leave sort fields out. A record is selected when it
agrees with the given values and, unless they are values for all sort fields, holds one of the others: the
key of a record that holds none ends with the given values, and the condition asks for a separator there.
-/

set_option autoImplicit false

namespace SharedTable

namespace Key

theorem append_mark_prefix_iff {mark : Char} {these those : List Char} (plainThese : mark ∉ these)
    (plainThose : mark ∉ those) (rest : List Char) {tail : List Char}
    (bordered : ∀ letter ∈ tail.head?, letter = mark) :
    these ++ mark :: rest <+: those ++ tail ↔ these = those ∧ mark :: rest <+: tail := by
  induction these generalizing those with
  | nil =>
    cases those with
    | nil => simp
    | cons letter those =>
      have other : mark ≠ letter := fun same => plainThose (same ▸ List.mem_cons_self)
      simp [List.cons_prefix_cons, other]
  | cons first these ih =>
    have other : first ≠ mark := fun same => plainThese (same ▸ List.mem_cons_self)
    cases those with
    | nil =>
      cases tail with
      | nil => simp
      | cons letter tail => simp [List.cons_prefix_cons, bordered letter rfl, other]
    | cons letter those =>
      have further := ih (fun member => plainThese (List.mem_cons_of_mem _ member))
        (fun member => plainThose (List.mem_cons_of_mem _ member))
      simp only [List.cons_append, List.cons_prefix_cons, further, List.cons.injEq, and_assoc]

theorem mark_append_prefix_iff {field name : String} (plainField : Plain field) (plainName : Plain name)
    (rest tail : List Char) :
    (mark field).toList ++ rest <+: (mark name).toList ++ tail ↔ field = name ∧ rest <+: tail := by
  have inner := @append_mark_prefix_iff '#' field.toList name.toList plainField plainName rest ('#' :: tail)
    (by simp)
  simpa [toList_mark, List.cons_prefix_cons, String.toList_inj] using inner

theorem joined_ne_nil {α : Type} {given : List α} (some : given ≠ []) (field text : α → String) :
    (joined (given.map fun each => segment (field each) (text each))).toList ≠ [] := by
  obtain ⟨first, rest, rfl⟩ := List.exists_cons_of_ne_nil some
  intro none
  have whole := congrArg String.toList (separator_append_joined some field text)
  rw [String.toList_append, none, spelled_cons, String.toList_append, toList_mark] at whole
  simp [separator] at whole

theorem spelled_append_mark {α : Type} (field text : α → String) (given : List α) :
    ∃ rest, (spelled field text given).toList ++ ['#'] = '#' :: rest := by
  cases given with
  | nil => exact ⟨[], rfl⟩
  | cons first later =>
    rw [spelled_cons, String.toList_append, toList_mark]
    exact ⟨_, rfl⟩

theorem spelled_bordered {α : Type} (field text : α → String) (given : List α) {tail : List Char}
    (short : tail <+: ['#']) :
    ∀ letter ∈ ((spelled field text given).toList ++ tail).head?, letter = '#' := by
  cases given with
  | nil =>
    rcases List.prefix_cons_iff.mp short with rfl | ⟨rest, rfl, _⟩
    · simp [spelled]
    · simp [spelled]
  | cons first later =>
    rw [spelled_cons, String.toList_append, toList_mark]
    simp

theorem not_mark_prefix {field : String} {names : List String} (plainField : Plain field)
    (plainNames : ∀ name ∈ names, Plain name) (absent : field ∉ names) (text : String → String)
    (rest : List Char) {tail : List Char} (short : tail <+: ['#']) :
    ¬ (mark field).toList ++ rest <+: (spelled id text names).toList ++ tail := by
  intro found
  cases names with
  | nil =>
    have long := (found.trans short).length_le
    rw [toList_mark] at long
    simp at long
  | cons name names =>
    rw [spelled_cons, String.toList_append, List.append_assoc, id] at found
    have same := (mark_append_prefix_iff plainField (plainNames name List.mem_cons_self) _ _).mp found
    exact absent (same.1 ▸ List.mem_cons_self)

def Agrees (record : Fields) (leading : List (String × Value)) : Prop :=
  ∀ given ∈ leading, (record.present? given.1).map Value.keyText = some given.2.keyText

section Leading

variable {record : Fields} {leading : List (String × Value)} {rest : List String}
  (distinct : (leading.map Prod.fst ++ rest).Nodup)
  (plainNames : ∀ name ∈ leading.map Prod.fst ++ rest, Plain name)
  (plainRecord : ∀ name ∈ leading.map Prod.fst ++ rest, Plain (rendered record name))
  (plainValues : ∀ given ∈ leading, Plain given.2.keyText)

include distinct plainNames plainRecord plainValues

theorem spelled_prefix_iff {tail : List Char} (short : tail <+: ['#']) :
    (spelled Prod.fst (fun given => given.2.keyText) leading).toList ++ ['#'] <+:
        (spelled id (rendered record) (held (leading.map Prod.fst ++ rest) record)).toList ++ tail ↔
      Agrees record leading ∧
        ['#'] <+: (spelled id (rendered record) (held rest record)).toList ++ tail := by
  induction leading with
  | nil => simp [spelled, Agrees]
  | cons given later ih =>
    obtain ⟨apart, distinct⟩ := List.nodup_cons.mp distinct
    obtain ⟨plainName, plainNames⟩ := List.forall_mem_cons.mp plainNames
    obtain ⟨plainText, plainRecord⟩ := List.forall_mem_cons.mp plainRecord
    obtain ⟨plainValue, plainValues⟩ := List.forall_mem_cons.mp plainValues
    have further := ih distinct plainNames plainRecord plainValues
    obtain ⟨front, begins⟩ := spelled_append_mark Prod.fst (fun given => given.2.keyText) later
    rw [begins] at further
    have bordered := spelled_bordered id (rendered record)
      (held (later.map Prod.fst ++ rest) record) short
    rw [spelled_cons, String.toList_append, String.toList_append, List.append_assoc, List.append_assoc,
      begins, Agrees, List.forall_mem_cons, List.map_cons, List.cons_append, held_cons]
    cases present : record.present? given.1 with
    | some value =>
      have text : rendered record given.1 = value.keyText := rendered_of_present present
      rw [if_pos Option.isSome_some, spelled_cons, String.toList_append, String.toList_append, List.append_assoc,
        List.append_assoc, id, mark_append_prefix_iff plainName plainName,
        append_mark_prefix_iff plainValue plainText front bordered, further, text]
      simp only [true_and, Option.map_some, Option.some.injEq, String.toList_inj, @eq_comm _ value.keyText,
        and_assoc, Agrees]
    | none =>
      have kept {name : String} (member : name ∈ held (later.map Prod.fst ++ rest) record) :
          name ∈ later.map Prod.fst ++ rest := List.mem_of_mem_filter member
      rw [if_neg (by simp)]
      refine iff_of_false ?_ (by simp)
      exact not_mark_prefix plainName (fun name member => plainNames name (kept member))
        (fun member => apart (kept member)) _ _ short

variable (some : leading ≠ []) (typeName : String)

include some

theorem joined_prefix_iff {tail : List Char} (short : tail <+: ['#']) :
    (joined (leading.map fun given => segment given.1 given.2.keyText)).toList ++ ['#'] <+:
        (sort typeName (leading.map Prod.fst ++ rest) record).toList ++ tail ↔
      Agrees record leading ∧
        ['#'] <+: (spelled id (rendered record) (held rest record)).toList ++ tail := by
  have front := spelled_prefix_iff distinct plainNames plainRecord plainValues short
  have asked := separator_append_joined some Prod.fst fun given : String × Value => given.2.keyText
  have fields : leading.map Prod.fst ++ rest ≠ [] := by simp [some]
  rw [sort_eq_held fields]
  cases none : held (leading.map Prod.fst ++ rest) record with
  | nil =>
    -- A record without sort fields agrees with no value, and its key is empty.
    refine iff_of_false (fun found => ?_) fun both => ?_
    · have long := (found.trans short).length_le
      have filled := joined_ne_nil some Prod.fst fun given : String × Value => given.2.keyText
      rw [List.length_append, List.length_singleton] at long
      exact filled (List.eq_nil_of_length_eq_zero (by omega))
    · obtain ⟨given, member⟩ := List.exists_mem_of_ne_nil leading some
      have present := Option.isSome_of_eq_some (both.1 given member)
      have named := List.mem_append_left rest (List.mem_map_of_mem (f := Prod.fst) member)
      have absent := List.filter_eq_nil_iff.mp none given.1 named
      exact absent (by simpa using present)
  | cons name names =>
    have whole := separator_append_joined (List.cons_ne_nil name names) id (rendered record)
    rw [none, ← whole, ← asked, String.toList_append, String.toList_append, List.append_assoc,
      List.append_assoc] at front
    exact (List.prefix_append_right_inj _).symm.trans front

theorem beginsWith_sort_iff :
    RangeOperator.beginsWith.holds (sort typeName (leading.map Prod.fst ++ rest) record)
        (joined (leading.map fun given => segment given.1 given.2.keyText) ++ separator) = true ↔
      Agrees record leading ∧ ∃ name ∈ rest, (record.present? name).isSome = true := by
  have begins := joined_prefix_iff distinct plainNames plainRecord plainValues some typeName
    (List.nil_prefix (l := ['#']))
  rw [List.append_nil, List.append_nil] at begins
  rw [RangeOperator.holds, List.isPrefixOf_iff_prefix, String.toList_append]
  refine begins.trans (and_congr_right' ?_)
  cases behind : held rest record with
  | nil => simpa [spelled, held] using behind
  | cons name names =>
    rw [spelled_cons, String.toList_append, toList_mark]
    have member : name ∈ held rest record := behind ▸ List.mem_cons_self
    exact iff_of_true (by simp) ⟨name, List.mem_filter.mp member⟩

theorem sort_eq_joined_iff :
    sort typeName (leading.map Prod.fst ++ rest) record =
        joined (leading.map fun given => segment given.1 given.2.keyText) ↔
      Agrees record leading ∧ ∀ name ∈ rest, record.present? name = none := by
  constructor
  · intro same
    have ends := joined_prefix_iff distinct plainNames plainRecord plainValues some typeName
      (List.prefix_refl ['#'])
    have further := beginsWith_sort_iff distinct plainNames plainRecord plainValues some typeName
    rw [same] at ends further
    have agrees := (ends.mp (List.prefix_refl _)).1
    refine ⟨agrees, fun name member => ?_⟩
    by_contra present
    have longer := further.mpr ⟨agrees, name, member, by simpa [Option.isSome_iff_ne_none] using present⟩
    rw [RangeOperator.holds, List.isPrefixOf_iff_prefix, String.toList_append] at longer
    have lengths := longer.length_le
    simp [separator] at lengths
  · rintro ⟨agrees, absent⟩
    have fields : leading.map Prod.fst ++ rest ≠ [] := by simp [some]
    have front : (leading.map Prod.fst).filter (fun field => (record.present? field).isSome) =
        leading.map Prod.fst := by
      refine List.filter_eq_self.mpr (List.forall_mem_map.mpr fun given member => ?_)
      simpa using Option.isSome_of_eq_some (agrees given member)
    have back : rest.filter (fun field => (record.present? field).isSome) = [] :=
      List.filter_eq_nil_iff.mpr fun name member => by simp [absent name member]
    rw [sort_eq_held fields, held, List.filter_append, front, back, List.append_nil, List.map_map]
    congr 1
    apply List.map_congr_left
    intro given member
    rw [Function.comp_apply, rendered, agrees given member]
    rfl

end Leading

end Key

theorem Item.holds_encode_primary_iff {schema : Schema} {record : Fields} {partitionKey : String}
    {sort : Option SortCondition} :
    (KeyCondition.ofSlot none partitionKey sort).holds (Item.encode schema record) = true ↔
      schema.key.partitionKey schema.typeName record = partitionKey ∧
        ∀ wanted, sort = some wanted →
          wanted.holds (schema.key.sortKey schema.typeName record) = true := by
  have stored : (encode schema record).text? partitionAttr =
      some (schema.key.partitionKey schema.typeName record) :=
    text?_encode_of_mem (by simp [derived, Schema.primaryKey])
  have sorted : (encode schema record).text? sortAttr =
      some (schema.key.sortKey schema.typeName record) :=
    text?_encode_of_mem (by simp [derived, Schema.primaryKey])
  change KeyCondition.holds ⟨partitionAttr, partitionKey, sortAttr, sort⟩ (encode schema record) = true ↔ _
  rw [Contents.holds_iff, stored, sorted]
  simp

namespace ExactOn

variable {schema : Schema} {leading : List (String × Value)} {rest : List String} {filter : SortFilter}
  {partition record : Fields}

/--
An exact filter on the primary key selects, of the records of the queried partition, those that agree with
the given values and, unless all sort fields are given, have a value for one of the others.
-/
theorem selects_agreeing_iff (exact : ExactOn schema.key.sort leading rest filter) (some : leading ≠ [])
    (distinct : schema.key.sort.Nodup) (plainNames : ∀ name ∈ schema.key.sort, Key.Plain name)
    (plainRecord : ∀ name ∈ schema.key.sort, Key.Plain (Key.rendered record name))
    (plainValues : ∀ given ∈ leading, Key.Plain given.2.keyText)
    (queried : schema.key.partitionKey schema.typeName record =
      schema.key.partitionKey schema.typeName partition) :
    ∃ condition,
      KeyCondition.compile schema none partition filter = .ok condition ∧
      (condition.holds (Item.encode schema record) = true ↔
        Key.Agrees record leading ∧
          (rest = [] ∨ ∃ name ∈ rest, (record.present? name).isSome = true)) := by
  refine ⟨_, KeyCondition.compile_eq_ok_iff.mpr ⟨_, exact.compile_eq distinct schema.typeName, rfl⟩, ?_⟩
  have split := exact.split
  rw [split] at distinct plainNames plainRecord
  have part := Key.beginsWith_sort_iff distinct plainNames plainRecord plainValues some schema.typeName
  have whole := Key.sort_eq_joined_iff distinct plainNames plainRecord plainValues some schema.typeName
  rw [← split] at part whole
  refine Item.holds_encode_primary_iff.trans ((and_iff_right queried).trans ?_)
  rw [condition, if_neg some]
  by_cases last : rest = []
  · simp only [if_pos last, Option.some.injEq, forall_eq', SortCondition.holds, beq_iff_eq]
    exact whole.trans (by simp [last])
  · simp only [if_neg last, Option.some.injEq, forall_eq', SortCondition.holds]
    exact part.trans (by simp [last])

end ExactOn

def noteSchema : Schema := ⟨"Note", ⟨["owner"], ["status", "dueOn", "title"]⟩, fun _ => none⟩

def noteFields (status : String) (more : List (String × Value)) : Fields :=
  .ofList ([("owner", Value.string "ana"), ("status", .string status)] ++ more)

def withStatus (status : String) : SortFilter := .fields [("status", .exact (.string status))]

theorem exactOn_withStatus (status : String) :
    ExactOn noteSchema.key.sort [("status", .string status)] ["dueOn", "title"] (withStatus status) where
  split := rfl
  shape := .inr ⟨_, rfl, ⟨List.forall_mem_singleton.mpr List.mem_cons_self, List.pairwise_singleton ..⟩, .refl _⟩

theorem open_note_with_title_selected :
    ∃ condition,
      KeyCondition.compile noteSchema none (noteFields "open" []) (withStatus "open") = .ok condition ∧
      condition.holds (Item.encode noteSchema
        (noteFields "open" [("dueOn", .null), ("title", .string "Dune")])) = true := by
  obtain ⟨condition, compiled, selects⟩ := @ExactOn.selects_agreeing_iff noteSchema
    [("status", .string "open")] ["dueOn", "title"] (withStatus "open") (noteFields "open" [])
    (noteFields "open" [("dueOn", .null), ("title", .string "Dune")]) (exactOn_withStatus "open")
    (by decide) (by decide) (by unfold Key.Plain; decide) (by unfold Key.Plain; decide)
    (by unfold Key.Plain; decide) (by decide)
  exact ⟨condition, compiled, selects.mpr ⟨by unfold Key.Agrees; decide, .inr (by decide)⟩⟩

theorem open_note_without_title_left_out :
    ∃ condition,
      KeyCondition.compile noteSchema none (noteFields "open" []) (withStatus "open") = .ok condition ∧
      condition.holds (Item.encode noteSchema (noteFields "open" [("dueOn", .null)])) = false ∧
      Key.Agrees (noteFields "open" [("dueOn", .null)]) [("status", .string "open")] :=
  ⟨⟨"partitionKey", "Note#owner#ana", "sortKey", some (.compares .beginsWith "status#open#")⟩, rfl,
    by decide, by unfold Key.Agrees; decide⟩

end SharedTable
