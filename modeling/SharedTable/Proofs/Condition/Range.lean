import SharedTable.Item
import SharedTable.Proofs.Condition.Compile
import SharedTable.Proofs.Key.Spelling

set_option autoImplicit false

namespace SharedTable

/--
Whether texts leave the given values for others on the side that an operator selects. The first field
that differs decides, with the separator behind it.
-/
def Strays (operator : RangeOperator) (texts : String → String) (leading : List (String × Value)) :
    Prop :=
  ∃ before given after, leading = before ++ given :: after ∧
    (∀ other ∈ before, texts other.1 = other.2.keyText) ∧ texts given.1 ≠ given.2.keyText ∧
    operator.holds (texts given.1 ++ Key.separator) (given.2.keyText ++ Key.separator) = true

theorem strays_cons_iff {operator : RangeOperator} {texts : String → String} {given : String × Value}
    {later : List (String × Value)} :
    Strays operator texts (given :: later) ↔
      (texts given.1 ≠ given.2.keyText ∧
        operator.holds (texts given.1 ++ Key.separator) (given.2.keyText ++ Key.separator) = true) ∨
      (texts given.1 = given.2.keyText ∧ Strays operator texts later) := by
  constructor
  · rintro ⟨_ | ⟨first, before⟩, found, after, same, agree, differ, decides⟩
    · cases same
      exact .inl ⟨differ, decides⟩
    · cases same
      obtain ⟨here, agree⟩ := List.forall_mem_cons.mp agree
      exact .inr ⟨here, before, found, after, rfl, agree, differ, decides⟩
  · rintro (⟨differ, decides⟩ | ⟨here, before, found, after, rfl, agree, differ, decides⟩)
    · exact ⟨[], given, later, rfl, by simp, differ, decides⟩
    · exact ⟨given :: before, found, after, rfl, List.forall_mem_cons.mpr ⟨here, agree⟩, differ,
        decides⟩

theorem holds_leading_iff (operator : RangeOperator) {texts : String → String}
    {leading : List (String × Value)} (plainTexts : ∀ given ∈ leading, Key.Plain (texts given.1))
    (plainValues : ∀ given ∈ leading, Key.Plain given.2.keyText) {tail bound : List String}
    (someTail : tail ≠ []) (someBound : bound ≠ []) :
    operator.holds
        (Key.joined (leading.map (fun given => Key.segment given.1 (texts given.1)) ++ tail))
        (Key.joined (leading.map (fun given => Key.segment given.1 given.2.keyText) ++ bound)) =
          true ↔
      ((∀ given ∈ leading, texts given.1 = given.2.keyText) ∧
        operator.holds (Key.joined tail) (Key.joined bound) = true) ∨
      Strays operator texts leading := by
  induction leading with
  | nil =>
    have never : ¬ Strays operator texts [] := by
      rintro ⟨_ | _, _, _, same, _⟩ <;> cases same
    simp [never]
  | cons given later ih =>
    have further := ih (fun other member => plainTexts other (List.mem_cons_of_mem _ member))
      (fun other member => plainValues other (List.mem_cons_of_mem _ member))
    rw [List.map_cons, List.map_cons, List.cons_append, List.cons_append,
      Key.joined_segment_cons (by simp [someTail]), Key.joined_segment_cons (by simp [someBound]),
      RangeOperator.holds_append_append, RangeOperator.holds_append_append, strays_cons_iff]
    -- An equal first text drops out of both keys; a different one decides at the separator behind it.
    by_cases here : texts given.1 = given.2.keyText
    · rw [here, RangeOperator.holds_append_append, RangeOperator.holds_append_append, further]
      simp [here]
    · rw [RangeOperator.holds_of_differ operator (plainTexts given List.mem_cons_self)
        (plainValues given List.mem_cons_self) here]
      simp [here]

def exactThenRange (leading : List (String × Value)) (field : String) (operator : RangeOperator)
    (bound : Value) : List (String × Operand) :=
  leading.map (fun given => (given.1, .exact given.2)) ++ [(field, .range operator bound)]

theorem ends_exactThenRange (leading : List (String × Value)) (field : String)
    (operator : RangeOperator) (bound : Value) :
    SortFilter.Ends (exactThenRange leading field operator bound) (some operator) := by
  induction leading with
  | nil => exact .range field operator bound
  | cons given later ih => exact .exact given.1 given.2 ih

theorem spelled_exactThenRange (leading : List (String × Value)) (field : String)
    (operator : RangeOperator) (bound : Value) :
    SortFilter.spelled (exactThenRange leading field operator bound) =
      leading.map (fun given => Key.segment given.1 given.2.keyText) ++
        [Key.segment field bound.keyText] := by
  simp [SortFilter.spelled, exactThenRange, Operand.value, Function.comp_def]

/--
A filter with exact values in front of a range compiles, and its condition selects the records that
agree with the values and are in the range, and those that stray. So it confines the exact fields of a
record exactly when the record does not stray.
-/
theorem range_confines_iff {schema : Schema} {index : Option Index} {key : KeyFields}
    (queried : (index.map Index.key).getD schema.key = key) (distinct : key.sort.Nodup)
    {leading : List (String × Value)} {field : String} {rest : List String}
    (declared : key.sort = leading.map Prod.fst ++ field :: rest) {operator : RangeOperator}
    {bound : Value} {operands : List (String × Operand)}
    (named : SortFilter.WellNamed key.sort operands)
    (asked : (operands.filter fun given => given.2.isGiven).Perm
      (exactThenRange leading field operator bound))
    {partition record : Fields}
    (present : ∀ name ∈ key.sort, (record.present? name).isSome = true)
    (plainRecord : ∀ given ∈ leading, Key.Plain (Key.rendered record given.1))
    (plainValues : ∀ given ∈ leading, Key.Plain given.2.keyText) :
    ∃ condition wanted,
      KeyCondition.compile schema index partition (.fields operands) = .ok condition ∧
      condition.sort = some wanted ∧
      (wanted.holds (key.sortKey schema.typeName record) = true ↔
        ((∀ given ∈ leading, Key.rendered record given.1 = given.2.keyText) ∧
          operator.holds (Key.sort schema.typeName (field :: rest) record)
            (Key.segment field bound.keyText) = true) ∨
        Strays operator (Key.rendered record) leading) ∧
      ((wanted.holds (key.sortKey schema.typeName record) = true →
          ∀ given ∈ leading, Key.rendered record given.1 = given.2.keyText) ↔
        ¬ Strays operator (Key.rendered record) leading) := by
  have gives : SortFilter.Gives key.sort operands (exactThenRange leading field operator bound)
      (some operator) rest := by
    refine SortFilter.gives_of_perm distinct ?_ asked (ends_exactThenRange ..)
    simp [declared, exactThenRange, Function.comp_def]
  have compiled : (SortFilter.fields operands).compile schema.typeName key.sort =
      .ok (some (.compares operator (Key.joined
        (SortFilter.spelled (exactThenRange leading field operator bound))))) := by
    rw [SortFilter.compile_fields (by simp [declared]),
      SortFilter.compileFields_of_gives distinct named gives]
    simp [SortFilter.conditionOf, exactThenRange]
  have tail : Key.sort schema.typeName (field :: rest) record =
      Key.joined ((field :: rest).map fun name => Key.segment name (Key.rendered record name)) := by
    refine Key.sort_of_present (by simp) (fun name member => present name ?_) _
    exact declared ▸ List.mem_append_right _ member
  -- The key of the record starts with the segments of the exact fields.
  have whole : key.sortKey schema.typeName record = Key.joined
      (leading.map (fun given => Key.segment given.1 (Key.rendered record given.1)) ++
        (field :: rest).map fun name => Key.segment name (Key.rendered record name)) := by
    rw [KeyFields.sortKey, Key.sort_of_present (by simp [declared]) present, declared, List.map_append,
      List.map_map]
    rfl
  have someTail : ((field :: rest).map fun name => Key.segment name (Key.rendered record name)) ≠ [] := by
    simp
  have selects := holds_leading_iff operator plainRecord plainValues someTail
    (show [Key.segment field bound.keyText] ≠ [] by simp)
  rw [← whole, ← spelled_exactThenRange leading field operator bound, ← tail,
    show Key.joined [Key.segment field bound.keyText] = Key.segment field bound.keyText from
      String.intercalate_singleton] at selects
  refine ⟨_, .compares operator (Key.joined (SortFilter.spelled
    (exactThenRange leading field operator bound))),
    KeyCondition.compile_eq_ok_iff.mpr ⟨_, queried ▸ compiled, rfl⟩, rfl, selects, ?_⟩
  constructor
  · intro confined strays
    obtain ⟨_, given, _, split, _, differ, _⟩ := id strays
    exact differ (confined (selects.mpr (.inr strays)) given (by simp [split]))
  · intro stays selected
    rcases selects.mp selected with ⟨agree, _⟩ | strays
    · exact agree
    · exact absurd strays stays

def taskSchema : Schema where
  typeName := "Task"
  key := ⟨["userId"], ["taskId"]⟩
  slots slot := if slot = .gsi1 then some ⟨"byStatus", ⟨["userId"], ["status", "updatedAt"]⟩⟩ else none

def taskFields (status : String) (updatedAt : Nat) : Fields :=
  .ofList [("userId", Value.string "u1"), ("taskId", Value.string "t1"),
    ("status", Value.string status), ("updatedAt", Value.ofNat updatedAt)]

def recentOperands : List (String × Operand) :=
  [("status", .exact (.string "active")), ("updatedAt", .range .gte (.ofNat 1000))]

theorem recent_confines_abandoned :
    ∃ condition wanted,
      KeyCondition.compile taskSchema (taskSchema.index? "byStatus")
        (.ofList [("userId", Value.string "u1")]) (.fields recentOperands) = .ok condition ∧
      condition.sort = some wanted ∧
      (wanted.holds (Key.sort "Task" ["status", "updatedAt"] (taskFields "abandoned" 2000)) = true →
        Key.rendered (taskFields "abandoned" 2000) "status" = "active") := by
  obtain ⟨condition, wanted, compiled, sort, _, confines⟩ := @range_confines_iff
    taskSchema (taskSchema.index? "byStatus") ⟨["userId"], ["status", "updatedAt"]⟩ rfl (by decide)
    [("status", .string "active")] "updatedAt" [] rfl .gte (.ofNat 1000) recentOperands
    ⟨by decide, by decide⟩ (.refl _) (.ofList [("userId", Value.string "u1")])
    (taskFields "abandoned" 2000) (by decide) (by unfold Key.Plain; decide) (by unfold Key.Plain; decide)
  refine ⟨condition, wanted, compiled, sort, fun selected => ?_⟩
  refine confines.mpr ?_ selected ("status", .string "active") List.mem_cons_self
  rw [strays_cons_iff]
  rintro (⟨_, decides⟩ | ⟨same, _⟩)
  · exact absurd decides (by decide)
  · exact absurd same (by decide)

theorem recent_selects_done :
    ∃ condition,
      KeyCondition.compile taskSchema (taskSchema.index? "byStatus")
        (.ofList [("userId", Value.string "u1")]) (.fields recentOperands) = .ok condition ∧
      condition.holds (Item.encode taskSchema (taskFields "done" 2000)) = true ∧
      Key.rendered (taskFields "done" 2000) "status" ≠ "active" :=
  ⟨⟨"gsi1_partitionKey", "Task#userId#u1", "gsi1_sortKey",
    some (.compares .gte "status#active#updatedAt#0000000000001000")⟩, rfl, by decide, by decide⟩

end SharedTable
