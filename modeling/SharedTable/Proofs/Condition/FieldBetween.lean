import SharedTable.Proofs.Condition.FieldRange

set_option autoImplicit false

namespace SharedTable

def ending (rest : List String) : String := if rest = [] then "" else Key.separator

namespace RangeOperator

variable {text bound : String}

theorem holds_first_field {first : String} {rest : List String} {record : Fields}
    (present : ∀ name ∈ first :: rest, (record.present? name).isSome = true) (plain : Key.Plain bound)
    (operator : RangeOperator) (typeName : String) :
    operator.holds (Key.sort typeName (first :: rest) record) (Key.segment first bound) =
      operator.holds (Key.rendered record first ++ ending rest) bound := by
  rw [Key.sort_of_present (List.cons_ne_nil _ _) present, List.map_cons]
  cases rest with
  | nil =>
    have alone (only : String) : Key.joined [only] = only := String.intercalate_singleton
    rw [List.map_nil, alone, holds_segment, ending, if_pos rfl, String.append_empty]
  | cons second rest =>
    rw [Key.joined_segment_cons (by simp), ← String.append_assoc, Key.segment, holds_append_append,
      holds_append_separator plain, ending, if_neg (List.cons_ne_nil _ _)]

theorem gte_separator_iff (plain : Key.Plain bound) :
    gte.holds (text ++ Key.separator) bound = true ↔ bound ≤ text ∨ Undercuts text bound := by
  have below := @append_separator_lt_iff text bound plain ""
  rw [String.append_empty] at below
  rw [holds, decide_eq_true_iff, ← not_lt, below, not_and_or, not_not, not_lt]

theorem lte_separator_iff (plain : Key.Plain bound) :
    lte.holds (text ++ Key.separator) bound = true ↔ text < bound ∧ ¬ Undercuts text bound := by
  have above := @lt_append_separator_iff text bound plain ""
  rw [String.append_empty] at above
  rw [holds, decide_eq_true_iff, ← not_lt, above, not_not]

end RangeOperator

section FieldBetween

variable {typeName first low high text : String} {rest : List String} {lower upper record : Fields}

theorem compile_between_first (distinct : (first :: rest).Nodup)
    (lowers : SortFilter.Bounds (first :: rest) [(first, .string low)] lower)
    (uppers : SortFilter.Bounds (first :: rest) [(first, .string high)] upper) :
    (SortFilter.between lower upper).compile typeName (first :: rest) =
      .ok (some (.between (Key.segment first low) (Key.segment first high))) := by
  have alone (text : String) : SortFilter.keyOf [(first, .string text)] = Key.segment first text := by
    rw [SortFilter.keyOf, Key.joined, List.map_singleton, String.intercalate_singleton]
    rfl
  rw [(SortFilter.Compiles.between lowers uppers).compile_eq distinct, alone, alone]

theorem SortCondition.holds_between_iff {key : String} :
    (SortCondition.between low high).holds key = true ↔
      RangeOperator.gte.holds key low = true ∧ RangeOperator.lte.holds key high = true :=
  Bool.and_eq_true_iff

/--
A range between two values of the first sort field takes in both of them where no other field follows.
Where one does, a text is in the range if it is undercut by the lower value or not below it, and is below the
upper value and not undercut by that. So the range means what it says of a text that is not below the lower
value unless the upper value is that text or undercuts it, and of any other text unless the lower value
undercuts it and the upper value keeps it in.
-/
theorem between_first_field_iff (distinct : (first :: rest).Nodup)
    (lowers : SortFilter.Bounds (first :: rest) [(first, .string low)] lower)
    (uppers : SortFilter.Bounds (first :: rest) [(first, .string high)] upper)
    (plainLow : Key.Plain low) (plainHigh : Key.Plain high)
    (present : ∀ name ∈ first :: rest, (record.present? name).isSome = true)
    (given : Key.rendered record first = text) :
    ∃ wanted,
      (SortFilter.between lower upper).compile typeName (first :: rest) = .ok (some wanted) ∧
      (wanted.holds (Key.sort typeName (first :: rest) record) = true ↔
        if rest = [] then low ≤ text ∧ text ≤ high
        else (low ≤ text ∨ RangeOperator.Undercuts text low) ∧
          text < high ∧ ¬ RangeOperator.Undercuts text high) ∧
      ((wanted.holds (Key.sort typeName (first :: rest) record) = true ↔ low ≤ text ∧ text ≤ high) ↔
        rest = [] ∨
          (low ≤ text → text ≠ high ∧ ¬ RangeOperator.Undercuts text high) ∧
          (RangeOperator.Undercuts text low → high ≤ text ∨ RangeOperator.Undercuts text high)) := by
  refine ⟨_, compile_between_first distinct lowers uppers, ?_⟩
  rw [SortCondition.holds_between_iff, RangeOperator.holds_first_field present plainLow,
    RangeOperator.holds_first_field present plainHigh, given, ending]
  by_cases last : rest = []
  · simp [last, RangeOperator.holds]
  · rw [if_neg last, if_neg last, RangeOperator.gte_separator_iff plainLow,
      RangeOperator.lte_separator_iff plainHigh]
    refine ⟨Iff.rfl, ?_⟩
    have underLow := @RangeOperator.lt_of_undercuts text low
    have underHigh := @RangeOperator.lt_of_undercuts text high
    have orderLow := @not_lt _ _ text low
    have orderHigh := lt_trichotomy text high
    have reach := @le_iff_lt_or_eq _ _ text high
    have beyond := @not_lt _ _ text high
    grind

theorem getElem?_single {name field text : String} {value : Value} :
    (Std.ExtTreeMap.ofList [(name, Value.string text)] : Fields)[field]? = some value ↔
      field = name ∧ value = .string text := by
  rw [Std.ExtTreeMap.ofList_eq_insertMany_empty, getElem?_insertMany_empty (by simp)]
  simp

theorem bounds_of_first (first : String) (rest : List String) (text : String) :
    SortFilter.Bounds (first :: rest) [(first, .string text)] (.ofList [(first, Value.string text)]) where
  leads := ⟨rest, rfl⟩
  gives field value := by
    rw [Fields.present?_eq_some_iff, getElem?_single]
    simp only [List.mem_singleton, Prod.mk.injEq]
    constructor
    · exact And.left
    · rintro ⟨rfl, rfl⟩
      exact ⟨⟨rfl, rfl⟩, rfl⟩
  first := List.cons_ne_nil _ _
  declared field member := by
    obtain ⟨value, found⟩ := Option.isSome_iff_exists.mp (Std.ExtTreeMap.mem_iff_isSome_getElem?.mp member)
    exact (getElem?_single.mp found).1 ▸ List.mem_cons_self
  plain field value found := by
    rw [(getElem?_single.mp found).2]
    rfl

def statusBound (status : String) : Fields := .ofList [("status", Value.string status)]

theorem active_to_done_selects_blocked :
    ∃ wanted,
      (SortFilter.between (statusBound "active") (statusBound "done")).compile "Task" ["status", "title"] =
        .ok (some wanted) ∧
      wanted.holds (Key.sort "Task" ["status", "title"] (titledFields "blocked" "Dune")) = true := by
  obtain ⟨wanted, compiled, _, means⟩ := @between_first_field_iff "Task" "status" "active" "done" "blocked"
    ["title"] (statusBound "active") (statusBound "done") (titledFields "blocked" "Dune") (by decide)
    (bounds_of_first ..) (bounds_of_first ..) (by unfold Key.Plain; decide) (by unfold Key.Plain; decide)
    (by decide) (by decide)
  have apart : ¬ RangeOperator.Undercuts "blocked" "done" := by
    rintro ⟨letter, later, split, _⟩
    exact absurd (List.cons.inj split).1 (by decide)
  have above : ¬ RangeOperator.Undercuts "blocked" "active" := by
    rintro ⟨letter, later, split, _⟩
    exact absurd (List.cons.inj split).1 (by decide)
  exact ⟨wanted, compiled, (means.mpr (.inr ⟨fun _ => ⟨by decide, apart⟩,
    fun under => absurd under above⟩)).mpr (by decide)⟩

theorem active_to_done_leaves_done_out :
    ∃ wanted,
      (SortFilter.between (statusBound "active") (statusBound "done")).compile "Task" ["status", "title"] =
        .ok (some wanted) ∧
      wanted.holds (Key.sort "Task" ["status", "title"] (titledFields "done" "Dune")) = false ∧
      Key.rendered (titledFields "done" "Dune") "status" = "done" ∧ "active" ≤ "done" ∧ "done" ≤ "done" :=
  ⟨.between "status#active" "status#done", rfl, by decide, by decide, by decide, le_rfl⟩

end FieldBetween

end SharedTable
