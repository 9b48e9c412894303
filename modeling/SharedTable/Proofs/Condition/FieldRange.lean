import SharedTable.Proofs.Condition.Grammar
import SharedTable.Proofs.Expression.Conditions
import SharedTable.Proofs.Number.Padding

set_option autoImplicit false

namespace SharedTable

namespace RangeOperator

theorem holds_iff_relates (operator : RangeOperator) (text bound : String) :
    operator.holds text bound = true ↔ operator.comparison.Relates text bound :=
  ((SortCondition.compares operator bound).relates_test text).symm

/-- In which orders to its bound an operator accepts a value. To begin with it is a matter of no order. -/
def accepts? : RangeOperator → Option (Ordering → Bool)
  | .beginsWith => none
  | .gte => some Ordering.isGE
  | .lte => some Ordering.isLE
  | .gt => some Ordering.isGT
  | .lt => some Ordering.isLT

theorem holds_iff_accepts {operator : RangeOperator} {accepts : Ordering → Bool}
    (orders : operator.accepts? = some accepts) (text bound : String) :
    operator.holds text bound = true ↔ accepts (compare text bound) = true := by
  cases operator with
  | beginsWith => cases orders
  | gte =>
    cases orders
    exact decide_eq_true_iff.trans (Ordering.isGE_iff_ne_lt.trans compare_ge_iff_ge).symm
  | lte =>
    cases orders
    exact decide_eq_true_iff.trans (Ordering.isLE_iff_ne_gt.trans compare_le_iff_le).symm
  | gt =>
    cases orders
    exact decide_eq_true_iff.trans (Ordering.isGT_iff_eq_gt.trans compare_gt_iff_gt).symm
  | lt =>
    cases orders
    exact decide_eq_true_iff.trans (Ordering.isLT_iff_eq_lt.trans compare_lt_iff_lt).symm

/-- Whether a bound goes on behind a text with a letter that sorts below the separator. -/
def Undercuts (text bound : String) : Prop :=
  ∃ letter rest, bound.toList = text.toList ++ letter :: rest ∧ letter < '#'

theorem append_mark_lt_iff {xs ys : List Char} {mark : Char} (plain : mark ∉ ys) (as : List Char) :
    xs ++ mark :: as < ys ↔ xs < ys ∧ ¬ ∃ letter rest, ys = xs ++ letter :: rest ∧ letter < mark := by
  induction xs generalizing ys with
  | nil =>
    cases ys with
    | nil => simp
    | cons y ys =>
      have other : mark ≠ y := fun same => plain (same ▸ List.mem_cons_self)
      simpa [List.cons_lt_cons_iff, other] using other.le_iff_lt.symm
  | cons x xs ih =>
    cases ys with
    | nil => simp
    | cons y ys =>
      have later := @ih ys fun member => plain (List.mem_cons_of_mem _ member)
      simp only [List.cons_append, List.cons_lt_cons_iff, later, List.cons.injEq]
      by_cases same : x = y
      · simp [same]
      · simp [same, Ne.symm same]

theorem lt_of_undercuts {text bound : String} (undercuts : Undercuts text bound) : text < bound := by
  obtain ⟨letter, rest, split, _⟩ := undercuts
  have longer : text.toList ++ [] < text.toList ++ letter :: rest :=
    List.append_left_lt (List.nil_lt_cons letter rest)
  rw [String.lt_iff_toList_lt, split]
  simpa using longer

section Followed

variable {text bound : String} (plain : Key.Plain bound)

include plain

theorem append_separator_lt_iff (rest : String) :
    text ++ (Key.separator ++ rest) < bound ↔ text < bound ∧ ¬ Undercuts text bound := by
  rw [String.lt_iff_toList_lt, String.lt_iff_toList_lt, String.toList_append, String.toList_append]
  exact append_mark_lt_iff plain rest.toList

theorem lt_append_separator_iff (rest : String) :
    bound < text ++ (Key.separator ++ rest) ↔ ¬ (text < bound ∧ ¬ Undercuts text bound) := by
  have apart : bound ≠ text ++ (Key.separator ++ rest) := by
    rintro rfl
    exact plain (by simp [Key.separator])
  rw [← append_separator_lt_iff plain rest, not_lt]
  exact apart.le_iff_lt.symm

theorem holds_append_separator (operator : RangeOperator) (rest : String) :
    operator.holds (text ++ (Key.separator ++ rest)) bound =
      operator.holds (text ++ Key.separator) bound := by
  have bare : text ++ Key.separator = text ++ (Key.separator ++ "") := by rw [String.append_empty]
  have below : text ++ (Key.separator ++ rest) < bound ↔ text ++ Key.separator < bound := by
    rw [bare, append_separator_lt_iff plain, append_separator_lt_iff plain]
  have above : bound < text ++ (Key.separator ++ rest) ↔ bound < text ++ Key.separator := by
    rw [bare, lt_append_separator_iff plain, lt_append_separator_iff plain]
  cases operator with
  | beginsWith =>
    simp only [holds, String.toList_append]
    exact (isPrefixOf_append_mark plain rest.toList).trans (isPrefixOf_append_mark plain []).symm
  | gte => exact decide_eq_decide.mpr (not_congr below)
  | lte => exact decide_eq_decide.mpr (not_congr above)
  | gt => exact decide_eq_decide.mpr above
  | lt => exact decide_eq_decide.mpr below

theorem relates_append_separator_iff {operator : RangeOperator} (ordered : operator ≠ .beginsWith) :
    (operator.comparison.Relates (text ++ Key.separator) bound ↔
        operator.comparison.Relates text bound) ↔
      ¬ Undercuts text bound ∧ (text = bound → operator = .gte ∨ operator = .lt) := by
  have below := @append_separator_lt_iff text bound plain ""
  have above := @lt_append_separator_iff text bound plain ""
  rw [String.append_empty] at below above
  have under := @lt_of_undercuts text bound
  have order := lt_trichotomy text bound
  have apart := @lt_asymm _ _ text bound
  have equal := @ne_of_lt _ _ text bound
  rw [← holds_iff_relates, ← holds_iff_relates]
  cases operator with
  | beginsWith => exact absurd rfl ordered
  | gte => simp only [holds, decide_eq_true_iff]; grind
  | lte => simp only [holds, decide_eq_true_iff]; grind
  | gt => simp only [holds, decide_eq_true_iff, above]; grind
  | lt => simp only [holds, decide_eq_true_iff, below]; grind

end Followed

end RangeOperator

section FieldRange

variable {typeName field : String} {leading : List (String × Value)} {rest : List String}
  {operator : RangeOperator} {bound : Value} {operands : List (String × Operand)} {record : Fields}

theorem compile_range (distinct : (leading.map Prod.fst ++ field :: rest).Nodup)
    (named : SortFilter.WellNamed (leading.map Prod.fst ++ field :: rest) operands)
    (asked : (operands.filter fun given => given.2.isGiven).Perm
      (exactThenRange leading field operator bound)) :
    (SortFilter.fields operands).compile typeName (leading.map Prod.fst ++ field :: rest) =
      .ok (some (.compares operator (SortFilter.keyOf (leading ++ [(field, bound)])))) :=
  (SortFilter.Compiles.range leading field operator bound rest named asked).compile_eq distinct

theorem holds_keyOf_of_agree
    (present : ∀ name ∈ leading.map Prod.fst ++ field :: rest, (record.present? name).isSome = true)
    (agree : ∀ given ∈ leading, Key.rendered record given.1 = given.2.keyText) :
    operator.holds (Key.sort typeName (leading.map Prod.fst ++ field :: rest) record)
        (SortFilter.keyOf (leading ++ [(field, bound)])) =
      operator.holds
        (Key.joined ((field :: rest).map fun name => Key.segment name (Key.rendered record name)))
        (Key.segment field bound.keyText) := by
  have front : (leading.map Prod.fst).map (fun name => Key.segment name (Key.rendered record name)) =
      leading.map fun given => Key.segment given.1 given.2.keyText := by
    rw [List.map_map]
    apply List.map_congr_left
    intro given member
    rw [Function.comp_apply, agree given member]
  rw [Key.sort_of_present (by simp) present, List.map_append, front, SortFilter.keyOf, List.map_append,
    RangeOperator.holds_joined_append operator _ (by simp) (by simp)]
  exact congrArg _ String.intercalate_singleton

/--
A range on the last sort field, behind exact values for all the others, selects among the records that
agree with those values the ones whose text of the last field is in the range. Whole numbers that fit the
padding are in it when they compare as the operator asks.
-/
theorem last_field_range_exact {sortFields : List String}
    (declared : sortFields = leading.map Prod.fst ++ [field]) (distinct : sortFields.Nodup)
    (named : SortFilter.WellNamed sortFields operands)
    (asked : (operands.filter fun given => given.2.isGiven).Perm
      (exactThenRange leading field operator bound))
    (present : ∀ name ∈ sortFields, (record.present? name).isSome = true)
    (agree : ∀ given ∈ leading, Key.rendered record given.1 = given.2.keyText) :
    ∃ wanted,
      (SortFilter.fields operands).compile typeName sortFields = .ok (some wanted) ∧
      (wanted.holds (Key.sort typeName sortFields record) = true ↔
        operator.comparison.Relates (Key.rendered record field) bound.keyText) ∧
      ∀ m n : Integer, record.present? field = some (.number (.integer m)) →
        bound = .number (.integer n) → m.Narrow → n.Narrow →
        ∀ accepts, operator.accepts? = some accepts →
          (wanted.holds (Key.sort typeName sortFields record) = true ↔
            accepts (compare m.val n.val) = true) := by
  subst declared
  have selects : operator.holds (Key.sort typeName (leading.map Prod.fst ++ [field]) record)
      (SortFilter.keyOf (leading ++ [(field, bound)])) =
        operator.holds (Key.rendered record field) bound.keyText := by
    have alone (text : String) : Key.joined [text] = text := String.intercalate_singleton
    rw [holds_keyOf_of_agree present agree, List.map_singleton, alone, RangeOperator.holds_segment]
  refine ⟨_, compile_range distinct named asked, ?_, ?_⟩
  · exact (congrArg (· = true) selects).to_iff.trans (RangeOperator.holds_iff_relates ..)
  · rintro m n stored rfl narrowM narrowN accepts orders
    rw [Key.rendered_of_present stored] at selects
    have ordered := RangeOperator.holds_iff_accepts orders (Number.padded (.integer m))
      (Number.padded (.integer n))
    rw [Number.compare_padded narrowM narrowN] at ordered
    exact (congrArg (· = true) selects).to_iff.trans ordered

theorem recent_selects_later :
    ∃ wanted,
      (SortFilter.fields recentOperands).compile "Task" ["status", "updatedAt"] = .ok (some wanted) ∧
      wanted.holds (Key.sort "Task" ["status", "updatedAt"] (taskFields "active" 2000)) = true := by
  obtain ⟨wanted, compiled, _, counts⟩ := @last_field_range_exact "Task" "updatedAt"
    [("status", .string "active")] .gte (.ofNat 1000) recentOperands (taskFields "active" 2000)
    ["status", "updatedAt"] rfl (by decide) ⟨by decide, by decide⟩ (.refl _) (by decide) (by decide)
  exact ⟨wanted, compiled, (counts _ _ rfl rfl (by unfold Integer.Narrow; decide)
    (by unfold Integer.Narrow; decide) _ rfl).mpr (by decide)⟩

/--
A range on the first of several sort fields compares the text of the field with the separator behind it.
So it means what its operator says unless the bound goes on behind the text with a letter below the
separator, and, of a text that meets the bound, only where the operator is met by what is longer.
-/
theorem followed_range_means_iff {first second : String}
    (distinct : (first :: second :: rest).Nodup)
    (named : SortFilter.WellNamed (first :: second :: rest) operands)
    (asked : (operands.filter fun given => given.2.isGiven).Perm [(first, .range operator bound)])
    (ordered : operator ≠ .beginsWith) (plain : Key.Plain bound.keyText)
    (present : ∀ name ∈ first :: second :: rest, (record.present? name).isSome = true) :
    ∃ wanted,
      (SortFilter.fields operands).compile typeName (first :: second :: rest) = .ok (some wanted) ∧
      (wanted.holds (Key.sort typeName (first :: second :: rest) record) = true ↔
        operator.comparison.Relates (Key.rendered record first ++ Key.separator) bound.keyText) ∧
      ((wanted.holds (Key.sort typeName (first :: second :: rest) record) = true ↔
          operator.comparison.Relates (Key.rendered record first) bound.keyText) ↔
        ¬ RangeOperator.Undercuts (Key.rendered record first) bound.keyText ∧
          (Key.rendered record first = bound.keyText → operator = .gte ∨ operator = .lt)) := by
  have selects : operator.holds (Key.sort typeName (first :: second :: rest) record)
      (SortFilter.keyOf [(first, bound)]) = true ↔
        operator.comparison.Relates (Key.rendered record first ++ Key.separator) bound.keyText := by
    have whole := @holds_keyOf_of_agree typeName first [] (second :: rest) operator bound record present
      (by simp)
    -- Behind the name of the first field stand its text, a separator and the other segments.
    rw [List.map_cons, Key.joined_segment_cons (by simp), ← String.append_assoc, Key.segment,
      RangeOperator.holds_append_append, RangeOperator.holds_append_separator plain] at whole
    rw [← RangeOperator.holds_iff_relates]
    exact (congrArg (· = true) whole).to_iff
  refine ⟨_, @compile_range typeName first [] _ _ _ _ distinct named asked, selects, ?_⟩
  rw [SortCondition.holds, List.nil_append, selects]
  exact RangeOperator.relates_append_separator_iff plain ordered

def titledFields (status title : String) : Fields :=
  .ofList [("status", Value.string status), ("title", Value.string title)]

def untilOperands (operator : RangeOperator) (status : String) : List (String × Operand) :=
  [("status", .range operator (.string status))]

theorem before_done_selects_active :
    ∃ wanted,
      (SortFilter.fields (untilOperands .lt "done")).compile "Task" ["status", "title"] =
        .ok (some wanted) ∧
      wanted.holds (Key.sort "Task" ["status", "title"] (titledFields "active" "Dune")) = true := by
  obtain ⟨wanted, compiled, _, means⟩ := @followed_range_means_iff "Task" [] .lt (.string "done")
    (untilOperands .lt "done") (titledFields "active" "Dune") "status" "title" (by decide)
    ⟨by decide, by decide⟩ (.refl _) (by decide) (by unfold Key.Plain; decide) (by decide)
  have apart : ¬ RangeOperator.Undercuts "active" "done" := by
    rintro ⟨letter, later, split, _⟩
    exact absurd (List.cons.inj split).1 (by decide)
  exact ⟨wanted, compiled, (means.mpr ⟨apart, fun same => absurd same (by decide)⟩).mpr
    ((RangeOperator.holds_iff_relates ..).mp (by decide))⟩

theorem up_to_active_leaves_active_out :
    ∃ wanted,
      (SortFilter.fields (untilOperands .lte "active")).compile "Task" ["status", "title"] =
        .ok (some wanted) ∧
      wanted.holds (Key.sort "Task" ["status", "title"] (titledFields "active" "Dune")) = false ∧
      RangeOperator.lte.comparison.Relates (Key.rendered (titledFields "active" "Dune") "status")
        (Value.keyText (.string "active")) :=
  ⟨.compares .lte "status#active", rfl, by decide, (RangeOperator.holds_iff_relates ..).mp (by decide)⟩

end FieldRange

end SharedTable
