import SharedTable.Proofs.Condition.Range

set_option autoImplicit false

namespace SharedTable

def exactly (leading : List (String × Value)) : List (String × Operand) :=
  leading.map fun given => (given.1, .exact given.2)

theorem ends_exactly (leading : List (String × Value)) : SortFilter.Ends (exactly leading) none := by
  induction leading with
  | nil => exact .nil
  | cons given later ih => exact .exact given.1 given.2 ih

theorem spelled_exactly (leading : List (String × Value)) :
    SortFilter.spelled (exactly leading) =
      leading.map fun given => Key.segment given.1 given.2.keyText := by
  rw [SortFilter.spelled, exactly, List.map_map]
  rfl

/--
A filter that gives exact values to the leading sort fields, in any order, and asks nothing of the rest.
Without values it may be the absent filter.
-/
structure ExactOn (sortFields : List String) (leading : List (String × Value)) (rest : List String)
    (filter : SortFilter) : Prop where
  split : sortFields = leading.map Prod.fst ++ rest
  shape : filter = .unbounded ∧ leading = [] ∨
    ∃ operands, filter = .fields operands ∧ SortFilter.WellNamed sortFields operands ∧
      (operands.filter fun given => given.2.isGiven).Perm (exactly leading)

namespace ExactOn

variable {sortFields rest : List String} {leading : List (String × Value)} {filter : SortFilter}

def condition (typeName : String) (leading : List (String × Value)) (rest : List String) :
    Option SortCondition :=
  let key := Key.joined (leading.map fun given => Key.segment given.1 given.2.keyText)
  if leading = [] then if rest = [] then some (.equals typeName) else none
  else if rest = [] then some (.equals key)
  else some (.compares .beginsWith (key ++ Key.separator))

theorem compile_eq (exact : ExactOn sortFields leading rest filter) (distinct : sortFields.Nodup)
    (typeName : String) : filter.compile typeName sortFields = .ok (condition typeName leading rest) := by
  have split := exact.split
  -- Without declared fields the key is the type name, whatever form the filter has.
  by_cases undeclared : sortFields = []
  · subst undeclared
    obtain ⟨none, last⟩ := List.append_eq_nil_iff.mp split.symm
    have first : leading = [] := List.map_eq_nil_iff.mp none
    simp only [condition, first, last, if_true]
    rcases exact.shape with ⟨rfl, _⟩ | ⟨operands, rfl, named, _⟩
    · rfl
    · have silent : operands = [] :=
        List.eq_nil_iff_forall_not_mem.mpr fun given member => nomatch named.declared given member
      rw [silent]
      rfl
  · rcases exact.shape with ⟨rfl, rfl⟩ | ⟨operands, rfl, named, asked⟩
    · have some : rest ≠ [] := by
        rintro rfl
        exact undeclared split
      have absent : SortFilter.unbounded.compile typeName sortFields = .ok none :=
        if_neg (by simpa using undeclared)
      rw [absent, condition, if_pos rfl, if_neg some]
    · have gives : SortFilter.Gives sortFields operands (exactly leading) none rest := by
        refine SortFilter.gives_of_perm distinct ?_ asked (ends_exactly leading)
        rw [split, exactly, List.map_map]
        rfl
      have none : exactly leading = [] ↔ leading = [] := List.map_eq_nil_iff
      rw [SortFilter.compile_fields undeclared, SortFilter.compileFields_of_gives distinct named gives,
        SortFilter.conditionOf, condition, spelled_exactly]
      by_cases first : leading = []
      · have some : rest ≠ [] := by
          rintro rfl
          exact undeclared (by rw [split, first]; rfl)
        rw [if_pos (none.mpr first), if_pos first, if_neg some]
      · rw [if_neg (mt none.mp first), if_neg first]

theorem not_strays_beginsWith {texts : String → String}
    (plainTexts : ∀ given ∈ leading, Key.Plain (texts given.1))
    (plainValues : ∀ given ∈ leading, Key.Plain given.2.keyText) : ¬ Strays .beginsWith texts leading := by
  rintro ⟨before, given, after, rfl, _, differ, decides⟩
  have member : given ∈ before ++ given :: after := by simp
  rw [RangeOperator.beginsWith_of_differ (plainTexts given member) (plainValues given member) differ]
    at decides
  cases decides

theorem beginsWith_leading_iff {texts : String → String} (first : leading ≠ []) {tail : List String}
    (last : tail ≠ []) (plainTexts : ∀ given ∈ leading, Key.Plain (texts given.1))
    (plainValues : ∀ given ∈ leading, Key.Plain given.2.keyText) :
    RangeOperator.beginsWith.holds
        (Key.joined (leading.map (fun given => Key.segment given.1 (texts given.1)) ++ tail))
        (Key.joined (leading.map fun given => Key.segment given.1 given.2.keyText) ++ Key.separator) =
          true ↔
      ∀ given ∈ leading, texts given.1 = given.2.keyText := by
  -- The key with a separator behind it is a key on one more segment, which is empty.
  have longer : Key.joined (leading.map fun given => Key.segment given.1 given.2.keyText) ++
      Key.separator =
      Key.joined (leading.map (fun given => Key.segment given.1 given.2.keyText) ++ [""]) := by
    have alone : Key.joined [""] = "" := String.intercalate_singleton
    rw [Key.joined_append (by simpa using first) (by simp), alone, String.append_empty]
  have empty (text : String) : RangeOperator.beginsWith.holds text (Key.joined [""]) = true := rfl
  rw [longer, holds_leading_iff _ plainTexts plainValues last (by simp), empty]
  simp [not_strays_beginsWith plainTexts plainValues]

theorem selects_iff (exact : ExactOn sortFields leading rest filter) (typeName : String)
    {record : Fields} (present : ∀ name ∈ sortFields, (record.present? name).isSome = true)
    (plainRecord : ∀ given ∈ leading, Key.Plain (Key.rendered record given.1))
    (plainValues : ∀ given ∈ leading, Key.Plain given.2.keyText) :
    (∀ wanted, condition typeName leading rest = some wanted →
        wanted.holds (Key.sort typeName sortFields record) = true) ↔
      ∀ given ∈ leading, Key.rendered record given.1 = given.2.keyText := by
  by_cases first : leading = []
  · subst first
    by_cases last : rest = []
    · subst last
      simp [condition, exact.split, Key.sort, SortCondition.holds]
    · simp [condition, last]
  · have some : sortFields ≠ [] := by simp [exact.split, first]
    have whole : Key.sort typeName sortFields record = Key.joined
        (leading.map (fun given => Key.segment given.1 (Key.rendered record given.1)) ++
          rest.map fun name => Key.segment name (Key.rendered record name)) := by
      rw [Key.sort_of_present some present, exact.split, List.map_append, List.map_map]
      rfl
    rw [whole]
    by_cases last : rest = []
    · subst last
      simp only [condition, first, if_false, if_true, Option.some.injEq, forall_eq', SortCondition.holds,
        beq_iff_eq, List.map_nil, List.append_nil]
      exact Key.joined_segments_inj plainRecord plainValues
    · simp only [condition, first, last, if_false, Option.some.injEq, forall_eq', SortCondition.holds]
      exact beginsWith_leading_iff first (by simpa using last) plainRecord plainValues

end ExactOn

end SharedTable
