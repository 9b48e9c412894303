import SharedTable.Proofs.Condition.Exact
import SharedTable.Proofs.Maps

set_option autoImplicit false

namespace SharedTable

namespace SortFilter

section FieldLists

variable {sortFields rest : List String} {operands given : List (String × Operand)}
  {operator : Option RangeOperator}

theorem ends_none_iff : Ends given none ↔ ∃ leading, given = exactly leading := by
  constructor
  · intro ends
    generalize ended : (none : Option RangeOperator) = operator at ends
    induction ends with
    | nil => exact ⟨[], rfl⟩
    | range => cases ended
    | exact field value _ ih =>
      obtain ⟨leading, rfl⟩ := ih ended
      exact ⟨(field, value) :: leading, rfl⟩
  · rintro ⟨leading, rfl⟩
    exact ends_exactly leading

theorem ends_some_iff {symbol : RangeOperator} :
    Ends given (some symbol) ↔
      ∃ leading field bound, given = exactThenRange leading field symbol bound := by
  constructor
  · intro ends
    generalize ended : some symbol = operator at ends
    induction ends with
    | nil => cases ended
    | range field _ value =>
      cases ended
      exact ⟨[], field, value, rfl⟩
    | exact field value _ ih =>
      obtain ⟨leading, last, bound, rfl⟩ := ih ended
      exact ⟨(field, value) :: leading, last, bound, rfl⟩
  · rintro ⟨leading, field, bound, rfl⟩
    exact ends_exactThenRange leading field symbol bound

theorem WellNamed.distinct (named : WellNamed sortFields operands) :
    ((operands.filter fun held => held.2.isGiven).map Prod.fst).Nodup := by
  rw [List.Nodup, List.pairwise_map, List.pairwise_filter]
  exact named.once.imp fun apart asks _ => apart asks

theorem Gives.perm (named : WellNamed sortFields operands) (distinct : sortFields.Nodup)
    (gives : Gives sortFields operands given operator rest) :
    (operands.filter fun held => held.2.isGiven).Perm given := by
  have split := gives.split
  rw [split] at distinct
  refine (List.perm_ext_iff_of_nodup named.distinct.of_map
    (List.nodup_append.mp distinct).1.of_map).mpr ?_
  rintro ⟨field, operand⟩
  constructor
  · intro asked
    obtain ⟨member, asks⟩ := List.mem_filter.mp asked
    have held := given?_of_mem named.distinct member asks
    rcases List.mem_append.mp (split ▸ named.declared _ member) with leads | free
    · obtain ⟨⟨_, other⟩, inGiven, rfl⟩ := List.mem_map.mp leads
      have same := (gives.asked _ inGiven).symm.trans held
      cases same
      exact inGiven
    · rw [gives.free field free] at held
      cases held
  · intro inGiven
    obtain ⟨⟨name, _⟩, found, rfl⟩ := Option.map_eq_some_iff.mp (gives.asked _ inGiven)
    have here := List.find?_some found
    simp only [Bool.and_eq_true, beq_iff_eq] at here
    obtain ⟨rfl, asks⟩ := here
    exact List.mem_filter.mpr ⟨List.mem_of_find?_eq_some found, asks⟩

theorem wellNamed_of_distinct (declared : ∀ held ∈ operands, held.1 ∈ sortFields)
    (distinct : (operands.map Prod.fst).Nodup) : WellNamed sortFields operands where
  declared := declared
  once := by
    refine (List.pairwise_map.mp distinct).imp ?_
    intro earlier later apart _
    exact apart

end FieldLists

section Bounds

variable {sortFields : List String} {bound : Fields}

theorem compileBound_checks {typeName key : String} (some : sortFields ≠ []) :
    compileBound typeName sortFields bound = .ok key ↔
      (∀ field ∈ bound.keys, field ∈ sortFields) ∧ (∀ value ∈ bound.values, value.isObject = false) ∧
      (∀ field ∈ sortFields.dropWhile fun field => (bound.present? field).isSome,
        bound.present? field = none) ∧
      (sortFields.takeWhile fun field => (bound.present? field).isSome) ≠ [] ∧
      Key.sort typeName (sortFields.takeWhile fun field => (bound.present? field).isSome) bound = key := by
  rw [compileBound]
  cases foreign : bound.keys.find? fun field => !sortFields.contains field with
  | some field =>
    have member := List.mem_of_find?_eq_some foreign
    have undeclared := List.find?_some foreign
    simp only [List.contains_eq_mem, Bool.not_eq_true', decide_eq_false_iff_not] at undeclared
    exact iff_of_false (by simp [bind_eq_ok_iff]) fun checks => undeclared (checks.1 field member)
  | none =>
    have declared : ∀ field ∈ bound.keys, field ∈ sortFields := by
      simpa [List.find?_eq_none] using foreign
    by_cases object : bound.values.any Value.isObject = true
    · obtain ⟨value, member, isObject⟩ := List.any_eq_true.mp object
      refine iff_of_false (by simp [bind_eq_ok_iff, object]) fun checks => ?_
      rw [checks.2.1 value member] at isObject
      cases isObject
    · have plain : ∀ value ∈ bound.values, value.isObject = false := by
        simpa using object
      simp only [object, Bool.false_eq_true, if_false]
      cases stray : (sortFields.dropWhile fun field => (bound.present? field).isSome).find?
          fun field => (bound.present? field).isSome with
      | some field =>
        have member := List.mem_of_find?_eq_some stray
        have given := List.find?_some stray
        refine iff_of_false ?_ fun checks => by simp [checks.2.2.1 field member] at given
        cases behind : sortFields.dropWhile fun field => (bound.present? field).isSome with
        | nil => simp [behind] at member
        | cons first later => simp [bind_eq_ok_iff]
      | none =>
        have free : ∀ field ∈ sortFields.dropWhile fun field => (bound.present? field).isSome,
            bound.present? field = none := by
          simpa [List.find?_eq_none] using stray
        obtain ⟨first, later, rfl⟩ := List.exists_cons_of_ne_nil some
        cases (first :: later).takeWhile fun field => (bound.present? field).isSome with
        | nil => simp
        | cons front more =>
          refine ⟨fun same => ⟨declared, plain, free, nofun, ?_⟩, fun checks => ?_⟩
          · simpa using same
          · simpa using checks.2.2.2.2

/--
One end of a range gives plain values to the first few sort fields, at least to one. Of the others it
may only say `null`.
-/
structure Bounds (sortFields : List String) (leading : List (String × Value)) (bound : Fields) :
    Prop where
  leads : leading.map Prod.fst <+: sortFields
  gives : ∀ (field : String) (value : Value), bound.present? field = some value ↔ (field, value) ∈ leading
  first : leading ≠ []
  declared : ∀ field ∈ bound, field ∈ sortFields
  plain : ∀ (field : String) (value : Value), bound[field]? = some value → value.isObject = false

theorem bounds_cut {leading : List (String × Value)} {rest : List String}
    (split : sortFields = leading.map Prod.fst ++ rest) (distinct : sortFields.Nodup)
    (gives : ∀ field value, bound.present? field = some value ↔ (field, value) ∈ leading) :
    (sortFields.takeWhile fun field => (bound.present? field).isSome) = leading.map Prod.fst ∧
      (sortFields.dropWhile fun field => (bound.present? field).isSome) = rest ∧
      ∀ field ∈ rest, bound.present? field = none := by
  have given : ∀ field ∈ leading.map Prod.fst, (bound.present? field).isSome = true := by
    intro field member
    obtain ⟨⟨_, value⟩, inLeading, rfl⟩ := List.mem_map.mp member
    exact Option.isSome_iff_exists.mpr ⟨value, (gives _ value).mpr inLeading⟩
  have free : ∀ field ∈ rest, bound.present? field = none := by
    intro field member
    apply Option.eq_none_iff_forall_ne_some.mpr
    intro value present
    have leads := List.mem_map_of_mem (f := Prod.fst) ((gives field value).mp present)
    exact (List.nodup_append.mp (split ▸ distinct)).2.2 field leads field member rfl
  subst split
  rw [List.takeWhile_append_of_pos given, List.dropWhile_append_of_pos given]
  cases rest with
  | nil => simp
  | cons first later => simpa [free first List.mem_cons_self] using free

theorem forall_values_iff {holds : Value → Prop} :
    (∀ value ∈ bound.values, holds value) ↔
      ∀ (field : String) (value : Value), bound[field]? = some value → holds value := by
  simp only [values_eq_map_toList, List.mem_map, Prod.exists, exists_eq_right,
    Std.ExtTreeMap.mem_toList_iff_getElem?_eq_some, forall_exists_index]
  exact forall_comm

theorem sort_leading {leading : List (String × Value)} (first : leading ≠ [])
    (gives : ∀ field value, bound.present? field = some value ↔ (field, value) ∈ leading)
    (typeName : String) :
    Key.sort typeName (leading.map Prod.fst) bound =
      Key.joined (leading.map fun given => Key.segment given.1 given.2.keyText) := by
  rw [Key.sort_of_present (by simpa using first), List.map_map]
  · congr 1
    apply List.map_congr_left
    intro given member
    rw [Function.comp_apply, Key.rendered_of_present ((gives _ _).mpr member)]
  · intro field member
    obtain ⟨given, inLeading, rfl⟩ := List.mem_map.mp member
    rw [(gives given.1 given.2).mpr inLeading]
    rfl

-- What is given is given to the leading fields, as no field behind them is given a value.
theorem gives_leading (declared : ∀ field ∈ bound.keys, field ∈ sortFields)
    (free : ∀ field ∈ sortFields.dropWhile fun field => (bound.present? field).isSome,
      bound.present? field = none) (field : String) (value : Value) :
    bound.present? field = some value ↔
      (field, value) ∈ (sortFields.takeWhile fun field => (bound.present? field).isSome).map
        fun field => (field, (bound.present? field).getD .null) := by
  simp only [List.mem_map, Prod.mk.injEq]
  constructor
  · intro present
    have held := Std.ExtTreeMap.mem_iff_isSome_getElem?.mpr
      (Option.isSome_of_eq_some (Fields.present?_eq_some_iff.mp present).1)
    have member := declared field (Std.ExtTreeMap.mem_keys.mpr held)
    rw [← @List.takeWhile_append_dropWhile _ (fun field => (bound.present? field).isSome) sortFields,
      List.mem_append] at member
    rcases member with member | member
    · exact ⟨field, member, rfl, by rw [present]; rfl⟩
    · rw [free field member] at present
      cases present
  · rintro ⟨_, member, rfl, rfl⟩
    have given := @List.mem_takeWhile_imp _ (fun field => (bound.present? field).isSome) _ _ member
    obtain ⟨value, present⟩ := Option.isSome_iff_exists.mp given
    rw [present]
    rfl

theorem compileBound_eq_ok_iff {typeName key : String} (some : sortFields ≠ [])
    (distinct : sortFields.Nodup) :
    compileBound typeName sortFields bound = .ok key ↔
      ∃ leading, Bounds sortFields leading bound ∧
        key = Key.joined (leading.map fun given => Key.segment given.1 given.2.keyText) := by
  rw [compileBound_checks some, forall_values_iff]
  constructor
  · rintro ⟨declared, plain, free, first, rfl⟩
    have gives := gives_leading declared free
    have split := @List.takeWhile_append_dropWhile _ (fun field => (bound.present? field).isSome) sortFields
    generalize (sortFields.takeWhile fun field => (bound.present? field).isSome) = names
      at first gives split ⊢
    have fields : (names.map fun field => (field, (bound.present? field).getD .null)).map Prod.fst =
        names := by
      simp [Function.comp_def]
    refine ⟨names.map fun field => (field, (bound.present? field).getD .null),
      ⟨fields.symm ▸ ⟨_, split⟩, gives, by simpa using first, ?_, plain⟩, ?_⟩
    · exact fun field member => declared field (Std.ExtTreeMap.mem_keys.mpr member)
    · rw [← sort_leading (by simpa using first) gives typeName, fields]
  · rintro ⟨leading, ⟨⟨rest, split⟩, gives, first, declared, plain⟩, rfl⟩
    obtain ⟨front, back, free⟩ := bounds_cut split.symm distinct gives
    rw [front, back, sort_leading first gives]
    exact ⟨fun field member => declared field (Std.ExtTreeMap.mem_keys.mp member), plain, free,
      by simpa using first, rfl⟩

theorem compile_between (some : sortFields ≠ []) (typeName : String) (lower upper : Fields) :
    (SortFilter.between lower upper).compile typeName sortFields = (do
      let low ← compileBound typeName sortFields lower
      let high ← compileBound typeName sortFields upper
      return Option.some (.between low high)) :=
  if_neg (by simpa using some)

end Bounds

def keyOf (given : List (String × Value)) : String :=
  Key.joined (given.map fun held => Key.segment held.1 held.2.keyText)

/--
The filters that compile for a list of declared fields, with their conditions. A list of operands gives
the first few of the fields, in any order; `null` gives nothing.
-/
inductive Compiles (typeName : String) : List String → SortFilter → Option SortCondition → Prop where
  | undeclared : Compiles typeName [] .unbounded (some (.equals typeName))
  | undeclaredFields : Compiles typeName [] (.fields []) (some (.equals typeName))
  | unbounded (first : String) (rest : List String) : Compiles typeName (first :: rest) .unbounded none
  | nothing (first : String) (rest : List String) {operands : List (String × Operand)}
      (named : WellNamed (first :: rest) operands)
      (silent : ∀ held ∈ operands, held.2.isGiven = false) :
      Compiles typeName (first :: rest) (.fields operands) none
  | whole (given : String × Value) (more : List (String × Value)) {operands : List (String × Operand)}
      (named : WellNamed ((given :: more).map Prod.fst) operands)
      (asked : (operands.filter fun held => held.2.isGiven).Perm (exactly (given :: more))) :
      Compiles typeName ((given :: more).map Prod.fst) (.fields operands)
        (some (.equals (keyOf (given :: more))))
  | part (given : String × Value) (more : List (String × Value)) (next : String) (rest : List String)
      {operands : List (String × Operand)}
      (named : WellNamed ((given :: more).map Prod.fst ++ next :: rest) operands)
      (asked : (operands.filter fun held => held.2.isGiven).Perm (exactly (given :: more))) :
      Compiles typeName ((given :: more).map Prod.fst ++ next :: rest) (.fields operands)
        (some (.compares .beginsWith (keyOf (given :: more) ++ Key.separator)))
  | range (leading : List (String × Value)) (field : String) (operator : RangeOperator) (bound : Value)
      (rest : List String) {operands : List (String × Operand)}
      (named : WellNamed (leading.map Prod.fst ++ field :: rest) operands)
      (asked : (operands.filter fun held => held.2.isGiven).Perm
        (exactThenRange leading field operator bound)) :
      Compiles typeName (leading.map Prod.fst ++ field :: rest) (.fields operands)
        (some (.compares operator (keyOf (leading ++ [(field, bound)]))))
  | between {sortFields : List String} {low high : List (String × Value)} {lower upper : Fields}
      (lowers : Bounds sortFields low lower) (uppers : Bounds sortFields high upper) :
      Compiles typeName sortFields (.between lower upper) (some (.between (keyOf low) (keyOf high)))

section Grammar

variable {sortFields : List String} {operands : List (String × Operand)} {filter : SortFilter}
  {condition : Option SortCondition} {typeName : String}

theorem compiles_of_gives (some : sortFields ≠ []) (distinct : sortFields.Nodup)
    (named : WellNamed sortFields operands) {given : List (String × Operand)}
    {operator : Option RangeOperator} {rest : List String}
    (gives : Gives sortFields operands given operator rest) :
    Compiles typeName sortFields (.fields operands) (conditionOf given operator rest) := by
  have asked := gives.perm named distinct
  have split := gives.split
  cases operator with
  | none =>
    obtain ⟨leading, rfl⟩ := ends_none_iff.mp gives.ends
    have names : (exactly leading).map Prod.fst = leading.map Prod.fst := by
      simp [exactly, Function.comp_def]
    rw [names] at split
    subst split
    cases leading with
    | nil =>
      obtain ⟨first, later, rfl⟩ := List.exists_cons_of_ne_nil some
      refine .nothing first later named fun held member => ?_
      simpa using List.filter_eq_nil_iff.mp asked.eq_nil held member
    | cons first more =>
      rw [conditionOf, if_neg (by simp [exactly]), spelled_exactly]
      cases rest with
      | nil =>
        rw [List.append_nil] at named ⊢
        exact .whole first more named asked
      | cons next rest => exact .part first more next rest named asked
  | some symbol =>
    obtain ⟨leading, field, bound, rfl⟩ := ends_some_iff.mp gives.ends
    have names : (exactThenRange leading field symbol bound).map Prod.fst ++ rest =
        leading.map Prod.fst ++ field :: rest := by
      simp [exactThenRange, Function.comp_def]
    rw [names] at split
    subst split
    rw [conditionOf, if_neg (by simp [exactThenRange]), spelled_exactThenRange]
    simpa [keyOf] using Compiles.range leading field symbol bound rest named asked

theorem Compiles.compile_eq (compiles : Compiles typeName sortFields filter condition)
    (distinct : sortFields.Nodup) : filter.compile typeName sortFields = .ok condition := by
  cases compiles with
  | undeclared => rfl
  | undeclaredFields => rfl
  | unbounded first rest => rfl
  | @nothing first rest operands named silent =>
    have none : operands.filter (fun held => held.2.isGiven) = [] := by
      simpa [List.filter_eq_nil_iff] using silent
    have exact : ExactOn (first :: rest) [] (first :: rest) (.fields operands) :=
      ⟨rfl, .inr ⟨operands, rfl, named, none ▸ .nil⟩⟩
    exact exact.compile_eq distinct typeName
  | @whole given more operands named asked =>
    have exact : ExactOn ((given :: more).map Prod.fst) (given :: more) [] (.fields operands) :=
      ⟨(List.append_nil _).symm, .inr ⟨operands, rfl, named, asked⟩⟩
    exact exact.compile_eq distinct typeName
  | @part given more next rest operands named asked =>
    have exact : ExactOn ((given :: more).map Prod.fst ++ next :: rest) (given :: more) (next :: rest)
        (.fields operands) := ⟨rfl, .inr ⟨operands, rfl, named, asked⟩⟩
    exact exact.compile_eq distinct typeName
  | @range leading field operator bound rest operands named asked =>
    have gives : Gives (leading.map Prod.fst ++ field :: rest) operands
        (exactThenRange leading field operator bound) (some operator) rest := by
      refine gives_of_perm distinct ?_ asked (ends_exactThenRange ..)
      simp [exactThenRange, Function.comp_def]
    rw [compile_fields (by simp), compileFields_of_gives distinct named gives, conditionOf,
      if_neg (by simp [exactThenRange]), spelled_exactThenRange, keyOf, List.map_append]
    rfl
  | @between _ low high lower upper lowers uppers =>
    have some : sortFields ≠ [] := by
      rintro rfl
      exact lowers.first (List.map_eq_nil_iff.mp (List.prefix_nil.mp lowers.leads))
    rw [compile_between some]
    refine bind_eq_ok_iff.mpr ⟨_, (compileBound_eq_ok_iff some distinct).mpr ⟨low, lowers, rfl⟩, ?_⟩
    exact bind_eq_ok_iff.mpr ⟨_, (compileBound_eq_ok_iff some distinct).mpr ⟨high, uppers, rfl⟩, rfl⟩

theorem compiles_of_compile_eq (distinct : sortFields.Nodup)
    (compiled : filter.compile typeName sortFields = .ok condition) :
    Compiles typeName sortFields filter condition := by
  cases sortFields with
  | nil =>
    cases filter with
    | unbounded =>
      cases compiled
      exact .undeclared
    | fields operands =>
      cases operands with
      | nil =>
        cases compiled
        exact .undeclaredFields
      | cons first more => cases compiled
    | between lower upper => cases compiled
  | cons first rest =>
    have some : first :: rest ≠ [] := List.cons_ne_nil first rest
    cases filter with
    | unbounded =>
      cases compiled
      exact .unbounded first rest
    | fields operands =>
      rw [compile_fields some] at compiled
      obtain ⟨named, given, operator, free, gives, rfl⟩ := (compileFields_eq_ok_iff distinct).mp compiled
      exact compiles_of_gives some distinct named gives
    | between lower upper =>
      rw [compile_between some] at compiled
      obtain ⟨_, lowest, compiled⟩ := bind_eq_ok_iff.mp compiled
      obtain ⟨_, highest, compiled⟩ := bind_eq_ok_iff.mp compiled
      obtain ⟨low, lowers, rfl⟩ := (compileBound_eq_ok_iff some distinct).mp lowest
      obtain ⟨high, uppers, rfl⟩ := (compileBound_eq_ok_iff some distinct).mp highest
      cases compiled
      exact .between lowers uppers

theorem WellNamed.perm {shuffled : List (String × Operand)} (named : WellNamed sortFields operands)
    (same : operands.Perm shuffled) (apart : (operands.map Prod.fst).Nodup) :
    WellNamed sortFields shuffled :=
  wellNamed_of_distinct (fun held member => named.declared held (same.mem_iff.mpr member))
    ((same.map Prod.fst).nodup_iff.mp apart)

theorem Compiles.perm {shuffled : List (String × Operand)}
    (compiles : Compiles typeName sortFields (.fields operands) condition)
    (same : operands.Perm shuffled) (apart : (operands.map Prod.fst).Nodup) :
    Compiles typeName sortFields (.fields shuffled) condition := by
  have asked := (same.filter fun held => held.2.isGiven).symm
  cases compiles with
  | undeclaredFields =>
    cases same.nil_eq
    exact .undeclaredFields
  | nothing first rest named silent =>
    exact .nothing first rest (named.perm same apart)
      fun held member => silent held (same.mem_iff.mpr member)
  | whole given more named leads => exact .whole given more (named.perm same apart) (asked.trans leads)
  | part given more next rest named leads =>
    exact .part given more next rest (named.perm same apart) (asked.trans leads)
  | range leading field operator bound rest named leads =>
    exact .range leading field operator bound rest (named.perm same apart) (asked.trans leads)

/--
The filters that compile are those of the grammar, each to its condition, and operands on different
fields may be given in any order.
-/
theorem compile_eq_ok_iff_compiles (typeName : String) {sortFields : List String}
    (distinct : sortFields.Nodup) :
    (∀ filter condition, filter.compile typeName sortFields = .ok condition ↔
      Compiles typeName sortFields filter condition) ∧
    ∀ operands shuffled : List (String × Operand), operands.Perm shuffled →
      (operands.map Prod.fst).Nodup → ∀ condition,
        (SortFilter.fields operands).compile typeName sortFields = .ok condition ↔
          (SortFilter.fields shuffled).compile typeName sortFields = .ok condition := by
  have grammar (filter : SortFilter) (condition : Option SortCondition) :
      filter.compile typeName sortFields = .ok condition ↔
        Compiles typeName sortFields filter condition :=
    ⟨compiles_of_compile_eq distinct, fun compiles => compiles.compile_eq distinct⟩
  refine ⟨grammar, fun operands shuffled same apart condition => ?_⟩
  rw [grammar, grammar]
  constructor
  · intro compiles
    exact compiles.perm same apart
  · intro compiles
    exact compiles.perm same.symm ((same.map Prod.fst).nodup_iff.mp apart)

theorem recent_active_compiles :
    ["status", "updatedAt"].Nodup ∧
      (SortFilter.fields [("updatedAt", .range .gte (.ofNat 1000)),
        ("status", .exact (.string "active"))]).compile "Task" ["status", "updatedAt"] =
          .ok (some (.compares .gte "status#active#updatedAt#0000000000001000")) ∧
      Compiles "Task" ["status", "updatedAt"] (.fields [("status", .exact (.string "active"))])
        (some (.compares .beginsWith "status#active#")) := by
  have distinct : ["status", "updatedAt"].Nodup := by decide
  have compiles := (compile_eq_ok_iff_compiles "Task" distinct).1
  refine ⟨distinct, (compiles _ _).mpr ?_, (compiles _ _).mp rfl⟩
  exact .range [("status", .string "active")] "updatedAt" .gte (.ofNat 1000) []
    ⟨by decide, by decide⟩ (.swap ..)

end Grammar

end SortFilter

end SharedTable
