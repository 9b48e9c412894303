import Mathlib.Data.List.TakeWhile
import SharedTable.Condition.Key
import SharedTable.Proofs.Condition.Places

set_option autoImplicit false

namespace SharedTable.SortFilter

inductive Ends : List (String × Operand) → Option RangeOperator → Prop where
  | nil : Ends [] none
  | range (field : String) (operator : RangeOperator) (value : Value) :
      Ends [(field, .range operator value)] (some operator)
  | exact (field : String) (value : Value) {rest : List (String × Operand)}
      {operator : Option RangeOperator} (ends : Ends rest operator) :
      Ends ((field, .exact value) :: rest) operator

def filled (given : List (String × Operand)) : Places := given.map fun held => (held.1, some held.2)

def spelled (given : List (String × Operand)) : List String :=
  given.map fun held => Key.segment held.1 held.2.value.keyText

theorem cons_eq_filled_iff {field : String} {held : Option Operand} {rest : Places}
    {given : List (String × Operand)} :
    (field, held) :: rest = filled given ↔
      ∃ operand later, held = some operand ∧ rest = filled later ∧ given = (field, operand) :: later := by
  rcases given with _ | ⟨⟨name, operand⟩, later⟩
  · simp [filled]
  · simp only [filled, List.map_cons, List.cons.injEq, Prod.mk.injEq]
    constructor
    · rintro ⟨⟨rfl, rfl⟩, rfl⟩
      exact ⟨operand, later, rfl, rfl, ⟨rfl, rfl⟩, rfl⟩
    · rintro ⟨_, _, rfl, rfl, ⟨rfl, rfl⟩, rfl⟩
      exact ⟨⟨rfl, rfl⟩, rfl⟩

theorem segments_eq_ok_iff {last : String} {places : Places} {texts : List String}
    {operator : Option RangeOperator} :
    segments last places = .ok (texts, operator) ↔
      ∃ given, places = filled given ∧ Ends given operator ∧ texts = spelled given := by
  -- One case for each thing that a place can hold; a range may only hold the last one.
  induction places generalizing texts with
  | nil =>
    simp only [segments, pure_eq_ok_iff, Prod.mk.injEq]
    constructor
    · rintro ⟨rfl, rfl⟩
      exact ⟨[], rfl, .nil, rfl⟩
    · rintro ⟨given, free, ends, rfl⟩
      cases List.map_eq_nil_iff.mp free.symm
      cases ends
      exact ⟨rfl, rfl⟩
  | cons place rest ih =>
    obtain ⟨field, held⟩ := place
    simp only [cons_eq_filled_iff]
    rcases held with _ | value | ⟨symbol, value⟩
    · simp [segments]
    · rw [segments, bind_eq_ok_iff]
      constructor
      · rintro ⟨⟨more, ending⟩, done, same⟩
        cases same
        obtain ⟨given, rfl, ends, rfl⟩ := ih.mp done
        exact ⟨_, ⟨_, given, rfl, rfl, rfl⟩, .exact field value ends, rfl⟩
      · rintro ⟨_, ⟨_, given, same, rfl, rfl⟩, ends, rfl⟩
        cases same
        cases ends with
        | exact _ _ ends => exact ⟨_, ih.mpr ⟨given, rfl, ends, rfl⟩, rfl⟩
    · cases rest with
      | nil =>
        simp only [segments, List.isEmpty_nil, if_true, pure_eq_ok_iff, Prod.mk.injEq]
        constructor
        · rintro ⟨rfl, rfl⟩
          exact ⟨_, ⟨_, [], rfl, rfl, rfl⟩, .range field symbol value, rfl⟩
        · rintro ⟨_, ⟨_, given, same, free, rfl⟩, ends, rfl⟩
          cases same
          cases List.map_eq_nil_iff.mp free.symm
          cases ends
          exact ⟨rfl, rfl⟩
      | cons next rest =>
        simp only [segments, List.isEmpty_cons, Bool.false_eq_true, if_false, throw_eq_ok_iff,
          false_iff]
        rintro ⟨_, ⟨_, given, same, more, rfl⟩, ends, rfl⟩
        cases same
        cases ends
        cases more

theorem taken_filled_append (given : List (String × Operand)) {free : Places}
    (none : ∀ place ∈ free, place.2 = none) : taken (filled given ++ free) = filled given := by
  have all : ∀ place ∈ free.reverse, place.2.isNone = true := by
    intro place member
    rw [none place (List.mem_reverse.mp member)]
    rfl
  rw [taken, List.reverse_append, List.dropWhile_append_of_pos all]
  cases cut : (filled given).reverse with
  | nil =>
    rw [List.dropWhile_nil, ← cut, List.reverse_reverse]
  | cons place rest =>
    have member : place ∈ filled given := List.mem_reverse.mp (cut ▸ List.mem_cons_self)
    obtain ⟨held, _, rfl⟩ := List.mem_map.mp member
    rw [List.dropWhile_cons_of_neg (by simp), ← cut, List.reverse_reverse]

theorem taken_append (places : Places) :
    ∃ free, places = taken places ++ free ∧ ∀ place ∈ free, place.2 = none := by
  refine ⟨(places.reverse.takeWhile fun held => held.2.isNone).reverse, ?_, ?_⟩
  · rw [taken, ← List.reverse_append, List.takeWhile_append_dropWhile, List.reverse_reverse]
  · intro place member
    have free := List.mem_takeWhile_imp (List.mem_reverse.mp member)
    exact Option.isNone_iff_eq_none.mp free

/--
The operands given for the first few declared fields, of which only the last may be a range; the rest
of the fields are free.
-/
structure Gives (sortFields : List String) (operands : List (String × Operand))
    (given : List (String × Operand)) (operator : Option RangeOperator) (rest : List String) :
    Prop where
  split : sortFields = given.map Prod.fst ++ rest
  asked : ∀ held ∈ given, given? operands held.1 = some held.2
  free : ∀ field ∈ rest, given? operands field = none
  ends : Ends given operator

theorem gives_of_perm {sortFields : List String} (distinct : sortFields.Nodup)
    {operands given : List (String × Operand)} {operator : Option RangeOperator} {rest : List String}
    (split : sortFields = given.map Prod.fst ++ rest)
    (asked : (operands.filter fun held => held.2.isGiven).Perm given) (ends : Ends given operator) :
    Gives sortFields operands given operator rest where
  split := split
  asked := by
    intro held member
    have apart : ((operands.filter fun held => held.2.isGiven).map Prod.fst).Nodup :=
      (asked.map Prod.fst).nodup_iff.mpr (List.nodup_append.mp (split ▸ distinct)).1
    obtain ⟨named, asks⟩ := List.mem_filter.mp (asked.mem_iff.mpr member)
    exact given?_of_mem apart named asks
  free := by
    intro field member
    apply given?_eq_none_iff.mpr
    intro operand named
    rw [← Bool.not_eq_true]
    intro asks
    have held := asked.mem_iff.mp (List.mem_filter.mpr ⟨named, asks⟩)
    exact (List.nodup_append.mp (split ▸ distinct)).2.2 field (List.mem_map_of_mem held) field member
      rfl
  ends := ends

def conditionOf (given : List (String × Operand)) (operator : Option RangeOperator)
    (rest : List String) : Option SortCondition :=
  if given = [] then none
  else match operator with
    | some operator => some (.compares operator (Key.joined (spelled given)))
    | none =>
      if rest = [] then some (.equals (Key.joined (spelled given)))
      else some (.compares .beginsWith (Key.joined (spelled given) ++ Key.separator))

theorem placesOf_eq_filled {sortFields : List String} {operands given : List (String × Operand)}
    {operator : Option RangeOperator} {rest : List String}
    (gives : Gives sortFields operands given operator rest) :
    placesOf sortFields (given? operands) =
      filled given ++ rest.map fun field => (field, none) := by
  rw [gives.split, placesOf, List.map_append, List.map_map]
  congr 1
  · apply List.map_congr_left
    intro held member
    rw [Function.comp_apply, gives.asked held member]
  · apply List.map_congr_left
    intro field member
    rw [gives.free field member]

theorem gives_of_cut {sortFields : List String} {operands given : List (String × Operand)}
    {operator : Option RangeOperator} {free : Places}
    (cut : placesOf sortFields (given? operands) = filled given ++ free)
    (none : ∀ place ∈ free, place.2 = none) (ends : Ends given operator) :
    Gives sortFields operands given operator (free.map Prod.fst) := by
  have placed {place : String × Option Operand} (member : place ∈ filled given ++ free) :
      given? operands place.1 = place.2 := by
    rw [← cut] at member
    obtain ⟨field, _, rfl⟩ := List.mem_map.mp member
    rfl
  refine ⟨?_, ?_, ?_, ends⟩
  · have names := congrArg (List.map Prod.fst) cut
    simpa [placesOf, filled, Function.comp_def] using names
  · intro held member
    exact placed (List.mem_append_left _ (List.mem_map_of_mem member))
  · intro field member
    obtain ⟨place, inFree, rfl⟩ := List.mem_map.mp member
    rw [placed (List.mem_append_right _ inFree), none place inFree]

theorem place_all_iff {sortFields : List String} (distinct : sortFields.Nodup)
    {operands : List (String × Operand)} {places : Places} :
    operands.foldlM place (sortFields.map fun field => (field, none)) = .ok places ↔
      WellNamed sortFields operands ∧ places = placesOf sortFields (given? operands) := by
  have all := foldlM_place_eq_ok_iff distinct (fun _ => none) operands places
  change operands.foldlM place (placesOf sortFields fun _ => none) = _ ↔ _
  simpa using all

theorem compileFields_of_gives {sortFields : List String} (distinct : sortFields.Nodup)
    {operands given : List (String × Operand)} {operator : Option RangeOperator} {rest : List String}
    (named : WellNamed sortFields operands) (gives : Gives sortFields operands given operator rest) :
    compileFields sortFields operands = .ok (conditionOf given operator rest) := by
  have taken : taken (placesOf sortFields (given? operands)) = filled given := by
    rw [placesOf_eq_filled gives]
    exact taken_filled_append given (by simp)
  have whole : (filled given).length = sortFields.length ↔ rest = [] := by
    rw [gives.split, filled]
    simp
  refine bind_eq_ok_iff.mpr ⟨_, (place_all_iff distinct).mpr ⟨named, rfl⟩, ?_⟩
  simp only [taken]
  -- Without a last taken place nothing was asked.
  cases ended : (filled given).getLast? with
  | none =>
    cases List.map_eq_nil_iff.mp (List.getLast?_eq_none_iff.mp ended)
    rfl
  | some last =>
    have some : given ≠ [] := by
      rintro rfl
      cases ended
    refine bind_eq_ok_iff.mpr
      ⟨(spelled given, operator), segments_eq_ok_iff.mpr ⟨given, rfl, gives.ends, rfl⟩, ?_⟩
    simp only [conditionOf, some, whole, if_false]
    cases operator with
    | some operator => rfl
    | none =>
      by_cases last : rest = []
      · simp only [last, if_true]
        rfl
      · simp only [last, if_false]
        rfl

theorem compileFields_eq_ok_iff {sortFields : List String} (distinct : sortFields.Nodup)
    {operands : List (String × Operand)} {condition : Option SortCondition} :
    compileFields sortFields operands = .ok condition ↔
      WellNamed sortFields operands ∧ ∃ given operator rest,
        Gives sortFields operands given operator rest ∧
          condition = conditionOf given operator rest := by
  constructor
  · intro compiled
    have done := compiled
    simp only [compileFields, bind_eq_ok_iff, place_all_iff distinct] at done
    obtain ⟨_, ⟨named, rfl⟩, done⟩ := done
    obtain ⟨free, cut, none⟩ := taken_append (placesOf sortFields (given? operands))
    -- Segments can only be spelled where no taken place is free, which tells what was given.
    have given : ∃ given operator,
        taken (placesOf sortFields (given? operands)) = filled given ∧ Ends given operator := by
      cases ended : (taken (placesOf sortFields (given? operands))).getLast? with
      | none => exact ⟨[], Option.none, List.getLast?_eq_none_iff.mp ended, .nil⟩
      | some last =>
        rw [ended] at done
        obtain ⟨⟨texts, operator⟩, read, _⟩ := bind_eq_ok_iff.mp done
        obtain ⟨given, same, ends, _⟩ := segments_eq_ok_iff.mp read
        exact ⟨given, operator, same, ends⟩
    obtain ⟨given, operator, same, ends⟩ := given
    rw [same] at cut
    have gives := gives_of_cut cut none ends
    rw [compileFields_of_gives distinct named gives] at compiled
    exact ⟨named, given, operator, _, gives, (Except.ok.inj compiled).symm⟩
  · rintro ⟨named, given, operator, rest, gives, rfl⟩
    exact compileFields_of_gives distinct named gives

theorem compile_fields {sortFields : List String} (some : sortFields ≠ []) (typeName : String)
    (operands : List (String × Operand)) :
    (SortFilter.fields operands).compile typeName sortFields = compileFields sortFields operands :=
  if_neg (by simpa using some)

end SharedTable.SortFilter

namespace SharedTable.KeyCondition

theorem compile_eq_ok_iff {schema : Schema} {index : Option Index} {partition : Fields}
    {filter : SortFilter} {condition : KeyCondition} :
    compile schema index partition filter = .ok condition ↔
      ∃ sort, filter.compile schema.typeName ((index.map Index.key).getD schema.key).sort = .ok sort ∧
        condition = ofSlot (index.map Index.slot)
          (((index.map Index.key).getD schema.key).partitionKey schema.typeName partition) sort := by
  simp only [compile, bind_eq_ok_iff, pure_eq_ok_iff, @eq_comm _ condition]

end SharedTable.KeyCondition
