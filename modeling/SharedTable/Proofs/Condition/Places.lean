import Mathlib.Data.List.Nodup
import SharedTable.Condition.Sort
import SharedTable.Proofs.Except

/-!
Putting operands in the places of the declared sort fields. Where the declared fields are distinct,
every place ends up with the first operand that gives its field.
-/

set_option autoImplicit false

namespace SharedTable.SortFilter

def given? (operands : List (String × Operand)) (field : String) : Option Operand :=
  (operands.find? fun given => given.1 == field && given.2.isGiven).map Prod.snd

theorem given?_eq_none_iff {operands : List (String × Operand)} {field : String} :
    given? operands field = none ↔ ∀ operand, (field, operand) ∈ operands → operand.isGiven = false := by
  simp only [given?, Option.map_eq_none_iff, List.find?_eq_none, Bool.and_eq_true, beq_iff_eq,
    not_and, Bool.not_eq_true]
  constructor
  · intro silent operand member
    exact silent _ member rfl
  · rintro silent ⟨name, operand⟩ member rfl
    exact silent operand member

theorem given?_of_mem {operands : List (String × Operand)}
    (distinct : ((operands.filter fun given => given.2.isGiven).map Prod.fst).Nodup) {field : String}
    {operand : Operand} (member : (field, operand) ∈ operands) (asks : operand.isGiven = true) :
    given? operands field = some operand := by
  cases found : given? operands field with
  | none => exact absurd asks (by simp [given?_eq_none_iff.mp found operand member])
  | some other =>
    obtain ⟨⟨name, _⟩, first, rfl⟩ := Option.map_eq_some_iff.mp found
    have here := List.find?_some first
    simp only [Bool.and_eq_true, beq_iff_eq] at here
    obtain ⟨rfl, given⟩ := here
    -- Two operands that ask something of one field are the same, since no field is asked twice.
    have both := List.inj_on_of_nodup_map distinct
      (List.mem_filter.mpr ⟨List.mem_of_find?_eq_some first, given⟩)
      (List.mem_filter.mpr ⟨member, asks⟩) rfl
    cases both
    rfl

/-- Every named field is declared, and none is named again after something was asked of it. -/
structure WellNamed (sortFields : List String) (operands : List (String × Operand)) : Prop where
  declared : ∀ given ∈ operands, given.1 ∈ sortFields
  once : operands.Pairwise fun earlier later => earlier.2.isGiven = true → earlier.1 ≠ later.1

def placesOf (sortFields : List String) (held : String → Option Operand) : Places :=
  sortFields.map fun field => (field, held field)

def hold (held : String → Option Operand) (given : String × Operand) (field : String) :
    Option Operand :=
  if field = given.1 ∧ given.2.isGiven = true then some given.2 else held field

theorem hold_of_asks {held : String → Option Operand} {given : String × Operand}
    (asks : given.2.isGiven = true) : hold held given given.1 = some given.2 := by
  simp [hold, asks]

theorem hold_of_ne {held : String → Option Operand} {given : String × Operand} {field : String}
    (other : field ≠ given.1) : hold held given field = held field := by
  simp [hold, other]

theorem hold_of_silent {held : String → Option Operand} {given : String × Operand}
    (silent : given.2.isGiven = false) : hold held given = held := by
  funext field
  simp [hold, silent]

theorem placesOf_hold_of_absent {fields : List String} {held : String → Option Operand}
    {given : String × Operand} (absent : given.1 ∉ fields) :
    placesOf fields (hold held given) = placesOf fields held := by
  apply List.map_congr_left
  intro field member
  rw [hold_of_ne]
  rintro rfl
  exact absent member

theorem findIdx?_placesOf_of_absent {fields : List String} {held : String → Option Operand}
    {name : String} (absent : name ∉ fields) :
    (placesOf fields held).findIdx? (fun place => place.1 == name) = none := by
  rw [List.findIdx?_eq_none_iff]
  simp only [placesOf, List.mem_map, beq_eq_false_iff_ne]
  rintro _ ⟨field, member, rfl⟩ rfl
  exact absent member

theorem place_eq_ok_iff {sortFields : List String} (distinct : sortFields.Nodup)
    {held : String → Option Operand} {given : String × Operand} {places : Places} :
    place (placesOf sortFields held) given = .ok places ↔
      given.1 ∈ sortFields ∧ held given.1 = none ∧ places = placesOf sortFields (hold held given) := by
  by_cases declared : given.1 ∈ sortFields
  -- The declared fields are cut at the one of this name; the places around it stay as they are.
  · obtain ⟨before, after, rfl, first⟩ := List.eq_append_cons_of_mem declared
    have last : given.1 ∉ after := (List.nodup_cons.mp (List.nodup_append.mp distinct).2.1).1
    have cut (held : String → Option Operand) : placesOf (before ++ given.1 :: after) held =
        placesOf before held ++ (given.1, held given.1) :: placesOf after held := by
      simp [placesOf]
    have length : (placesOf before held).length = before.length := by
      simp [placesOf]
    have found : (placesOf (before ++ given.1 :: after) held).findIdx?
        (fun place => place.1 == given.1) = some before.length := by
      rw [cut, List.findIdx?_append, findIdx?_placesOf_of_absent first]
      simp [List.findIdx?_cons, length]
    have here : (placesOf (before ++ given.1 :: after) held)[before.length]? =
        some (given.1, held given.1) := by
      simp [placesOf]
    unfold place
    simp only [found, here]
    cases taken : held given.1 with
    | some operand => simp
    | none =>
      cases asks : given.2.isGiven with
      | true =>
        rw [cut, cut, placesOf_hold_of_absent first, placesOf_hold_of_absent last,
          hold_of_asks asks, ← length]
        simp [declared, @eq_comm _ places]
      | false => simp [declared, hold_of_silent asks, @eq_comm _ places]
  · simp [place, findIdx?_placesOf_of_absent declared, declared]

theorem foldlM_place_eq_ok_iff {sortFields : List String} (distinct : sortFields.Nodup)
    (held : String → Option Operand) (operands : List (String × Operand)) (places : Places) :
    operands.foldlM place (placesOf sortFields held) = .ok places ↔
      (∀ given ∈ operands, held given.1 = none) ∧ WellNamed sortFields operands ∧
        places = placesOf sortFields fun field => (held field).or (given? operands field) := by
  -- By induction on the operands, for whatever the places hold before.
  induction operands generalizing held with
  | nil =>
    have same : (fun field => (held field).or (given? [] field)) = held := by
      funext field
      simp [given?]
    simp [same, @eq_comm _ places, (⟨by simp, .nil⟩ : WellNamed sortFields [])]
  | cons given rest ih =>
    simp only [List.foldlM_cons, bind_eq_ok_iff, place_eq_ok_iff distinct]
    have merged (free : held given.1 = none) :
        (fun field => (hold held given field).or (given? rest field)) =
          fun field => (held field).or (given? (given :: rest) field) := by
      funext field
      by_cases here : field = given.1
      · subst here
        cases asks : given.2.isGiven with
        | true => simp [hold_of_asks asks, free, given?, asks]
        | false => simp [hold_of_silent asks, given?, asks]
      · have other : (given.1 == field) = false := beq_eq_false_iff_ne.mpr (Ne.symm here)
        simp [hold_of_ne here, given?, other]
    constructor
    · rintro ⟨_, ⟨declared, free, rfl⟩, placed⟩
      obtain ⟨later, named, rfl⟩ := (ih _).mp placed
      -- A field that is free again after this operand was free before and is not the one asked here.
      have apart : ∀ other ∈ rest, (given.2.isGiven = true → given.1 ≠ other.1) ∧
          held other.1 = none := by
        intro other member
        have held := later other member
        by_cases here : other.1 = given.1
        · cases asks : given.2.isGiven with
          | true => simp [here, hold_of_asks asks] at held
          | false => simp_all [hold_of_silent asks]
        · exact ⟨fun _ => Ne.symm here, by rwa [hold_of_ne here] at held⟩
      refine ⟨?_, ⟨?_, ?_⟩, by rw [merged free]⟩
      · exact List.forall_mem_cons.mpr ⟨free, fun other member => (apart other member).2⟩
      · exact List.forall_mem_cons.mpr ⟨declared, named.declared⟩
      · exact .cons (fun other member => (apart other member).1) named.once
    · rintro ⟨free, ⟨declared, once⟩, rfl⟩
      obtain ⟨here, later⟩ := List.forall_mem_cons.mp free
      obtain ⟨first, declared⟩ := List.forall_mem_cons.mp declared
      obtain ⟨apart, once⟩ := List.pairwise_cons.mp once
      refine ⟨_, ⟨first, here, rfl⟩, (ih _).mpr ⟨?_, ⟨declared, once⟩, by rw [merged here]⟩⟩
      intro other member
      cases asks : given.2.isGiven with
      | true => rw [hold_of_ne (Ne.symm (apart other member asks)), later other member]
      | false => rw [hold_of_silent asks, later other member]

end SharedTable.SortFilter
