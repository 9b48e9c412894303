import Mathlib.Data.List.Chain
import Mathlib.Data.List.TakeWhile
import SharedTable.Proofs.Key.Order

set_option autoImplicit false

namespace SharedTable.Key

def rendered (values : Fields) (field : String) : String :=
  ((values.present? field).map Value.keyText).getD missing

theorem rendered_of_present {values : Fields} {field : String} {value : Value}
    (present : values.present? field = some value) : rendered values field = value.keyText := by
  simp [rendered, present]

theorem partition_eq (typeName : String) (fields : List String) (values : Fields) :
    partition typeName fields values =
      joined (typeName :: fields.map fun field => segment field (rendered values field)) := rfl

def held (fields : List String) (values : Fields) : List String :=
  fields.filter fun field => (values.present? field).isSome

theorem held_cons (field : String) (fields : List String) (values : Fields) :
    held (field :: fields) values =
      if (values.present? field).isSome = true then field :: held fields values else held fields values :=
  List.filter_cons

theorem sort_eq_held {fields : List String} (some : fields ≠ []) (values : Fields) (typeName : String) :
    sort typeName fields values =
      joined ((held fields values).map fun field => segment field (rendered values field)) := by
  rw [sort, if_neg (by simpa using some), held, ← List.filterMap_eq_map, List.filterMap_filter]
  congr 2
  funext field
  cases present : values.present? field with
  | none => rfl
  | some value => simp [rendered_of_present present]

theorem sort_of_present {fields : List String} (some : fields ≠ []) {values : Fields}
    (present : ∀ field ∈ fields, (values.present? field).isSome = true) (typeName : String) :
    sort typeName fields values =
      joined (fields.map fun field => segment field (rendered values field)) := by
  rw [sort_eq_held some, held, List.filter_eq_self.mpr present]

theorem joined_segment_cons {rest : List String} (some : rest ≠ []) (field text : String) :
    joined (segment field text :: rest) =
      field ++ (separator ++ (text ++ (separator ++ joined rest))) := by
  rw [joined, String.intercalate_cons_of_ne_nil some, segment, joined]
  simp only [String.append_assoc]

def mark (field : String) : String := separator ++ (field ++ separator)

theorem toList_mark (field : String) : (mark field).toList = '#' :: (field.toList ++ ['#']) := by
  rw [mark, String.toList_append, String.toList_append]
  rfl

def spelled {α : Type} (field text : α → String) (given : List α) : String :=
  String.join (given.map fun each => mark (field each) ++ text each)

theorem spelled_cons {α : Type} (field text : α → String) (first : α) (rest : List α) :
    spelled field text (first :: rest) =
      mark (field first) ++ (text first ++ spelled field text rest) := by
  rw [spelled, List.map_cons, String.join_cons, String.append_assoc]
  rfl

theorem separator_append_joined {α : Type} {given : List α} (some : given ≠ [])
    (field text : α → String) :
    separator ++ joined (given.map fun each => segment (field each) (text each)) =
      spelled field text given := by
  induction given with
  | nil => exact absurd rfl some
  | cons first rest ih =>
    rw [spelled_cons, List.map_cons]
    by_cases last : rest = []
    · subst last
      simp [joined, segment, spelled, mark, String.append_assoc]
    · rw [joined_segment_cons (by simpa using last), ih last]
      simp only [mark, String.append_assoc]

theorem partition_eq_spelled (typeName : String) (fields : List String) (values : Fields) :
    partition typeName fields values = typeName ++ spelled id (rendered values) fields := by
  rw [partition_eq]
  by_cases none : fields = []
  · simp [none, joined, spelled]
  · have behind := separator_append_joined none id (rendered values)
    rw [← behind, joined, String.intercalate_cons_of_ne_nil (by simpa using none), String.append_assoc]
    rfl

/--
Whether the mark of the field behind a value stands at the end of the value and nowhere before, so that
the end can be found.
-/
def Delimited (next value : String) : Prop :=
  ∀ front back : String, value ++ mark next = front ++ (mark next ++ back) → back = ""

theorem delimited_iff {next value : String} :
    Delimited next value ↔ ∀ place < value.toList.length,
      ¬ (mark next).toList <+: (value.toList ++ (mark next).toList).drop place := by
  constructor
  · rintro delimited place inside ⟨back, found⟩
    have split : value ++ mark next =
        String.ofList (value.toList.take place) ++ (mark next ++ String.ofList back) := by
      rw [← String.toList_inj]
      simp only [String.toList_append, String.toList_ofList, found]
      rw [← List.take_append_of_le_length (Nat.le_of_lt inside), List.take_append_drop]
    have ended : back = [] := by
      simpa using congrArg String.toList (delimited _ _ split)
    have lengths := congrArg List.length found
    simp only [ended, List.length_append, List.length_drop, List.length_nil] at lengths
    omega
  · intro nowhere front back split
    have lists := congrArg String.toList split
    simp only [String.toList_append] at lists
    by_cases inside : front.toList.length < value.toList.length
    · refine absurd ?_ (nowhere _ inside)
      rw [lists, List.drop_left]
      exact List.prefix_append _ _
    · have lengths := congrArg List.length lists
      simp only [List.length_append] at lengths
      rw [← String.length_eq_zero_iff, ← String.length_toList]
      omega

instance (next value : String) : Decidable (Delimited next value) := decidable_of_iff _ delimited_iff.symm

theorem delimited_of_plain {value : String} (plain : Plain value) (next : String) :
    Delimited next value := by
  intro front back split
  rw [← String.toList_inj] at split ⊢
  simp only [String.toList_append] at split ⊢
  rcases List.append_eq_append_iff.mp split with ⟨tail, _, longer⟩ | ⟨tail, whole, shorter⟩
  · have lengths := congrArg List.length longer
    simp only [List.length_append] at lengths
    exact List.eq_nil_of_length_eq_zero (by omega)
  · cases tail with
    | nil => simpa using shorter
    | cons letter tail =>
      -- The mark starts with a separator, which the value does not hold.
      rw [toList_mark] at shorter
      have first : letter = '#' := (List.cons.inj shorter).1.symm
      exact absurd (whole ▸ List.mem_append_right _ (first ▸ List.mem_cons_self)) plain

theorem append_mark_inj {next these those : String} (delimitedThese : Delimited next these)
    (delimitedThose : Delimited next those) (x y : String) :
    these ++ (mark next ++ x) = those ++ (mark next ++ y) ↔ these = those ∧ x = y := by
  -- A longer value would have the mark of the other one before its end.
  have level {a b : String} (delimited : Delimited next b) {x y tail : List Char}
      (longer : b.toList = a.toList ++ tail)
      (rest : (mark next).toList ++ x = tail ++ ((mark next).toList ++ y)) : tail = [] := by
    have early : (mark next).toList <+: tail ++ (mark next).toList ++ y := by
      rw [List.append_assoc, ← rest]
      exact List.prefix_append _ _
    obtain ⟨back, same⟩ := List.prefix_of_prefix_length_le early (List.prefix_append _ _) (by simp)
    have none := delimited a (String.ofList back) (by
      rw [← String.toList_inj]
      simp [String.toList_append, longer, same])
    have ended : back = [] := by simpa using congrArg String.toList none
    have lengths := congrArg List.length same
    rw [ended, List.append_nil, List.length_append] at lengths
    exact List.eq_nil_of_length_eq_zero (by omega)
  constructor
  · intro equal
    have lists := congrArg String.toList equal
    simp only [String.toList_append] at lists
    have same : these = those := by
      rw [← String.toList_inj]
      rcases List.append_eq_append_iff.mp lists with ⟨tail, longer, rest⟩ | ⟨tail, longer, rest⟩
      · rw [longer, level delimitedThose longer rest, List.append_nil]
      · rw [longer, level delimitedThese longer rest, List.append_nil]
    subst same
    rw [String.append_right_inj, String.append_right_inj] at equal
    exact ⟨rfl, equal⟩
  · rintro ⟨rfl, rfl⟩
    rfl

theorem spelled_inj {α : Type} {given : List α} {field these those : α → String}
    (delimitedThese : given.IsChain fun each next => Delimited (field next) (these each))
    (delimitedThose : given.IsChain fun each next => Delimited (field next) (those each)) :
    spelled field these given = spelled field those given ↔ ∀ each ∈ given, these each = those each := by
  induction given with
  | nil => exact iff_of_true rfl nofun
  | cons first rest ih =>
    rw [spelled_cons, spelled_cons, String.append_right_inj, List.forall_mem_cons]
    cases rest with
    | nil => simp [spelled]
    | cons next rest =>
      rw [List.isChain_cons_cons] at delimitedThese delimitedThose
      rw [← ih delimitedThese.2 delimitedThose.2, spelled_cons, spelled_cons, String.append_right_inj]
      exact append_mark_inj delimitedThese.1 delimitedThose.1 _ _

theorem delimited_chain_of_plain {α : Type} {given : List α} {text : α → String}
    (plain : ∀ each ∈ given, Plain (text each)) (field : α → String) :
    given.IsChain fun each next => Delimited (field next) (text each) := by
  rw [List.isChain_iff_forall_rel_of_append_cons_cons]
  intro each next before after split
  exact delimited_of_plain (plain each (by simp [split])) (field next)

theorem joined_segments_inj {α : Type} {given : List α} {field these those : α → String}
    (plainThese : ∀ each ∈ given, Plain (these each)) (plainThose : ∀ each ∈ given, Plain (those each)) :
    joined (given.map fun each => segment (field each) (these each)) =
        joined (given.map fun each => segment (field each) (those each)) ↔
      ∀ each ∈ given, these each = those each := by
  by_cases none : given = []
  · simp [none]
  · rw [← String.append_right_inj separator, separator_append_joined none, separator_append_joined none]
    exact spelled_inj (delimited_chain_of_plain plainThese field)
      (delimited_chain_of_plain plainThose field)

theorem partition_inj (typeName : String) {fields : List String} {these those : Fields}
    (plainThese : ∀ field ∈ fields, Plain (rendered these field))
    (plainThose : ∀ field ∈ fields, Plain (rendered those field)) :
    partition typeName fields these = partition typeName fields those ↔
      ∀ field ∈ fields, rendered these field = rendered those field := by
  rw [partition_eq_spelled, partition_eq_spelled, String.append_right_inj]
  exact spelled_inj (delimited_chain_of_plain plainThese id) (delimited_chain_of_plain plainThose id)

def owner (text : String) : String := String.ofList (text.toList.takeWhile (· ≠ '#'))

theorem ne_of_plain {text : String} (plain : Plain text) :
    ∀ letter ∈ text.toList, decide (letter ≠ '#') = true := by
  intro letter member
  rw [decide_eq_true_eq]
  rintro rfl
  exact plain member

theorem owner_of_plain {text : String} (plain : Plain text) : owner text = text := by
  rw [owner, List.takeWhile_eq_self_iff.mpr (ne_of_plain plain), String.ofList_toList]

theorem owner_append {text : String} (plain : Plain text) (rest : String) :
    owner (text ++ (separator ++ rest)) = text := by
  have stop : (text ++ (separator ++ rest)).toList.takeWhile (· ≠ '#') = text.toList := by
    rw [String.toList_append, String.toList_append]
    change (text.toList ++ '#' :: rest.toList).takeWhile _ = _
    rw [List.takeWhile_append_of_pos (ne_of_plain plain)]
    simp
  rw [owner, stop, String.ofList_toList]

theorem owner_partition {typeName : String} (plain : Plain typeName) (fields : List String)
    (values : Fields) : owner (partition typeName fields values) = typeName := by
  rw [partition_eq]
  cases fields with
  | nil => exact owner_of_plain plain
  | cons field rest =>
    rw [joined, String.intercalate_cons_of_ne_nil (by simp), String.append_assoc]
    exact owner_append plain _

end SharedTable.Key
