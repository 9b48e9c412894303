import Mathlib.Data.List.Forall2
import SharedTable.Proofs.Key.Spelling
import SharedTable.Proofs.Maps
import SharedTable.Schema.Basic

/-!
Which records a primary key tells apart. Values are written as they are, so a value that holds the mark of
the next field can be taken for two values; where no value does, different key values have different keys.
-/

set_option autoImplicit false

namespace SharedTable

namespace Key

variable {fields : List String} {these those : Fields}

theorem partition_eq_iff (typeName : String) :
    partition typeName fields these = partition typeName fields those ↔
      spelled id (rendered these) fields = spelled id (rendered those) fields := by
  rw [partition_eq_spelled, partition_eq_spelled, String.append_right_inj]

theorem sort_eq_iff (typeName : String)
    (presentThese : ∀ field ∈ fields, (these.present? field).isSome = true)
    (presentThose : ∀ field ∈ fields, (those.present? field).isSome = true) :
    sort typeName fields these = sort typeName fields those ↔
      spelled id (rendered these) fields = spelled id (rendered those) fields := by
  by_cases none : fields = []
  · subst none
    exact iff_of_true rfl rfl
  · rw [sort_of_present none presentThese, sort_of_present none presentThose,
      ← separator_append_joined none, ← separator_append_joined none, String.append_right_inj]
    rfl

theorem spelled_append (text : String → String) (front back : List String) :
    spelled id text (front ++ back) = spelled id text front ++ spelled id text back := by
  rw [spelled, List.map_append, String.join_append]
  rfl

theorem spelled_congr (same : ∀ field ∈ fields, rendered these field = rendered those field) :
    spelled id (rendered these) fields = spelled id (rendered those) fields := by
  unfold spelled
  congr 1
  apply List.map_congr_left
  intro field member
  rw [same field member]

end Key

namespace KeyFields

def HasTexts (key : KeyFields) (values : Fields) : Prop :=
  ∀ field ∈ key.partition ++ key.sort, ∃ text, values[field]? = some (.string text)

/-- Whether all key fields are strings of which none holds the mark of the next field before its end. -/
structure Legible (key : KeyFields) (values : Fields) : Prop where
  texts : key.HasTexts values
  partition : key.partition.IsChain fun field next => Key.Delimited next (Key.rendered values field)
  sort : key.sort.IsChain fun field next => Key.Delimited next (Key.rendered values field)

def Agree (key : KeyFields) (these those : Fields) : Prop :=
  ∀ field ∈ key.partition ++ key.sort, these[field]? = those[field]?

variable {key : KeyFields} {these those : Fields}

theorem rendered_of_text {values : Fields} {field text : String}
    (held : values[field]? = some (.string text)) : Key.rendered values field = text :=
  Key.rendered_of_present (Fields.present?_of_text held)

namespace HasTexts

theorem present (texts : key.HasTexts these) :
    ∀ field ∈ key.partition ++ key.sort, (these.present? field).isSome = true := by
  intro field member
  obtain ⟨text, held⟩ := texts field member
  rw [Fields.present?_of_text held]
  rfl

theorem agree_iff (textsThese : key.HasTexts these) (textsThose : key.HasTexts those) :
    key.Agree these those ↔
      (∀ field ∈ key.partition, Key.rendered these field = Key.rendered those field) ∧
        ∀ field ∈ key.sort, Key.rendered these field = Key.rendered those field := by
  rw [← List.forall_mem_append]
  apply forall₂_congr
  intro field member
  obtain ⟨text, held⟩ := textsThese field member
  obtain ⟨other, also⟩ := textsThose field member
  rw [held, also, rendered_of_text held, rendered_of_text also, Option.some.injEq, Value.string.injEq]

end HasTexts

end KeyFields

namespace Schema

variable {schema : Schema} {these those : Fields}

theorem primaryKey_eq_iff (textsThese : schema.key.HasTexts these) (textsThose : schema.key.HasTexts those) :
    schema.primaryKey these = schema.primaryKey those ↔
      Key.spelled id (Key.rendered these) schema.key.partition =
          Key.spelled id (Key.rendered those) schema.key.partition ∧
        Key.spelled id (Key.rendered these) schema.key.sort =
          Key.spelled id (Key.rendered those) schema.key.sort := by
  have presentThese := (List.forall_mem_append.mp textsThese.present).2
  have presentThose := (List.forall_mem_append.mp textsThose.present).2
  rw [primaryKey, primaryKey, PrimaryKey.mk.injEq]
  exact and_congr (Key.partition_eq_iff _) (Key.sort_eq_iff _ presentThese presentThose)

theorem primaryKey_inj (legibleThese : schema.key.Legible these) (legibleThose : schema.key.Legible those) :
    schema.primaryKey these = schema.primaryKey those ↔ schema.key.Agree these those := by
  rw [primaryKey_eq_iff legibleThese.texts legibleThose.texts,
    legibleThese.texts.agree_iff legibleThose.texts]
  exact and_congr (Key.spelled_inj legibleThese.partition legibleThose.partition)
    (Key.spelled_inj legibleThese.sort legibleThose.sort)

def shifted (values : Fields) (field next front back : String) : Fields :=
  (values.insert field (.string front)).insert next (.string (back ++ Key.rendered values next))

section Shifted

variable {values : Fields} {field next front back : String}

theorem getElem?_shifted_field (apart : field ≠ next) :
    (shifted values field next front back)[field]? = some (.string front) := by
  rw [shifted, Std.ExtTreeMap.getElem?_insert, if_neg, Std.ExtTreeMap.getElem?_insert_self]
  exact fun same => apart (Std.LawfulEqCmp.eq_of_compare same).symm

theorem getElem?_shifted_next :
    (shifted values field next front back)[next]? =
      some (.string (back ++ Key.rendered values next)) := by
  simp [shifted]

theorem getElem?_shifted_other {other : String} (first : other ≠ field) (second : other ≠ next) :
    (shifted values field next front back)[other]? = values[other]? := by
  simp [shifted, Std.ExtTreeMap.getElem?_insert, Ne.symm first, Ne.symm second]

theorem rendered_shifted_other {other : String} (first : other ≠ field) (second : other ≠ next) :
    Key.rendered (shifted values field next front back) other = Key.rendered values other := by
  rw [Key.rendered, Key.rendered, Fields.present?, Fields.present?, getElem?_shifted_other first second]

theorem hasTexts_shifted {key : KeyFields} (texts : key.HasTexts values) (apart : field ≠ next)
    (front back : String) : key.HasTexts (shifted values field next front back) := by
  intro other member
  by_cases first : other = field
  · subst first
    exact ⟨_, getElem?_shifted_field apart⟩
  · by_cases second : other = next
    · subst second
      exact ⟨_, getElem?_shifted_next⟩
    · rw [getElem?_shifted_other first second]
      exact texts other member

theorem spelled_shifted {fields before after : List String} (distinct : fields.Nodup)
    (place : fields = before ++ field :: next :: after)
    (split : Key.rendered values field ++ Key.mark next = front ++ (Key.mark next ++ back)) :
    Key.spelled id (Key.rendered (shifted values field next front back)) fields =
      Key.spelled id (Key.rendered values) fields := by
  subst place
  obtain ⟨_, inner, outside⟩ := List.nodup_append.mp distinct
  obtain ⟨notNext, behind⟩ := List.nodup_cons.mp inner
  have apart : field ≠ next := fun same => notNext (same ▸ List.mem_cons_self)
  have early : ∀ other ∈ before,
      Key.rendered (shifted values field next front back) other = Key.rendered values other := by
    intro other member
    exact rendered_shifted_other (outside other member field (by simp))
      (outside other member next (by simp))
  have late : ∀ other ∈ after,
      Key.rendered (shifted values field next front back) other = Key.rendered values other := by
    intro other member
    apply rendered_shifted_other
    · rintro rfl
      exact notNext (List.mem_cons_of_mem _ member)
    · rintro rfl
      exact (List.nodup_cons.mp behind).1 member
  have join (text : String → String) : Key.spelled id text (before ++ field :: next :: after) =
      Key.spelled id text before ++ (Key.mark field ++ ((text field ++ Key.mark next) ++
        (text next ++ Key.spelled id text after))) := by
    rw [Key.spelled_append, Key.spelled_cons, Key.spelled_cons]
    simp only [id, String.append_assoc]
  rw [join, join, Key.spelled_congr early, Key.spelled_congr late, split,
    KeyFields.rendered_of_text (getElem?_shifted_field apart),
    KeyFields.rendered_of_text getElem?_shifted_next]
  simp only [String.append_assoc]

theorem spelled_shifted_elsewhere {fields : List String}
    (away : ∀ other ∈ fields, other ≠ field ∧ other ≠ next) :
    Key.spelled id (Key.rendered (shifted values field next front back)) fields =
      Key.spelled id (Key.rendered values) fields :=
  Key.spelled_congr fun other member =>
    rendered_shifted_other (away other member).1 (away other member).2

theorem not_agree_shifted {key : KeyFields} (member : field ∈ key.partition ++ key.sort)
    (apart : field ≠ next)
    (split : Key.rendered values field ++ Key.mark next = front ++ (Key.mark next ++ back))
    (some : back ≠ "") : ¬ key.Agree (shifted values field next front back) values := by
  intro agree
  have same := agree field member
  rw [getElem?_shifted_field apart] at same
  -- With the same value in front of it, the mark would have nothing behind it.
  rw [KeyFields.rendered_of_text same.symm, String.append_right_inj] at split
  have lengths := congrArg String.length split
  rw [String.length_append] at lengths
  exact some (String.length_eq_zero_iff.mp (by omega))

end Shifted

theorem exists_split_of_not_chain {fields : List String} {values : Fields} (distinct : fields.Nodup)
    (chain : ¬ fields.IsChain fun field next => Key.Delimited next (Key.rendered values field)) :
    ∃ field next front back before after, fields = before ++ field :: next :: after ∧
      Key.rendered values field ++ Key.mark next = front ++ (Key.mark next ++ back) ∧
      back ≠ "" ∧ field ≠ next := by
  simp only [List.isChain_iff_forall_rel_of_append_cons_cons, Key.Delimited] at chain
  push Not at chain
  obtain ⟨field, next, before, after, place, front, back, split, some⟩ := chain
  refine ⟨field, next, front, back, before, after, place, split, some, ?_⟩
  subst place
  have inner := (List.nodup_append.mp distinct).2.1
  exact fun same => (List.nodup_cons.mp inner).1 (same ▸ List.mem_cons_self)

/-- The condition that keys be legible cannot be dropped for any record. -/
theorem exists_namesake (distinct : (schema.key.partition ++ schema.key.sort).Nodup)
    (texts : schema.key.HasTexts these) (illegible : ¬ schema.key.Legible these) :
    ∃ those, schema.key.HasTexts those ∧ schema.primaryKey those = schema.primaryKey these ∧
      ¬ schema.key.Agree those these := by
  obtain ⟨first, second, outside⟩ := List.nodup_append.mp distinct
  -- The list with the value at fault is respelled; the other list does not have its fields.
  by_cases chain : schema.key.partition.IsChain fun field next =>
      Key.Delimited next (Key.rendered these field)
  · obtain ⟨field, next, front, back, before, after, place, split, some, apart⟩ :=
      exists_split_of_not_chain second fun sort => illegible ⟨texts, chain, sort⟩
    have also := hasTexts_shifted texts apart front back
    refine ⟨_, also, (primaryKey_eq_iff also texts).mpr ⟨?_, spelled_shifted second place split⟩,
      not_agree_shifted (by simp [place]) apart split some⟩
    apply spelled_shifted_elsewhere
    intro other member
    exact ⟨outside other member field (by simp [place]), outside other member next (by simp [place])⟩
  · obtain ⟨field, next, front, back, before, after, place, split, some, apart⟩ :=
      exists_split_of_not_chain first chain
    have also := hasTexts_shifted texts apart front back
    refine ⟨_, also, (primaryKey_eq_iff also texts).mpr ⟨spelled_shifted first place split, ?_⟩,
      not_agree_shifted (by simp [place]) apart split some⟩
    apply spelled_shifted_elsewhere
    intro other member
    exact ⟨(outside field (by simp [place]) other member).symm,
      (outside next (by simp [place]) other member).symm⟩

end Schema

end SharedTable
