import Mathlib.Data.List.TakeWhile
import SharedTable.Proofs.Expression.Language

/-!
The placeholders of conditions. Each clause has marks of its own: that of a key attribute is named by
the attribute, and that of a clause of a post-filter is numbered by its place.
-/

set_option autoImplicit false

namespace SharedTable

open Expression

structure Marks where
  name : String
  value : String
  low : String
  high : String

namespace Marks

def values (marks : Marks) : List String := [marks.value, marks.low, marks.high]

def ofKey (attr : String) : Marks := ⟨"#" ++ attr, ":" ++ attr, ":" ++ attr, ":" ++ attr ++ "_end"⟩

def ofPlace (place : Nat) : Marks :=
  let place := "f" ++ toString place
  ⟨"#" ++ place, ":" ++ place, ":" ++ place ++ "_lo", ":" ++ place ++ "_hi"⟩

structure WellFormed (marks : Marks) : Prop where
  name : IsPlaceholder '#' marks.name
  values : ∀ value ∈ marks.values, IsPlaceholder ':' value
  ends : marks.low ≠ marks.high

structure Apart (marks others : Marks) : Prop where
  name : marks.name ≠ others.name
  values : ∀ value ∈ marks.values, value ∉ others.values

theorem isWordChar_of_isDigit {c : Char} (digit : c.isDigit) : isWordChar c := by
  have other {d : Char} (none : d.isDigit = false) : c ≠ d := by
    intro same
    rw [same, none] at digit
    cases digit
  simp [isWordChar, isMark, other]

theorem isDigit_of_mem_toDigits {place : Nat} {c : Char} (digit : c ∈ Nat.toDigits 10 place) :
    c.isDigit := Nat.isDigit_of_mem_toDigits (by decide) (by decide) digit

theorem toDigits_injective {place other : Nat}
    (same : Nat.toDigits 10 place = Nat.toDigits 10 other) : place = other := by
  rw [← Nat.ofDigitChars_ten_toDigits (n := place), same, Nat.ofDigitChars_ten_toDigits]

theorem toList_of_mem_values {place : Nat} {value : String} (member : value ∈ (ofPlace place).values) :
    ∃ tail, value.toList = ':' :: 'f' :: (Nat.toDigits 10 place ++ tail) ∧
      tail.all isWordChar ∧ tail.takeWhile Char.isDigit = [] := by
  simp only [values, ofPlace, List.mem_cons, List.not_mem_nil, or_false] at member
  obtain rfl | rfl | rfl := member
  · exact ⟨[], by simp, by decide, rfl⟩
  · exact ⟨"_lo".toList, by simp, by decide, rfl⟩
  · exact ⟨"_hi".toList, by simp, by decide, rfl⟩

def digitsOf (placeholder : String) : List Char :=
  (placeholder.toList.drop 2).takeWhile Char.isDigit

theorem digitsOf_of_mem_values {place : Nat} {value : String}
    (member : value ∈ (ofPlace place).values) : digitsOf value = Nat.toDigits 10 place := by
  obtain ⟨tail, same, -, ends⟩ := toList_of_mem_values member
  have digits : ∀ c ∈ Nat.toDigits 10 place, c.isDigit := fun _ digit => isDigit_of_mem_toDigits digit
  rw [digitsOf, same, List.drop_succ_cons, List.drop_succ_cons, List.drop_zero,
    List.takeWhile_append_of_pos digits, ends, List.append_nil]

theorem all_isWordChar_digits (place : Nat) : (Nat.toDigits 10 place).all isWordChar :=
  List.all_eq_true.mpr fun _ digit => isWordChar_of_isDigit (isDigit_of_mem_toDigits digit)

theorem wellFormed_ofPlace (place : Nat) : (ofPlace place).WellFormed where
  name := by
    have same : (ofPlace place).name.toList = '#' :: 'f' :: Nat.toDigits 10 place := by
      simp [ofPlace]
    exact .of_toList same (all_isWordChar_digits place)
  values value member := by
    obtain ⟨tail, same, behind, -⟩ := toList_of_mem_values member
    refine .of_toList same ?_
    change (Nat.toDigits 10 place ++ tail).all isWordChar
    rw [List.all_append, all_isWordChar_digits, behind]
    rfl
  ends := by
    intro same
    have ends := (String.append_right_inj _).mp same
    exact absurd ends (by decide)

theorem apart_ofPlace {place other : Nat} (differ : place ≠ other) :
    (ofPlace place).Apart (ofPlace other) where
  name same := by
    have texts := congrArg String.toList same
    exact differ (toDigits_injective (by simpa [ofPlace] using texts))
  values value one two := by
    have digits := (digitsOf_of_mem_values one).symm.trans (digitsOf_of_mem_values two)
    exact differ (toDigits_injective digits)

theorem wellFormed_ofKey {attr : String} (plain : attr.toList.all isWordChar) :
    (ofKey attr).WellFormed where
  name := by
    have same : (ofKey attr).name.toList = '#' :: attr.toList := by simp [ofKey]
    exact .of_toList same plain
  values value member := by
    simp only [values, ofKey, List.mem_cons, List.not_mem_nil, or_false] at member
    obtain ⟨tail, same, behind⟩ : ∃ tail, value.toList = ':' :: (attr.toList ++ tail) ∧
        tail.all isWordChar := by
      obtain rfl | rfl | rfl := member
      · exact ⟨[], by simp, rfl⟩
      · exact ⟨[], by simp, rfl⟩
      · exact ⟨"_end".toList, by simp, by decide⟩
    refine .of_toList same ?_
    change (attr.toList ++ tail).all isWordChar
    rw [List.all_append, plain, behind]
    rfl
  ends := by
    intro same
    have lengths := congrArg String.length same
    simp [ofKey] at lengths

theorem apart_pk_sk : (ofKey "pk").Apart (ofKey "sk") := ⟨by decide, by decide⟩

theorem Apart.of_second {marks : Marks} (place : Nat) (name : marks.name.toList[1]? ≠ some 'f')
    (values : ∀ value ∈ marks.values, value.toList[1]? ≠ some 'f') :
    marks.Apart (ofPlace place) where
  name same := by
    refine name ?_
    rw [same]
    simp [ofPlace]
  values value one two := by
    obtain ⟨tail, same, -⟩ := toList_of_mem_values two
    refine values value one ?_
    rw [same]
    rfl

end Marks

end SharedTable
