import Mathlib.Data.String.Basic
import SharedTable.Condition.Sort

/-!
How composed keys compare. Two keys go on together as long as their texts agree; where a text differs
that holds no separator, it decides alone, with the separator behind it.
-/

set_option autoImplicit false

namespace SharedTable

namespace Key

def Plain (text : String) : Prop := '#' ∉ text.toList

theorem append_lt_append_iff (start text other : String) :
    start ++ text < start ++ other ↔ text < other := by
  rw [String.lt_iff_toList_lt, String.toList_append, String.toList_append, String.lt_iff_toList_lt]
  induction start.toList with
  | nil => exact Iff.rfl
  | cons c start ih => rw [List.cons_append, List.cons_append, List.cons_lt_cons_self, ih]

theorem joined_append {front rest : List String} (someFront : front ≠ []) (someRest : rest ≠ []) :
    joined (front ++ rest) = joined front ++ separator ++ joined rest :=
  String.intercalate_append_of_ne_nil someFront someRest

end Key

namespace RangeOperator

theorem isPrefixOf_append_append (start a b : List Char) :
    (start ++ a).isPrefixOf (start ++ b) = a.isPrefixOf b := by
  induction start with
  | nil => rfl
  | cons c start ih => simpa [List.isPrefixOf] using ih

theorem holds_append_append (operator : RangeOperator) (start key bound : String) :
    operator.holds (start ++ key) (start ++ bound) = operator.holds key bound := by
  have less (a b : String) := Key.append_lt_append_iff start a b
  have most (a b : String) : start ++ a ≤ start ++ b ↔ a ≤ b := not_congr (less b a)
  cases operator with
  | beginsWith => simp only [holds, String.toList_append, isPrefixOf_append_append]
  | gte => simp only [holds, most]
  | lte => simp only [holds, most]
  | gt => simp only [holds, less]
  | lt => simp only [holds, less]

theorem holds_joined_append (operator : RangeOperator) (front : List String) {key bound : List String}
    (someKey : key ≠ []) (someBound : bound ≠ []) :
    operator.holds (Key.joined (front ++ key)) (Key.joined (front ++ bound)) =
      operator.holds (Key.joined key) (Key.joined bound) := by
  by_cases none : front = []
  · rw [none, List.nil_append, List.nil_append]
  · rw [Key.joined_append none someKey, Key.joined_append none someBound, holds_append_append]

theorem holds_segment (operator : RangeOperator) (field text bound : String) :
    operator.holds (Key.segment field text) (Key.segment field bound) = operator.holds text bound := by
  rw [Key.segment, Key.segment, holds_append_append]

theorem lt_iff_of_differ {mark : Char} {xs ys : List Char} (plainX : mark ∉ xs) (plainY : mark ∉ ys)
    (differ : xs ≠ ys) (as bs : List Char) :
    xs ++ mark :: as < ys ++ mark :: bs ↔ xs ++ [mark] < ys ++ [mark] := by
  -- The lists part before the first mark, so what stands behind it is never compared.
  induction xs generalizing ys with
  | nil =>
    cases ys with
    | nil => exact absurd rfl differ
    | cons y ys =>
      have other : mark ≠ y := fun same => plainY (same ▸ List.mem_cons_self)
      simp [List.cons_lt_cons_iff, other]
  | cons x xs ih =>
    cases ys with
    | nil =>
      have other : x ≠ mark := fun same => plainX (same ▸ List.mem_cons_self)
      simp [List.cons_lt_cons_iff, other]
    | cons y ys =>
      simp only [List.cons_append, List.cons_lt_cons_iff]
      apply or_congr_right
      apply and_congr_right
      intro same
      apply ih (fun member => plainX (List.mem_cons_of_mem _ member))
        (fun member => plainY (List.mem_cons_of_mem _ member))
      rintro rfl
      exact differ (by rw [same])

theorem isPrefixOf_of_differ {mark : Char} {xs ys : List Char} (plainX : mark ∉ xs)
    (plainY : mark ∉ ys) (differ : xs ≠ ys) (as bs : List Char) :
    (ys ++ mark :: bs).isPrefixOf (xs ++ mark :: as) = false := by
  induction xs generalizing ys with
  | nil =>
    cases ys with
    | nil => exact absurd rfl differ
    | cons y ys =>
      have other : y ≠ mark := fun same => plainY (same ▸ List.mem_cons_self)
      simp [List.isPrefixOf, other]
  | cons x xs ih =>
    cases ys with
    | nil =>
      have other : mark ≠ x := fun same => plainX (same ▸ List.mem_cons_self)
      simp [List.isPrefixOf, other]
    | cons y ys =>
      simp only [List.cons_append, List.isPrefixOf, Bool.and_eq_false_iff, beq_eq_false_iff_ne]
      by_cases same : y = x
      · refine .inr (ih (fun member => plainX (List.mem_cons_of_mem _ member))
          (fun member => plainY (List.mem_cons_of_mem _ member)) ?_)
        rintro rfl
        exact differ (by rw [same])
      · exact .inl same

theorem isPrefixOf_append_mark {mark : Char} {xs ys : List Char} (plain : mark ∉ ys) (as : List Char) :
    ys.isPrefixOf (xs ++ mark :: as) = ys.isPrefixOf xs := by
  induction xs generalizing ys with
  | nil =>
    cases ys with
    | nil => rfl
    | cons y ys =>
      have other : y ≠ mark := fun same => plain (same ▸ List.mem_cons_self)
      simp [List.isPrefixOf, other]
  | cons x xs ih =>
    cases ys with
    | nil => rfl
    | cons y ys =>
      simp only [List.cons_append, List.isPrefixOf,
        ih fun member => plain (List.mem_cons_of_mem _ member)]

theorem holds_of_differ (operator : RangeOperator) {x y : String} (plainX : Key.Plain x)
    (plainY : Key.Plain y) (differ : x ≠ y) (a b : String) :
    operator.holds (x ++ (Key.separator ++ a)) (y ++ (Key.separator ++ b)) =
      operator.holds (x ++ Key.separator) (y ++ Key.separator) := by
  have apart : x.toList ≠ y.toList := fun same => differ (String.toList_inj.mp same)
  have less (s t a b : String) (plainS : Key.Plain s) (plainT : Key.Plain t)
      (apart : s.toList ≠ t.toList) : s ++ (Key.separator ++ a) < t ++ (Key.separator ++ b) ↔
        s ++ Key.separator < t ++ Key.separator := by
    simp only [String.lt_iff_toList_lt, String.toList_append]
    exact lt_iff_of_differ plainS plainT apart a.toList b.toList
  have most (s t a b : String) (plainS : Key.Plain s) (plainT : Key.Plain t)
      (apart : s.toList ≠ t.toList) : s ++ (Key.separator ++ a) ≤ t ++ (Key.separator ++ b) ↔
        s ++ Key.separator ≤ t ++ Key.separator :=
    not_congr (less t s b a plainT plainS (Ne.symm apart))
  cases operator with
  | beginsWith =>
    simp only [holds, String.toList_append]
    exact (isPrefixOf_of_differ plainX plainY apart a.toList b.toList).trans
      (isPrefixOf_of_differ plainX plainY apart [] []).symm
  | gte => simp only [holds, most y x b a plainY plainX (Ne.symm apart)]
  | lte => simp only [holds, most x y a b plainX plainY apart]
  | gt => simp only [holds, less y x b a plainY plainX (Ne.symm apart)]
  | lt => simp only [holds, less x y a b plainX plainY apart]

theorem beginsWith_of_differ {x y : String} (plainX : Key.Plain x) (plainY : Key.Plain y)
    (differ : x ≠ y) :
    RangeOperator.beginsWith.holds (x ++ Key.separator) (y ++ Key.separator) = false := by
  simp only [holds, String.toList_append]
  exact isPrefixOf_of_differ plainX plainY (fun same => differ (String.toList_inj.mp same)) [] []

end RangeOperator

end SharedTable
