import SharedTable.Condition.Filter
import SharedTable.Proofs.Number.Rounding

set_option autoImplicit false

namespace SharedTable

def Comparison.Orders (comparison : Comparison) (a b : Int) : Prop :=
  match comparison with
  | .eq => a = b
  | .ne => a ≠ b
  | .gt => b < a
  | .gte => b ≤ a
  | .lt => a < b
  | .lte => a ≤ b
  | .beginsWith => False

namespace Filter

def comparing (field : String) (comparison : Comparison) (n : Integer) : Filter :=
  [⟨field, .compare comparison (.number (.integer n))⟩]

def within (field : String) (low high : Integer) : Filter :=
  [⟨field, .between (.number (.integer low)) (.number (.integer high))⟩]

end Filter

section Doubles

variable (a b : Integer)

namespace Value

theorem order?_integer :
    order? (.number (.integer a)) (.number (.integer b)) = some (compare a.nearest b.nearest) := by
  rw [order?, Number.compare_integer]

theorem equals_integer :
    equals (.number (.integer a)) (.number (.integer b)) = true ↔ a.nearest = b.nearest := by
  simp only [equals, order?_integer, beq_iff_eq]
  exact compare_eq_iff_eq

theorem isAtLeast_integer :
    isAtLeast (.number (.integer a)) (.number (.integer b)) = true ↔ b.nearest ≤ a.nearest := by
  rw [isAtLeast, order?_integer, Option.any_some, bne_iff_ne]
  exact compare_ge_iff_ge

theorem isAtMost_integer :
    isAtMost (.number (.integer a)) (.number (.integer b)) = true ↔ a.nearest ≤ b.nearest := by
  rw [isAtMost, order?_integer, Option.any_some, bne_iff_ne]
  exact compare_le_iff_le

theorem isAbove_integer :
    isAbove (.number (.integer a)) (.number (.integer b)) = true ↔ b.nearest < a.nearest := by
  rw [isAbove, order?_integer, Option.any_some, beq_iff_eq]
  exact compare_gt_iff_gt

theorem isBelow_integer :
    isBelow (.number (.integer a)) (.number (.integer b)) = true ↔ a.nearest < b.nearest := by
  rw [isBelow, order?_integer, Option.any_some, beq_iff_eq]
  exact compare_lt_iff_lt

end Value

namespace Comparison

theorem holds_integer (comparison : Comparison) :
    comparison.holds (.number (.integer a)) (.number (.integer b)) = true ↔
      comparison.Orders a.nearest b.nearest := by
  cases comparison with
  | eq => exact Value.equals_integer a b
  | ne =>
    rw [holds, Bool.not_eq_true', ← Bool.not_eq_true]
    exact not_congr (Value.equals_integer a b)
  | gt => exact Value.isAbove_integer a b
  | gte => exact Value.isAtLeast_integer a b
  | lt => exact Value.isBelow_integer a b
  | lte => exact Value.isAtMost_integer a b
  | beginsWith => exact iff_of_false Bool.false_ne_true id

theorem orders_nearest_iff :
    (∀ comparison : Comparison, comparison.Orders a.nearest b.nearest ↔ comparison.Orders a.val b.val) ↔
      (a.nearest = b.nearest → a.val = b.val) := by
  constructor
  · intro exact
    exact (exact .eq).mp
  · intro apart comparison
    have up : a.val ≤ b.val → a.nearest ≤ b.nearest := Integer.nearest_mono
    have down : b.val ≤ a.val → b.nearest ≤ a.nearest := Integer.nearest_mono
    cases comparison <;> simp only [Orders] <;> omega

end Comparison

end Doubles

section Stored

variable {item : Fields} {field : String}

theorem Filter.holds_single {actual : Value} (stored : item.present? field = some actual) (test : Test) :
    Filter.holds [⟨field, test⟩] item = test.holds actual := by
  rw [Filter.holds, List.all_cons, List.all_nil, Bool.and_true, Clause.holds, stored]

/--
A test of a stored integer is a test of the nearest doubles. Comparisons with `b` and the range from `b` to
`c` all mean what they say of integers exactly where `a` is not rounded onto another integer `b`, nor, being
at least `b`, onto a smaller `c`; no integer of at most 53 bits is rounded onto another.
-/
theorem integer_tests_iff {a : Integer} (stored : item.present? field = some (.number (.integer a)))
    (b c : Integer) :
    (∀ comparison, (Filter.comparing field comparison b).holds item = true ↔
      comparison.Orders a.nearest b.nearest) ∧
    ((Filter.within field b c).holds item = true ↔ b.nearest ≤ a.nearest ∧ a.nearest ≤ c.nearest) ∧
    (((∀ comparison, (Filter.comparing field comparison b).holds item = true ↔
          comparison.Orders a.val b.val) ∧
        ((Filter.within field b c).holds item = true ↔ b.val ≤ a.val ∧ a.val ≤ c.val)) ↔
      (a.nearest = b.nearest → a.val = b.val) ∧
        (b.val ≤ a.val → a.nearest = c.nearest → a.val ≤ c.val)) ∧
    (a.val.natAbs < 2 ^ 53 → ∀ n : Integer, a.nearest = n.nearest → a.val = n.val) := by
  have compared (comparison : Comparison) : (Filter.comparing field comparison b).holds item = true ↔
      comparison.Orders a.nearest b.nearest := by
    rw [Filter.comparing, Filter.holds_single stored]
    exact comparison.holds_integer a b
  have ranged : (Filter.within field b c).holds item = true ↔
      b.nearest ≤ a.nearest ∧ a.nearest ≤ c.nearest := by
    rw [Filter.within, Filter.holds_single stored, Test.holds, Bool.and_eq_true,
      Value.isAtLeast_integer, Value.isAtMost_integer]
  refine ⟨compared, ranged, ?_, fun small n => Integer.eq_of_nearest small⟩
  simp only [compared, ranged, Comparison.orders_nearest_iff]
  refine and_congr_right fun apart => ?_
  have upB : a.val ≤ b.val → a.nearest ≤ b.nearest := Integer.nearest_mono
  have downB : b.val ≤ a.val → b.nearest ≤ a.nearest := Integer.nearest_mono
  have upC : a.val ≤ c.val → a.nearest ≤ c.nearest := Integer.nearest_mono
  have downC : c.val ≤ a.val → c.nearest ≤ a.nearest := Integer.nearest_mono
  omega

def scored (n : Integer) : Fields := .ofList [("score", Value.number (.integer n))]

theorem score_within_selected :
    (Filter.within "score" ⟨3, by decide, by decide⟩ ⟨9, by decide, by decide⟩).holds
      (scored ⟨5, by decide, by decide⟩) = true := by
  have stored : (scored ⟨5, by decide, by decide⟩).present? "score" = some (.number (.integer _)) := rfl
  exact (integer_tests_iff stored _ _).2.1.mpr (by decide +kernel)

theorem neighbour_equals_score :
    (Filter.comparing "score" .eq ⟨9007199254740992, by decide, by decide⟩).holds
        (scored ⟨9007199254740993, by decide, by decide⟩) = true ∧
      ¬ Comparison.eq.Orders 9007199254740993 9007199254740992 :=
  ⟨by decide +kernel, Int.ne_of_gt (by decide)⟩

end Stored

end SharedTable
