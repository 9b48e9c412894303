import Mathlib.Data.String.Basic
import Mathlib.Logic.ExistsUnique
import Mathlib.Order.Compare
import SharedTable.Condition.Filter
import SharedTable.Proofs.Maps

set_option autoImplicit false

namespace SharedTable

inductive Kind where
  | null
  | bool
  | number
  | string
  | array
  | object
  deriving DecidableEq, Repr

def Kind.Ordered : Kind → Prop
  | .bool | .number | .string => True
  | .null | .array | .object => False

namespace Value

def kind : Value → Kind
  | .null => .null
  | .bool _ => .bool
  | .number _ => .number
  | .string _ => .string
  | .array _ => .array
  | .object _ => .object

/-- Which of two values comes first: numbers as doubles, strings by code point, `false` before `true`. -/
def Precedes : Value → Value → Prop
  | .bool a, .bool b => a = false ∧ b = true
  | .number m, .number n => m.toBinary64.units < n.toBinary64.units
  | .string s, .string t => s < t
  | _, _ => False

section Order

variable {a b : Value}

theorem order?_eq_lt_iff : a.order? b = some .lt ↔ a.Precedes b := by
  cases a <;> cases b <;> simp only [order?, Precedes, Option.some.injEq, reduceCtorEq]
  case bool.bool a b => cases a <;> cases b <;> decide
  case number.number m n => exact compare_lt_iff_lt (a := m.toBinary64.units)
  case string.string s t => exact compare_lt_iff_lt

instance : Decidable (a.Precedes b) := decidable_of_iff _ order?_eq_lt_iff

theorem order?_eq_gt_iff : a.order? b = some .gt ↔ b.Precedes a := by
  cases a <;> cases b <;> simp only [order?, Precedes, Option.some.injEq, reduceCtorEq]
  case bool.bool a b => cases a <;> cases b <;> decide
  case number.number m n => exact compare_gt_iff_gt (a := m.toBinary64.units)
  case string.string s t => exact compare_gt_iff_gt

theorem exists_order?_iff : (∃ order, a.order? b = some order) ↔ a.kind = b.kind ∧ b.kind.Ordered := by
  cases a <;> cases b <;> simp [order?, kind, Kind.Ordered]

theorem kind_eq_of_same (same : a.same b = true) : a.kind = b.kind := by
  cases a <;> cases b <;> simp_all [Value.same, kind]

theorem kind_eq_of_beginsWith (begins : a.beginsWith b = true) : a.kind = b.kind := by
  cases a <;> cases b <;> simp_all [Value.beginsWith, kind]

theorem order?_eq_none_of_kind_ne (differ : a.kind ≠ b.kind) : a.order? b = none := by
  rw [Option.eq_none_iff_forall_ne_some]
  exact fun order found => differ (exists_order?_iff.mp ⟨order, found⟩).1

end Order

end Value

namespace Comparison

variable {a b : Value}

def ofOrder : Ordering → Comparison
  | .lt => .lt
  | .eq => .eq
  | .gt => .gt

section Ordered

variable {order : Ordering} (ordered : a.order? b = some order)

include ordered

theorem holds_iff_ofOrder {comparison : Comparison} (strict : comparison ∈ [lt, eq, gt]) :
    comparison.holds a b = true ↔ comparison = ofOrder order := by
  simp only [List.mem_cons, List.not_mem_nil, or_false] at strict
  rcases strict with rfl | rfl | rfl <;>
    simp only [holds, Value.isBelow, Value.equals, Value.isAbove, ordered, Option.any_some] <;>
    cases order <;> decide

theorem holds_exactly_one :
    ∃! comparison, comparison ∈ [lt, eq, gt] ∧ comparison.holds a b = true := by
  have strict : ofOrder order ∈ [lt, eq, gt] := by cases order <;> decide
  refine ⟨ofOrder order, ⟨strict, (holds_iff_ofOrder ordered strict).mpr rfl⟩, ?_⟩
  rintro comparison ⟨listed, met⟩
  exact (holds_iff_ofOrder ordered listed).mp met

theorem holds_gte_iff_not_lt : gte.holds a b = true ↔ ¬ lt.holds a b = true := by
  simp only [holds, Value.isAtLeast, Value.isBelow, ordered, Option.any_some]
  cases order <;> decide

theorem holds_lte_iff_not_gt : lte.holds a b = true ↔ ¬ gt.holds a b = true := by
  simp only [holds, Value.isAtMost, Value.isAbove, ordered, Option.any_some]
  cases order <;> decide

end Ordered

theorem holds_lt_iff : lt.holds a b = true ↔ a.Precedes b := by
  rw [← Value.order?_eq_lt_iff, holds, Value.isBelow]
  cases a.order? b <;> simp

theorem holds_gt_iff : gt.holds a b = true ↔ b.Precedes a := by
  rw [← Value.order?_eq_gt_iff, holds, Value.isAbove]
  cases a.order? b <;> simp

theorem holds_ne_iff : ne.holds a b = true ↔ ¬ eq.holds a b = true := by
  rw [holds, holds, Bool.not_eq_true', Bool.not_eq_true]

theorem holds_iff_of_kind_ne (differ : a.kind ≠ b.kind) (comparison : Comparison) :
    comparison.holds a b = true ↔ comparison = ne := by
  have unordered := Value.order?_eq_none_of_kind_ne differ
  have unlike : a.same b = false := Bool.eq_false_iff.mpr fun same => differ (Value.kind_eq_of_same same)
  have other : a.beginsWith b = false :=
    Bool.eq_false_iff.mpr fun begins => differ (Value.kind_eq_of_beginsWith begins)
  cases comparison <;>
    simp [holds, Value.equals, Value.isAbove, Value.isAtLeast, Value.isBelow, Value.isAtMost, unordered,
      unlike, other]

end Comparison

abbrev Fields.Passes (item : Fields) (field : String) (test : Test) : Prop :=
  Clause.holds ⟨field, test⟩ item = true

section Attribute

variable {item : Fields} {field : String}

theorem passes_of_present {actual : Value} (present : item.present? field = some actual) {test : Test} :
    item.Passes field test ↔ test.holds actual = true := by
  rw [Fields.Passes, Clause.holds, present]

theorem passes_of_absent (absent : item.present? field = none) {test : Test} :
    item.Passes field test ↔ ∃ operand, test = .compare .ne operand := by
  rw [Fields.Passes, Clause.holds, absent]
  cases test with
  | compare comparison value => cases comparison <;> simp [Test.holdsOfAbsent]
  | between low high => simp [Test.holdsOfAbsent]

theorem passes_ne_iff (operand : Value) :
    item.Passes field (.compare .ne operand) ↔ ¬ item.Passes field (.compare .eq operand) := by
  cases present : item.present? field with
  | none => simp [passes_of_absent present]
  | some actual => simp only [passes_of_present present, Test.holds, Comparison.holds_ne_iff]

theorem passes_between_iff (low high : Value) :
    item.Passes field (.between low high) ↔
      item.Passes field (.compare .gte low) ∧ item.Passes field (.compare .lte high) := by
  cases present : item.present? field with
  | none => simp [passes_of_absent present]
  | some actual => simp only [passes_of_present present, Test.holds, Comparison.holds, Bool.and_eq_true]

section Stored

variable {actual operand : Value} (stored : item[field]? = some actual)

include stored

theorem absent_or_present :
    actual = .null ∧ item.present? field = none ∨ actual ≠ .null ∧ item.present? field = some actual := by
  by_cases null : actual = .null
  · exact .inl ⟨null, Fields.present?_eq_none_iff.mpr (.inr (null ▸ stored))⟩
  · exact .inr ⟨null, Fields.present?_eq_some_iff.mpr ⟨stored, by cases actual <;> simp_all [Value.isNull]⟩⟩

-- A stored null comes before no value and after none, as an absent attribute does.
theorem passes_lt_iff : item.Passes field (.compare .lt operand) ↔ actual.Precedes operand := by
  obtain ⟨rfl, absent⟩ | ⟨_, present⟩ := absent_or_present stored
  · simp [passes_of_absent absent, Value.Precedes]
  · rw [passes_of_present present]
    exact Comparison.holds_lt_iff

theorem passes_gt_iff : item.Passes field (.compare .gt operand) ↔ operand.Precedes actual := by
  obtain ⟨rfl, absent⟩ | ⟨_, present⟩ := absent_or_present stored
  · cases operand <;> simp [passes_of_absent absent, Value.Precedes]
  · rw [passes_of_present present]
    exact Comparison.holds_gt_iff

theorem passes_of_kind_ne (differ : actual.kind ≠ operand.kind) (comparison : Comparison) :
    item.Passes field (.compare comparison operand) ↔ comparison = .ne := by
  obtain ⟨_, absent⟩ | ⟨_, present⟩ := absent_or_present stored
  · simp [passes_of_absent absent]
  · rw [passes_of_present present]
    exact Comparison.holds_iff_of_kind_ne differ comparison

theorem not_passes_between (differ : actual.kind ≠ operand.kind) (other : Value) :
    ¬ item.Passes field (.between operand other) ∧ ¬ item.Passes field (.between other operand) := by
  rw [passes_between_iff, passes_between_iff, passes_of_kind_ne stored differ,
    passes_of_kind_ne stored differ]
  simp

theorem passes_ordered (alike : actual.kind = operand.kind) (ordered : operand.kind.Ordered) :
    (∃! comparison, comparison ∈ [.lt, .eq, .gt] ∧ item.Passes field (.compare comparison operand)) ∧
      (item.Passes field (.compare .gte operand) ↔ ¬ item.Passes field (.compare .lt operand)) ∧
      (item.Passes field (.compare .lte operand) ↔ ¬ item.Passes field (.compare .gt operand)) := by
  obtain ⟨order, found⟩ := Value.exists_order?_iff.mpr ⟨alike, ordered⟩
  obtain ⟨rfl, _⟩ | ⟨_, present⟩ := absent_or_present stored
  · rw [← alike] at ordered
    exact ordered.elim
  · simp only [passes_of_present present, Test.holds]
    exact ⟨Comparison.holds_exactly_one found, Comparison.holds_gte_iff_not_lt found,
      Comparison.holds_lte_iff_not_gt found⟩

end Stored

end Attribute

namespace Filter

variable {filter : Filter} {item : Fields}

theorem holds_iff : filter.holds item = true ↔ ∀ clause ∈ filter, clause.holds item = true := List.all_eq_true

theorem holds_of_subset {more : Filter} (fewer : filter ⊆ more) (met : more.holds item = true) :
    filter.holds item = true :=
  holds_iff.mpr fun clause member => holds_iff.mp met clause (fewer member)

theorem holds_congr {other : Filter} (same : ∀ clause, clause ∈ other ↔ clause ∈ filter) :
    other.holds item = filter.holds item :=
  Bool.eq_iff_iff.mpr ⟨holds_of_subset fun clause => (same clause).mpr,
    holds_of_subset fun clause => (same clause).mp⟩

structure Coherent (item : Fields) (filter : Filter) : Prop where
  opposite : ∀ field operand, item.Passes field (.compare .ne operand) ↔
    ¬ item.Passes field (.compare .eq operand)
  range : ∀ field low high, item.Passes field (.between low high) ↔
    item.Passes field (.compare .gte low) ∧ item.Passes field (.compare .lte high)
  directed : ∀ field actual operand, item[field]? = some actual →
    (item.Passes field (.compare .lt operand) ↔ actual.Precedes operand) ∧
    (item.Passes field (.compare .gt operand) ↔ operand.Precedes actual)
  ordered : ∀ field actual operand, item[field]? = some actual → actual.kind = operand.kind →
    operand.kind.Ordered →
    (∃! comparison, comparison ∈ [.lt, .eq, .gt] ∧ item.Passes field (.compare comparison operand)) ∧
    (item.Passes field (.compare .gte operand) ↔ ¬ item.Passes field (.compare .lt operand)) ∧
    (item.Passes field (.compare .lte operand) ↔ ¬ item.Passes field (.compare .gt operand))
  absent : ∀ field, item[field]? = none ∨ item[field]? = some .null →
    ∀ test, item.Passes field test ↔ ∃ operand, test = .compare .ne operand
  unlike : ∀ field actual operand, item[field]? = some actual → actual.kind ≠ operand.kind →
    (∀ comparison, item.Passes field (.compare comparison operand) ↔ comparison = .ne) ∧
    ∀ other, ¬ item.Passes field (.between operand other) ∧ ¬ item.Passes field (.between other operand)
  conjunctive : filter.holds item = true ↔ ∀ clause ∈ filter, clause.holds item = true
  unordered : ∀ other : Filter, (∀ clause, clause ∈ other ↔ clause ∈ filter) →
    other.holds item = filter.holds item
  narrowing : ∀ more : Filter, filter ⊆ more → more.holds item = true → filter.holds item = true

/--
Inequality is the opposite of equality and a range the conjunction of its ends. Numbers, strings and
booleans pass exactly one of below, equal and above against a value of their kind; an attribute that is
absent or null, or of another kind than the operand, passes inequality alone. A filter asks for each of its
clauses, so neither their order nor their repetition counts, and more clauses select no more.
-/
theorem tests_cohere (item : Fields) (filter : Filter) : Coherent item filter where
  opposite _ operand := passes_ne_iff operand
  range _ low high := passes_between_iff low high
  directed _ _ _ stored := ⟨passes_lt_iff stored, passes_gt_iff stored⟩
  ordered _ _ _ stored alike ordered := passes_ordered stored alike ordered
  absent _ absent _ := passes_of_absent (Fields.present?_eq_none_iff.mpr absent)
  unlike _ _ _ stored differ := ⟨passes_of_kind_ne stored differ, not_passes_between stored differ⟩
  conjunctive := holds_iff
  unordered _ same := holds_congr same
  narrowing _ fewer met := holds_of_subset fewer met

-- Two and a half.
def rating : Binary64 := ⟨false, ⟨1024, by decide⟩, ⟨1125899906842624, by decide⟩⟩

def review : Fields := .ofList
  [("note", Value.null), ("rating", Value.number (.float rating)), ("title", Value.string "Dune")]

def rated : Clause := ⟨"rating", .compare .gt (.ofInt 2)⟩

def titled : Clause := ⟨"title", .compare .ne (.ofInt 2)⟩

theorem review_tests_cohere :
    (review.Passes "rating" (.compare .lt (.ofInt 3)) ∧
      ∃! comparison, comparison ∈ [Comparison.lt, .eq, .gt] ∧
        review.Passes "rating" (.compare comparison (.ofInt 3))) ∧
    (¬ review.Passes "note" (.compare .eq .null) ∧ ¬ review.Passes "author" (.compare .eq .null)) ∧
    (review.Passes "title" (.compare .ne (.ofInt 2)) ∧
      ¬ review.Passes "title" (.between (.ofInt 2) (.string "E"))) ∧
    Filter.holds [titled, rated, titled] review = Filter.holds [rated, titled] review ∧
    Filter.holds [rated] review = true := by
  have laws := tests_cohere review [rated, titled]
  refine ⟨⟨?_, ?_⟩, ⟨?_, ?_⟩, ⟨?_, ?_⟩, ?_, ?_⟩
  · exact (laws.directed "rating" _ (.ofInt 3) rfl).1.mpr (by decide +kernel)
  · exact (laws.ordered "rating" _ (.ofInt 3) rfl rfl trivial).1
  · simp [laws.absent "note" (.inr rfl)]
  · simp [laws.absent "author" (.inl rfl)]
  · exact ((laws.unlike "title" _ (.ofInt 2) rfl nofun).1 .ne).mpr rfl
  · exact ((laws.unlike "title" _ (.ofInt 2) rfl nofun).2 (.string "E")).1
  · exact laws.unordered _ (by simp [or_comm])
  · exact (tests_cohere review [rated]).narrowing [rated, titled] (by simp) (by decide +kernel)

end Filter

end SharedTable
