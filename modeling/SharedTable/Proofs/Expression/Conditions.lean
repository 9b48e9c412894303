import Mathlib.Data.List.Nodup
import SharedTable.Proofs.Expression.Rendering

set_option autoImplicit false

namespace SharedTable

open Expression

def RangeOperator.comparison : RangeOperator → Comparison
  | .beginsWith => .beginsWith
  | .gte => .gte
  | .lte => .lte
  | .gt => .gt
  | .lt => .lt

namespace SortCondition

def test : SortCondition → Test
  | .equals key => .compare .eq (.string key)
  | .compares operator bound => .compare operator.comparison (.string bound)
  | .between low high => .between (.string low) (.string high)

def ofTest? : Test → Option SortCondition
  | .compare .eq (.string key) => some (.equals key)
  | .compare .beginsWith (.string bound) => some (.compares .beginsWith bound)
  | .compare .gte (.string bound) => some (.compares .gte bound)
  | .compare .lte (.string bound) => some (.compares .lte bound)
  | .compare .gt (.string bound) => some (.compares .gt bound)
  | .compare .lt (.string bound) => some (.compares .lt bound)
  | .between (.string low) (.string high) => some (.between low high)
  | _ => none

theorem ofTest?_test (sort : SortCondition) : ofTest? sort.test = some sort := by
  cases sort with
  | equals key => rfl
  | compares operator bound => cases operator <;> rfl
  | between low high => rfl

end SortCondition

namespace KeyCondition

def marked (condition : KeyCondition) : Marked :=
  (⟨condition.partitionAttr, .compare .eq (.string condition.partitionKey)⟩, .ofKey "pk") ::
    condition.sort.toList.map fun sort => (⟨condition.sortAttr, sort.test⟩, .ofKey "sk")

theorem expression_eq_render (condition : KeyCondition) :
    condition.expression = condition.marked.render := by
  rcases condition with ⟨partitionAttr, partitionKey, sortAttr, - | (key | ⟨operator, bound⟩ | ⟨low, high⟩)⟩
  · rfl
  · rfl
  · cases operator <;> rfl
  · rfl

end KeyCondition

namespace Filter

def marked (filter : Filter) : Marked :=
  filter.zipIdx.map fun (clause, place) => (clause, .ofPlace place)

theorem addClause_eq_add (expression : Expression) (clause : Clause) (place : Nat) :
    addClause expression (clause, place) = Marked.add expression (clause, .ofPlace place) := by
  obtain ⟨field, test⟩ := clause
  cases test <;> rfl

theorem expression_eq_render (filter : Filter) : filter.expression = filter.marked.render := by
  rw [expression, Marked.render, marked, List.foldl_map]
  congr 1
  funext expression entry
  exact addClause_eq_add expression entry.1 entry.2

theorem map_fst_marked (filter : Filter) : filter.marked.map Prod.fst = filter := by
  rw [marked, List.map_map]
  exact List.zipIdx_map_fst ..

end Filter

theorem KeyCondition.fresh_marked (condition : KeyCondition) : condition.marked.Fresh := by
  have pk : (Marks.ofKey "pk").WellFormed := Marks.wellFormed_ofKey (by decide)
  have sk : (Marks.ofKey "sk").WellFormed := Marks.wellFormed_ofKey (by decide)
  rcases condition with ⟨partitionAttr, partitionKey, sortAttr, - | sort⟩
  · exact ⟨List.forall_mem_singleton.mpr pk, List.pairwise_singleton ..⟩
  · exact ⟨List.forall_mem_cons.mpr ⟨pk, List.forall_mem_singleton.mpr sk⟩,
      List.pairwise_pair.mpr Marks.apart_pk_sk⟩

theorem Filter.fresh_marked (filter : Filter) : filter.marked.Fresh where
  wellFormed := List.forall_mem_map.mpr fun entry _ => Marks.wellFormed_ofPlace entry.2
  apart := by
    have places : (filter.zipIdx.map Prod.snd).Nodup := by
      rw [List.zipIdx_map_snd]
      exact List.nodup_range'
    exact List.pairwise_map.mpr ((List.pairwise_map.mp places).imp Marks.apart_ofPlace)

theorem fresh_append (condition : KeyCondition) (filter : Filter) :
    Marked.Fresh (condition.marked ++ filter.marked) where
  wellFormed := List.forall_mem_append.mpr
    ⟨condition.fresh_marked.wellFormed, filter.fresh_marked.wellFormed⟩
  apart := by
    refine List.pairwise_append.mpr ⟨condition.fresh_marked.apart, filter.fresh_marked.apart, ?_⟩
    have pk (place : Nat) : (Marks.ofKey "pk").Apart (.ofPlace place) :=
      .of_second place (by decide) (by decide)
    have sk (place : Nat) : (Marks.ofKey "sk").Apart (.ofPlace place) :=
      .of_second place (by decide) (by decide)
    intro entry mine other theirs
    obtain ⟨⟨clause, place⟩, -, rfl⟩ := List.mem_map.mp theirs
    rcases List.mem_cons.mp mine with rfl | later
    · exact pk place
    · obtain ⟨sort, -, rfl⟩ := List.mem_map.mp later
      exact sk place

def Comparison.Relates (comparison : Comparison) (text other : String) : Prop :=
  match comparison with
  | .eq => text = other
  | .ne => text ≠ other
  | .gt => other < text
  | .gte => other < text ∨ text = other
  | .lt => text < other
  | .lte => text < other ∨ text = other
  | .beginsWith => ∃ rest, text = other ++ rest

def Test.Relates (test : Test) (text : String) : Prop :=
  match test with
  | .compare comparison (.string other) => comparison.Relates text other
  | .between (.string low) (.string high) =>
    Comparison.gte.Relates text low ∧ Comparison.lte.Relates text high
  | _ => False

def Clause.Meets (clause : Clause) (item : Fields) : Prop :=
  ∃ text, item.text? clause.field = some text ∧ clause.test.Relates text

def Expression.IsTrueOf (names : Std.ExtTreeMap String String) (values : Fields) (text : String)
    (item : Fields) : Prop :=
  ∃ clauses, meaning? names values text = some clauses ∧ ∀ clause ∈ clauses, clause.Meets item

theorem Comparison.beginsWith_relates {text start : String} :
    beginsWith.Relates text start ↔ start.toList.isPrefixOf text.toList := by
  rw [List.isPrefixOf_iff_prefix]
  constructor
  · rintro ⟨rest, rfl⟩
    exact ⟨rest.toList, String.toList_append.symm⟩
  · rintro ⟨rest, same⟩
    refine ⟨String.ofList rest, String.toList_inj.mp ?_⟩
    rw [String.toList_append, String.toList_ofList, same]

theorem Comparison.gte_relates {text other : String} : gte.Relates text other ↔ other ≤ text := by
  rw [le_iff_lt_or_eq, eq_comm]
  rfl

theorem Comparison.lte_relates {text other : String} : lte.Relates text other ↔ text ≤ other :=
  le_iff_lt_or_eq.symm

theorem SortCondition.relates_test (sort : SortCondition) (key : String) :
    sort.test.Relates key ↔ sort.holds key := by
  cases sort with
  | equals wanted => exact beq_iff_eq.symm
  | compares operator bound =>
    cases operator with
    | beginsWith => exact Comparison.beginsWith_relates
    | gte => exact Comparison.gte_relates.trans decide_eq_true_iff.symm
    | lte => exact Comparison.lte_relates.trans decide_eq_true_iff.symm
    | gt => exact (decide_eq_true_iff (p := bound < key)).symm
    | lt => exact (decide_eq_true_iff (p := key < bound)).symm
  | between low high =>
    rw [holds, Bool.and_eq_true, decide_eq_true_iff, decide_eq_true_iff]
    exact and_congr Comparison.gte_relates Comparison.lte_relates

theorem Clause.meets_iff {clause : Clause} {item : Fields} {text : String}
    (held : item.text? clause.field = some text) : clause.Meets item ↔ clause.test.Relates text := by
  constructor
  · rintro ⟨other, also, relates⟩
    cases held.symm.trans also
    exact relates
  · exact fun relates => ⟨text, held, relates⟩

namespace KeyCondition

def parts (condition : KeyCondition) : String × String × Option (String × SortCondition) :=
  (condition.partitionAttr, condition.partitionKey, condition.sort.map fun sort => (condition.sortAttr, sort))

def parts? : List Clause → Option (String × String × Option (String × SortCondition))
  | [⟨partitionAttr, .compare .eq (.string partitionKey)⟩] => some (partitionAttr, partitionKey, none)
  | [⟨partitionAttr, .compare .eq (.string partitionKey)⟩, ⟨sortAttr, test⟩] =>
    (SortCondition.ofTest? test).map fun sort => (partitionAttr, partitionKey, some (sortAttr, sort))
  | _ => none

theorem parts?_marked (condition : KeyCondition) :
    parts? (condition.marked.map Prod.fst) = some condition.parts := by
  rcases condition with ⟨partitionAttr, partitionKey, sortAttr, - | sort⟩
  · rfl
  · exact congrArg (Option.map fun sort => (partitionAttr, partitionKey, some (sortAttr, sort)))
      (SortCondition.ofTest?_test sort)

theorem meets_marked_iff (condition : KeyCondition) {item : Fields} {partition key : String}
    (inPartition : item.text? condition.partitionAttr = some partition)
    (sorted : item.text? condition.sortAttr = some key) :
    (∀ clause ∈ condition.marked.map Prod.fst, clause.Meets item) ↔
      partition = condition.partitionKey ∧ ∀ wanted ∈ condition.sort, wanted.holds key := by
  have first : Clause.Meets ⟨condition.partitionAttr, .compare .eq (.string condition.partitionKey)⟩
      item ↔ partition = condition.partitionKey := Clause.meets_iff inPartition
  have second (sort : SortCondition) : Clause.Meets ⟨condition.sortAttr, sort.test⟩ item ↔
      sort.holds key := (Clause.meets_iff sorted).trans (sort.relates_test key)
  simp [marked, first, second]

def operators (condition : KeyCondition) : Option Operator :=
  condition.sort.map fun sort => sort.test.operator

theorem text_congr {condition other : KeyCondition} (same : other.operators = condition.operators) :
    other.expression.text = condition.expression.text := by
  have shape (condition : KeyCondition) : condition.marked.clauses =
      Operator.clause (.compares .eq) (.ofKey "pk") ::
        condition.operators.toList.map fun operator => operator.clause (.ofKey "sk") := by
    rcases condition with ⟨partitionAttr, partitionKey, sortAttr, - | sort⟩ <;> rfl
  rw [expression_eq_render, expression_eq_render, Marked.text_render, Marked.text_render, shape, shape,
    same]

end KeyCondition

namespace Filter

def operators (filter : Filter) : List Operator := filter.map fun clause => clause.test.operator

theorem text_congr {filter other : Filter} (same : other.operators = filter.operators) :
    other.expression.text = filter.expression.text := by
  have shape (filter : Filter) : filter.marked.clauses =
      filter.operators.zipIdx.map fun (operator, place) => operator.clause (.ofPlace place) := by
    rw [operators, List.zipIdx_map, List.map_map, Marked.clauses, marked, List.map_map]
    rfl
  rw [expression_eq_render, expression_eq_render, Marked.text_render, Marked.text_render, shape, shape,
    same]

end Filter

end SharedTable
