import SharedTable.Proofs.Expression.Placeholders
import SharedTable.Proofs.Maps

set_option autoImplicit false

namespace SharedTable

open Expression

inductive Operator where
  | compares (comparison : Comparison)
  | between
  deriving DecidableEq, Repr

def Operator.clause (operator : Operator) (marks : Marks) : ExpressionClause :=
  match operator with
  | .compares comparison => comparison.clause marks.name marks.value
  | .between => .between marks.name marks.low marks.high

namespace Test

def operator : Test → Operator
  | .compare comparison _ => .compares comparison
  | .between _ _ => .between

def assigned (test : Test) (marks : Marks) : List (String × Value) :=
  match test with
  | .compare _ value => [(marks.value, value)]
  | .between low high => [(marks.low, low), (marks.high, high)]

end Test

abbrev Marked := List (Clause × Marks)

namespace Marked

def clauses (marked : Marked) : List ExpressionClause :=
  marked.map fun (clause, marks) => clause.test.operator.clause marks

def names (marked : Marked) : List (String × String) :=
  marked.map fun (clause, marks) => (marks.name, clause.field)

def values (marked : Marked) : List (String × Value) :=
  marked.flatMap fun (clause, marks) => clause.test.assigned marks

theorem names_append (marked others : Marked) :
    names (marked ++ others) = marked.names ++ others.names := List.map_append ..

theorem values_append (marked others : Marked) :
    values (marked ++ others) = marked.values ++ others.values := List.flatMap_append ..

def add (expression : Expression) (entry : Clause × Marks) : Expression :=
  expression.and (entry.1.test.operator.clause entry.2) (entry.2.name, entry.1.field)
    (entry.1.test.assigned entry.2)

def render (marked : Marked) : Expression := marked.foldl add .empty

theorem foldl_add (marked : Marked) (expression : Expression) :
    marked.foldl add expression =
      ⟨expression.clauses ++ marked.clauses, expression.names.insertMany marked.names,
        expression.values.insertMany marked.values⟩ := by
  induction marked generalizing expression with
  | nil => simp [clauses, names, values]
  | cons entry rest ih =>
    rw [List.foldl_cons, ih]
    simp [add, Expression.and, clauses, names, values, Std.ExtTreeMap.insertMany_append,
      Std.ExtTreeMap.insertMany_cons]

theorem render_eq (marked : Marked) :
    marked.render = ⟨marked.clauses, (∅ : Std.ExtTreeMap String String).insertMany marked.names,
      (∅ : Fields).insertMany marked.values⟩ := foldl_add marked .empty

theorem text_render (marked : Marked) : marked.render.text = textOf marked.clauses := by
  rw [render_eq]
  rfl

structure Fresh (marked : Marked) : Prop where
  wellFormed : ∀ entry ∈ marked, entry.2.WellFormed
  apart : marked.Pairwise fun entry other => entry.2.Apart other.2

end Marked

theorem Operator.wellFormed_clause (operator : Operator) {marks : Marks}
    (wellFormed : marks.WellFormed) : (operator.clause marks).WellFormed := by
  obtain ⟨name, values, -⟩ := wellFormed
  simp only [Marks.values, List.forall_mem_cons] at values
  obtain ⟨value, low, high, -⟩ := values
  cases operator with
  | compares comparison =>
    cases comparison <;>
      simp [clause, Comparison.clause, ExpressionClause.WellFormed, ExpressionClause.tokens,
        Token.WellFormed, name, value, symbols]
  | between =>
    simp [clause, ExpressionClause.WellFormed, ExpressionClause.tokens, Token.WellFormed, name, low,
      high]

theorem Operator.name_clause (operator : Operator) (marks : Marks) :
    (operator.clause marks).name = marks.name := by
  cases operator with
  | compares comparison => cases comparison <;> rfl
  | between => rfl

theorem Test.values_clause (test : Test) (marks : Marks) :
    (test.operator.clause marks).values = (test.assigned marks).map Prod.fst := by
  cases test with
  | compare comparison value => cases comparison <;> rfl
  | between low high => rfl

theorem Test.assigned_sublist (test : Test) (marks : Marks) :
    ((test.assigned marks).map Prod.fst).Sublist marks.values := by
  cases test with
  | compare comparison value => exact .cons_cons _ (List.nil_sublist _)
  | between low high => exact .cons _ (.refl _)

namespace Marked

variable {marked : Marked}

theorem Fresh.wellFormed_clauses (fresh : marked.Fresh) :
    ∀ clause ∈ marked.clauses, clause.WellFormed :=
  List.forall_mem_map.mpr fun entry member => entry.1.test.operator.wellFormed_clause
    (fresh.wellFormed entry member)

theorem namesIn_render (fresh : marked.Fresh) :
    namesIn marked.render.text = marked.names.map Prod.fst := by
  rw [text_render, namesIn_textOf fresh.wellFormed_clauses, clauses, names, List.map_map, List.map_map]
  exact List.map_congr_left fun entry _ => entry.1.test.operator.name_clause entry.2

theorem map_fst_values (marked : Marked) :
    marked.values.map Prod.fst = marked.flatMap fun entry => (entry.1.test.assigned entry.2).map Prod.fst :=
  List.map_flatMap ..

theorem valuesIn_render (fresh : marked.Fresh) :
    valuesIn marked.render.text = marked.values.map Prod.fst := by
  rw [text_render, valuesIn_textOf fresh.wellFormed_clauses, map_fst_values, clauses, List.flatMap_map]
  exact List.flatMap_congr fun entry _ => entry.1.test.values_clause entry.2

theorem Fresh.nodup_names (fresh : marked.Fresh) : (marked.names.map Prod.fst).Nodup := by
  rw [names, List.map_map]
  exact List.pairwise_map.mpr (fresh.apart.imp Marks.Apart.name)

theorem Fresh.nodup_values (fresh : marked.Fresh) : (marked.values.map Prod.fst).Nodup := by
  rw [map_fst_values]
  refine List.pairwise_flatMap.mpr ⟨fun entry member => ?_, fresh.apart.imp ?_⟩
  · have ends := (fresh.wellFormed entry member).ends
    cases entry.1.test with
    | compare => exact List.pairwise_singleton ..
    | between => exact List.pairwise_pair.mpr ends
  · intro entry other apart value first another second same
    refine apart.values value ((entry.1.test.assigned_sublist entry.2).subset first) ?_
    exact same ▸ (other.1.test.assigned_sublist other.2).subset second

end Marked

def Comparison.ofSymbol? (symbol : String) : Option Comparison :=
  [("=", eq), ("<>", ne), (">", gt), (">=", gte), ("<", lt), ("<=", lte)].lookup symbol

/-- A clause with its placeholders replaced by what they stand for. -/
def ExpressionClause.resolve? (names : Std.ExtTreeMap String String) (values : Fields) :
    ExpressionClause → Option Clause
  | .relation name symbol value => do
    return ⟨← names[name]?, .compare (← Comparison.ofSymbol? symbol) (← values[value]?)⟩
  | .beginsWith name value => do return ⟨← names[name]?, .compare .beginsWith (← values[value]?)⟩
  | .between name low high => do return ⟨← names[name]?, .between (← values[low]?) (← values[high]?)⟩

def Expression.meaning? (names : Std.ExtTreeMap String String) (values : Fields) (text : String) :
    Option (List Clause) := do
  (← parse? text).mapM (ExpressionClause.resolve? names values)

theorem Comparison.ofSymbol?_symbols : ofSymbol? "=" = some eq ∧ ofSymbol? "<>" = some ne ∧
    ofSymbol? ">" = some gt ∧ ofSymbol? ">=" = some gte ∧ ofSymbol? "<" = some lt ∧
    ofSymbol? "<=" = some lte := by decide

theorem Clause.resolve?_clause {names : Std.ExtTreeMap String String} {values : Fields} {clause : Clause}
    {marks : Marks} (named : names[marks.name]? = some clause.field)
    (assigned : ∀ entry ∈ clause.test.assigned marks, values[entry.1]? = some entry.2) :
    (clause.test.operator.clause marks).resolve? names values = some clause := by
  obtain ⟨field, test⟩ := clause
  cases test with
  | compare comparison value =>
    have held : values[marks.value]? = some value := assigned (marks.value, value) List.mem_cons_self
    cases comparison <;>
      simp [Test.operator, Operator.clause, Comparison.clause, ExpressionClause.resolve?,
        Comparison.ofSymbol?_symbols, named, held]
  | between low high =>
    have first : values[marks.low]? = some low := assigned (marks.low, low) (by simp [Test.assigned])
    have last : values[marks.high]? = some high := assigned (marks.high, high) (by simp [Test.assigned])
    simp [Test.operator, Operator.clause, ExpressionClause.resolve?, named, first, last]

theorem Marked.meaning?_render {marked : Marked} (fresh : marked.Fresh) (some : marked ≠ [])
    {names : Std.ExtTreeMap String String} {values : Fields}
    (named : ∀ entry ∈ marked.names, names[entry.1]? = .some entry.2)
    (assigned : ∀ entry ∈ marked.values, values[entry.1]? = .some entry.2) :
    meaning? names values marked.render.text = .some (marked.map Prod.fst) := by
  have read : parse? marked.render.text = .some marked.clauses := by
    rw [text_render]
    exact parse?_textOf fresh.wellFormed_clauses (by simpa [clauses] using some)
  rw [meaning?, read]
  refine mapM_map_eq_some fun entry member => Clause.resolve?_clause ?_ ?_
  · exact named _ (List.mem_map_of_mem member)
  · exact fun pair also => assigned pair (List.mem_flatMap.mpr ⟨entry, member, also⟩)

end SharedTable
