import SharedTable.Condition.Filter
import SharedTable.Condition.Key

/-!
Conditions as expressions of a query language, in which placeholders stand for attribute names and
for values. The text of an expression depends on the shape of the condition alone.
-/

set_option autoImplicit false

namespace SharedTable

-- One clause of an expression; all its parts but the symbol are placeholders.
inductive ExpressionClause where
  | relation (name symbol value : String)
  | beginsWith (name value : String)
  | between (name low high : String)
  deriving DecidableEq, Repr

def ExpressionClause.text : ExpressionClause → String
  | .relation name symbol value => name ++ " " ++ symbol ++ " " ++ value
  | .beginsWith name value => "begins_with(" ++ name ++ ", " ++ value ++ ")"
  | .between name low high => name ++ " BETWEEN " ++ low ++ " AND " ++ high

structure Expression where
  clauses : List ExpressionClause
  names : Std.ExtTreeMap String String
  values : Fields

namespace Expression

def text (expression : Expression) : String :=
  " AND ".intercalate (expression.clauses.map ExpressionClause.text)

def empty : Expression := ⟨[], ∅, ∅⟩

def and (expression : Expression) (clause : ExpressionClause) (name : String × String)
    (values : List (String × Value)) : Expression where
  clauses := expression.clauses ++ [clause]
  names := expression.names.insert name.1 name.2
  values := expression.values.insertMany values

end Expression

def RangeOperator.clause (operator : RangeOperator) (name value : String) : ExpressionClause :=
  match operator with
  | .beginsWith => .beginsWith name value
  | .gte => .relation name ">=" value
  | .lte => .relation name "<=" value
  | .gt => .relation name ">" value
  | .lt => .relation name "<" value

namespace KeyCondition

-- The key condition, with `#pk` and `#sk` for the key attributes.
def expression (condition : KeyCondition) : Expression :=
  let partition := Expression.empty.and (.relation "#pk" "=" ":pk") ("#pk", condition.partitionAttr)
    [(":pk", .string condition.partitionKey)]
  let name := ("#sk", condition.sortAttr)
  match condition.sort with
  | none => partition
  | some (.equals key) => partition.and (.relation "#sk" "=" ":sk") name [(":sk", .string key)]
  | some (.compares operator bound) =>
    partition.and (operator.clause "#sk" ":sk") name [(":sk", .string bound)]
  | some (.between low high) =>
    partition.and (.between "#sk" ":sk" ":sk_end") name [(":sk", .string low), (":sk_end", .string high)]

end KeyCondition

def Comparison.clause (comparison : Comparison) (name value : String) : ExpressionClause :=
  match comparison with
  | .eq => .relation name "=" value
  | .ne => .relation name "<>" value
  | .gt => .relation name ">" value
  | .gte => .relation name ">=" value
  | .lt => .relation name "<" value
  | .lte => .relation name "<=" value
  | .beginsWith => .beginsWith name value

namespace Filter

-- Adds the clause at a position of a filter, whose number makes its placeholders its own.
def addClause (expression : Expression) (clause : Clause × Nat) : Expression :=
  let place := "f" ++ toString clause.2
  let name := "#" ++ place
  match clause.1.test with
  | .compare comparison value =>
    expression.and (comparison.clause name (":" ++ place)) (name, clause.1.field) [(":" ++ place, value)]
  | .between low high =>
    expression.and (.between name (":" ++ place ++ "_lo") (":" ++ place ++ "_hi")) (name, clause.1.field)
      [(":" ++ place ++ "_lo", low), (":" ++ place ++ "_hi", high)]

def expression (filter : Filter) : Expression := filter.zipIdx.foldl addClause .empty

end Filter

end SharedTable
