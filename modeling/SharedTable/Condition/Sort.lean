import SharedTable.Schema.Basic
import SharedTable.Fault

/-!
Conditions on sort keys. A `SortFilter` speaks of declared sort fields; compiling it gives a
`SortCondition`, which speaks of the encoded sort key.
-/

set_option autoImplicit false

namespace SharedTable

inductive RangeOperator where
  | beginsWith
  | gte
  | lte
  | gt
  | lt
  deriving DecidableEq, Repr

def RangeOperator.holds (operator : RangeOperator) (key bound : String) : Bool :=
  match operator with
  | .beginsWith => bound.toList.isPrefixOf key.toList
  | .gte => decide (bound ≤ key)
  | .lte => decide (key ≤ bound)
  | .gt => decide (bound < key)
  | .lt => decide (key < bound)

inductive Operand where
  | exact (value : Value)
  | range (operator : RangeOperator) (value : Value)
  deriving Repr

def Operand.value : Operand → Value
  | .exact value => value
  | .range _ value => value

-- An exact `null` asks nothing; a range operator always does.
def Operand.isGiven : Operand → Bool
  | .exact value => !value.isNull
  | .range _ _ => true

inductive SortFilter where
  | unbounded
  | fields (operands : List (String × Operand))
  -- The keys from one partial key up to another, both included.
  | between (lower upper : Fields)

namespace SortFilter

def exact (values : Fields) : SortFilter :=
  .fields (values.toList.map fun (field, value) => (field, .exact value))

-- Asks one thing more. Only a list of operands is extended; other filters are replaced.
def and (filter : SortFilter) (field : String) (operand : Operand) : SortFilter :=
  match filter with
  | .fields operands => .fields (operands ++ [(field, operand)])
  | _ => .fields [(field, operand)]

end SortFilter

inductive SortCondition where
  | equals (key : String)
  | compares (operator : RangeOperator) (bound : String)
  | between (low high : String)
  deriving DecidableEq, Repr

def SortCondition.holds (condition : SortCondition) (key : String) : Bool :=
  match condition with
  | .equals wanted => key == wanted
  | .compares operator bound => operator.holds key bound
  | .between low high => decide (low ≤ key) && decide (key ≤ high)

namespace SortFilter

-- The places of the declared sort fields, each with the operand given for it.
abbrev Places := List (String × Option Operand)

def place (places : Places) (given : String × Operand) : Except FilterFault Places :=
  match places.findIdx? fun held => held.1 == given.1 with
  | none => throw (.undeclared given.1)
  | some position =>
    match places[position]? with
    | some (_, some _) => throw (.repeated given.1)
    | _ =>
      if given.2.isGiven then return places.set position (given.1, some given.2) else return places

def taken (places : Places) : Places :=
  (places.reverse.dropWhile fun held => held.2.isNone).reverse

-- The segments of the places, none of which may be free, and the operator of the last one.
def segments (last : String) : Places → Except FilterFault (List String × Option RangeOperator)
  | [] => return ([], none)
  | (field, none) :: _ => throw (.gap field last)
  | (field, some (.exact value)) :: rest => do
    let (more, operator) ← segments last rest
    return (Key.segment field value.keyText :: more, operator)
  | (field, some (.range operator value)) :: rest =>
    if rest.isEmpty then return ([Key.segment field value.keyText], some operator)
    else throw (.misplacedOperator field)

/--
The condition of a list of operands. A key on all fields is compared as a whole; a shorter one ends
in a separator, so that a value does not match longer values that begin with it.
-/
def compileFields (sortFields : List String) (operands : List (String × Operand)) :
    Except FilterFault (Option SortCondition) := do
  let places ← operands.foldlM place (sortFields.map fun field => (field, none))
  let taken := taken places
  match taken.getLast? with
  | none => return none
  | some (last, _) =>
    let (segments, operator) ← segments last taken
    let key := Key.joined segments
    match operator with
    | some operator => return some (.compares operator key)
    | none =>
      if taken.length = sortFields.length then return some (.equals key)
      else return some (.compares .beginsWith (key ++ Key.separator))

-- The key of one end of a range, which gives the first few sort fields and no others.
def compileBound (typeName : String) (sortFields : List String) (bound : Fields) :
    Except FilterFault String := do
  match bound.keys.find? fun field => !sortFields.contains field with
  | some field => throw (.undeclared field)
  | none => pure ()
  if bound.values.any Value.isObject then throw .operatorInBound
  let given (field : String) : Bool := (bound.present? field).isSome
  let leading := sortFields.takeWhile given
  let rest := sortFields.dropWhile given
  match rest, rest.find? given with
  | skipped :: _, some stray => throw (.boundSkips skipped stray)
  | _, _ => pure ()
  match leading, sortFields with
  | [], first :: _ => throw (.boundEmpty first)
  | _, _ => return Key.sort typeName leading bound

-- Without declared sort fields the sort key of every record is the type name.
def compile (typeName : String) (sortFields : List String) (filter : SortFilter) :
    Except FilterFault (Option SortCondition) :=
  if sortFields.isEmpty then
    match filter with
    | .unbounded | .fields [] => return some (.equals typeName)
    | _ => throw (.noSortFields typeName)
  else
    match filter with
    | .unbounded => return none
    | .between lower upper => do
      let low ← compileBound typeName sortFields lower
      let high ← compileBound typeName sortFields upper
      return some (.between low high)
    | .fields operands => compileFields sortFields operands

end SortFilter

end SharedTable
