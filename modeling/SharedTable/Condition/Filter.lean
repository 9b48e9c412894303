import SharedTable.Value.Basic

/-!
Post-filters: clauses on any attributes, all of which must hold. Numbers are compared with numbers,
strings with strings and booleans with booleans; other pairs are only the same or not the same.
-/

set_option autoImplicit false

namespace SharedTable

inductive Comparison where
  | eq
  | ne
  | gt
  | gte
  | lt
  | lte
  | beginsWith
  deriving DecidableEq, Repr

inductive Test where
  | compare (comparison : Comparison) (value : Value)
  | between (low high : Value)
  deriving Repr

structure Clause where
  field : String
  test : Test
  deriving Repr

abbrev Filter := List Clause

namespace Filter

def matching (values : Fields) : Filter :=
  values.toList.map fun (field, value) => ⟨field, .compare .eq value⟩

end Filter

namespace Value

def order? : Value → Value → Option Ordering
  | .number m, .number n => some (compare m n)
  | .string s, .string t => some (compare s t)
  | .bool a, .bool b => some (compare a b)
  | _, _ => none

-- Equal in their order if they have one, and the same value otherwise.
def equals (a b : Value) : Bool :=
  match a.order? b with
  | some order => order == .eq
  | none => a.same b

def beginsWith : Value → Value → Bool
  | .string s, .string start => start.toList.isPrefixOf s.toList
  | _, _ => false

def isAtLeast (a b : Value) : Bool := (a.order? b).any fun order => order != .lt

def isAtMost (a b : Value) : Bool := (a.order? b).any fun order => order != .gt

def isAbove (a b : Value) : Bool := (a.order? b).any fun order => order == .gt

def isBelow (a b : Value) : Bool := (a.order? b).any fun order => order == .lt

end Value

namespace Comparison

def holds (comparison : Comparison) (actual expected : Value) : Bool :=
  match comparison with
  | .eq => actual.equals expected
  | .ne => !actual.equals expected
  | .gt => actual.isAbove expected
  | .gte => actual.isAtLeast expected
  | .lt => actual.isBelow expected
  | .lte => actual.isAtMost expected
  | .beginsWith => actual.beginsWith expected

end Comparison

namespace Test

def holds (test : Test) (actual : Value) : Bool :=
  match test with
  | .compare comparison expected => comparison.holds actual expected
  | .between low high => actual.isAtLeast low && actual.isAtMost high

-- Of an absent attribute only inequality holds.
def holdsOfAbsent : Test → Bool
  | .compare .ne _ => true
  | _ => false

end Test

def Clause.holds (clause : Clause) (item : Fields) : Bool :=
  match item.present? clause.field with
  | some actual => clause.test.holds actual
  | none => clause.test.holdsOfAbsent

def Filter.holds (filter : Filter) (item : Fields) : Bool :=
  filter.all fun clause => clause.holds item

end SharedTable
