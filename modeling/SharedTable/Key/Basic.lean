import SharedTable.Value.Basic

/-!
Primary keys of items, and the names of the attributes that hold derived keys. Keys are ordered by
partition key and then by sort key, each by code point.
-/

set_option autoImplicit false

namespace SharedTable

def partitionAttr : String := "partitionKey"

def sortAttr : String := "sortKey"

def typeAttr : String := "typeTag"

inductive IndexSlot where
  | gsi1
  | gsi2
  | gsi3
  | gsi4
  | gsi5
  deriving DecidableEq, Repr

namespace IndexSlot

def all : List IndexSlot := [.gsi1, .gsi2, .gsi3, .gsi4, .gsi5]

def name : IndexSlot → String
  | .gsi1 => "gsi1"
  | .gsi2 => "gsi2"
  | .gsi3 => "gsi3"
  | .gsi4 => "gsi4"
  | .gsi5 => "gsi5"

def partitionAttr (slot : IndexSlot) : String := slot.name ++ "_partitionKey"

def sortAttr (slot : IndexSlot) : String := slot.name ++ "_sortKey"

end IndexSlot

-- The names that derived attributes take, whichever indexes a schema declares.
def reservedAttrs : List String :=
  [partitionAttr, sortAttr, typeAttr] ++
    IndexSlot.all.flatMap fun slot => [slot.partitionAttr, slot.sortAttr]

structure PrimaryKey where
  partition : String
  sort : String
  deriving DecidableEq, Repr

abbrev LastKey := Std.ExtTreeMap String String

namespace PrimaryKey

instance : Ord PrimaryKey where
  compare := compareLex (compareOn partition) (compareOn sort)

instance : Std.TransOrd PrimaryKey :=
  inferInstanceAs (Std.TransCmp (compareLex (compareOn partition) (compareOn sort)))

instance : Std.LawfulEqOrd PrimaryKey where
  compare_self := Std.ReflCmp.compare_self
  eq_of_compare := by
    intro a b same
    have parts : compareOn partition a b = .eq ∧ compareOn sort a b = .eq :=
      Ordering.then_eq_eq.mp same
    cases a
    cases b
    simp only [mk.injEq]
    exact ⟨Std.LawfulEqCmp.eq_of_compare parts.1, Std.LawfulEqCmp.eq_of_compare parts.2⟩

def ofItem? (item : Fields) : Option PrimaryKey := do
  return ⟨← item.text? partitionAttr, ← item.text? sortAttr⟩

def toLastKey (key : PrimaryKey) : LastKey :=
  .ofList [(partitionAttr, key.partition), (sortAttr, key.sort)]

end PrimaryKey

end SharedTable
