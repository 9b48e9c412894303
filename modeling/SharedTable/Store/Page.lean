import SharedTable.Store.Basic

/-!
Pages of queries over tables in memory. Items are taken in the order of the queried sort attribute
and then of the primary key; the limit cuts before the post-filter is asked.
-/

set_option autoImplicit false

namespace SharedTable

structure Position where
  sort : String
  key : PrimaryKey
  deriving DecidableEq, Repr

namespace Position

instance : Ord Position where
  compare := compareLex (compareOn sort) (compareOn key)

instance : Std.TransOrd Position :=
  inferInstanceAs (Std.TransCmp (compareLex (compareOn sort) (compareOn key)))

instance : Std.LawfulEqOrd Position where
  compare_self := Std.ReflCmp.compare_self
  eq_of_compare := by
    intro a b same
    have parts : compareOn sort a b = .eq ∧ compareOn key a b = .eq :=
      Ordering.then_eq_eq.mp same
    cases a
    cases b
    simp only [mk.injEq]
    exact ⟨Std.LawfulEqCmp.eq_of_compare parts.1, Std.LawfulEqCmp.eq_of_compare parts.2⟩

def isBeyond (forward : Bool) (position start : Position) : Bool :=
  compare position start == if forward then .gt else .lt

def attr (startKey : LastKey) (name : String) : Except CursorFault String :=
  match startKey[name]? with
  | some text => return text
  | none => throw (.missing name)

-- The position that a start key names; it need not be that of an item.
def ofStartKey (startKey : LastKey) (sortAttr : String) : Except CursorFault Position := do
  let sort ← attr startKey sortAttr
  let partitionKey ← attr startKey SharedTable.partitionAttr
  let sortKey ← attr startKey SharedTable.sortAttr
  return ⟨sort, partitionKey, sortKey⟩

end Position

namespace Contents

def selected (contents : Contents) (condition : KeyCondition) : List (Position × Item) :=
  contents.toList.filterMap fun (key, item) =>
    if condition.holds item then
      (item.text? condition.sortAttr).map fun sort => (⟨sort, key⟩, item)
    else none

def inOrder (contents : Contents) (condition : KeyCondition) (forward : Bool) :
    List (Position × Item) :=
  let sorted := (contents.selected condition).mergeSort fun a b => (compare a.1 b.1).isLE
  if forward then sorted else sorted.reverse

def lastKey (condition : KeyCondition) (last : Position × Item) : LastKey :=
  let queried := [condition.partitionAttr, condition.sortAttr].filterMap fun attr =>
    (last.2.text? attr).map fun text => (attr, text)
  last.1.key.toLastKey.insertMany queried

def remaining (contents : Contents) (request : Request) :
    Except CursorFault (List (Position × Item)) := do
  let ordered := contents.inOrder request.condition request.forward
  match request.startKey with
  | none => return ordered
  | some startKey =>
    let start ← Position.ofStartKey startKey request.condition.sortAttr
    return ordered.filter fun placed => placed.1.isBeyond request.forward start

-- There is a last key exactly when the limit left items out behind a looked-at one.
def page (contents : Contents) (request : Request) : Except CursorFault QueryPage := do
  let remaining ← contents.remaining request
  let lookedAt := remaining.take (request.limit.getD remaining.length)
  let lastKey :=
    if lookedAt.length < remaining.length then lookedAt.getLast?.map (lastKey request.condition)
    else none
  return ⟨(lookedAt.map Prod.snd).filter request.filter.holds, lastKey⟩

end Contents

namespace Store

-- A page of a table; a table that was never written has one empty page, whatever the start key.
def page (store : Store) (request : Request) : Except CursorFault QueryPage :=
  match store[request.table]? with
  | some contents => contents.page request
  | none => return ⟨[], none⟩

end Store

end SharedTable
