import SharedTable.Engine

/-!
Tables held in memory. A table maps primary keys to items; it comes into being with the first write.
Every call checks all of its arguments before it changes anything.
-/

set_option autoImplicit false

namespace SharedTable

abbrev Store := Std.ExtTreeMap String Contents

namespace Store

def contents (store : Store) (table : String) : Contents := store.getD table ∅

def size (store : Store) (table : String) : Nat := (store.contents table).size

def items (store : Store) (table : String) : List Item := (store.contents table).values

def get? (store : Store) (table : String) (key : PrimaryKey) : Option Item :=
  (store.contents table)[key]?

def itemKey (item : Item) : Except Fault PrimaryKey :=
  match PrimaryKey.ofItem? item with
  | some key => return key
  | none => throw (.data .keyless)

def put (store : Store) (table : String) (item : Item) (condition : PutCondition) :
    Except Fault Store := do
  let key ← itemKey item
  let contents := store.contents table
  if condition = .ifAbsent && contents.contains key then throw .conditionFailed
  return store.insert table (contents.insert key item)

def delete (store : Store) (table : String) (key : PrimaryKey) : Store :=
  match store[table]? with
  | some contents => store.insert table (contents.erase key)
  | none => store

def repeatedKey? : List PrimaryKey → List PrimaryKey → Option PrimaryKey
  | _, [] => none
  | seen, key :: rest => if seen.contains key then some key else repeatedKey? (key :: seen) rest

def refuseRepeats (operation : Operation) (keys : List PrimaryKey) : Except Fault Unit :=
  match repeatedKey? [] keys with
  | some key => throw (.engine operation (.duplicateKey key))
  | none => return ()

-- Items come back in the order of their primary keys, not in that of the request.
def batchGet (store : Store) (limit : Nat) (table : String) (keys : List PrimaryKey) :
    Except Fault (List Item) := do
  if limit < keys.length then throw (.engine .batchGetItem (.tooManyKeys keys.length limit))
  refuseRepeats .batchGetItem keys
  let sorted := keys.mergeSort fun a b => (compare a b).isLE
  return sorted.filterMap (store.get? table)

def batchWrite (store : Store) (limit : Nat) (table : String) (puts : List Item)
    (deletes : List PrimaryKey) : Except Fault Store := do
  let entries := puts.length + deletes.length
  if limit < entries then throw (.engine .batchWriteItem (.tooManyEntries entries limit))
  let putKeys ← puts.mapM itemKey
  refuseRepeats .batchWriteItem (putKeys ++ deletes)
  let written := (store.contents table).insertMany (putKeys.zip puts)
  return store.insert table (deletes.foldl Std.ExtTreeMap.erase written)

end Store

end SharedTable
