import SharedTable.Condition.Expression
import SharedTable.Engine
import SharedTable.Remote.Wire
import SharedTable.Text.Characters
import SharedTable.Value.TextMap

set_option autoImplicit false

namespace SharedTable.Remote

/-- What is to be done for each table, in the order of their names. -/
abbrev Pending (ε : Type) := List (String × ε)

namespace Pending

variable {ε : Type}

def total (size : ε → Nat) (pending : Pending ε) : Nat :=
  pending.foldl (fun sum table => sum + size table.2) 0

def nonempty (size : ε → Nat) (pending : Pending ε) : Pending ε :=
  pending.filter fun table => size table.2 != 0

end Pending

structure KeyRequest where
  keys : List AttributeMap
  attributes : Option (List String)
  consistent : Option Bool
  projection : Option String
  names : Option (List (String × String))

def KeyRequest.ofKeys (keys : List AttributeMap) : KeyRequest := ⟨keys, none, none, none, none⟩

structure WriteEntry where
  put : Option AttributeMap
  delete : Option AttributeMap

inductive Call where
  | query (request : Request) (counting : Bool)
  | getItem (table : String) (key : PrimaryKey)
  | putItem (table : String) (item : AttributeMap) (condition : PutCondition)
  | deleteItem (table : String) (key : PrimaryKey)
  | batchGet (pending : Pending KeyRequest)
  | batchWrite (pending : Pending (List WriteEntry))

def body (members : List (String × Option Value)) : Value :=
  .ofFields (.ofList (members.filterMap fun (name, value?) => value?.map fun value => (name, value)))

def wireTexts (texts : List (String × String)) : Value :=
  TextMap.toValue (.ofList texts)

namespace KeyRequest

def wire (request : KeyRequest) : Value :=
  body [
    ("Keys", some (.array (request.keys.map AttributeMap.wire))),
    ("AttributesToGet", request.attributes.map fun names => .array (names.map .string)),
    ("ConsistentRead", request.consistent.map .bool),
    ("ProjectionExpression", request.projection.map .string),
    ("ExpressionAttributeNames", request.names.map wireTexts)]

def isKnown (request : KeyRequest) : Bool := request.keys.all AttributeMap.isKnown

end KeyRequest

namespace WriteEntry

def wire (entry : WriteEntry) : Value :=
  let delete := entry.delete.map fun key => ("DeleteRequest", .object [("Key", key.wire)])
  let put := entry.put.map fun item => ("PutRequest", .object [("Item", item.wire)])
  .object (delete.toList ++ put.toList)

def isKnown (entry : WriteEntry) : Bool :=
  entry.put.all AttributeMap.isKnown && entry.delete.all AttributeMap.isKnown

end WriteEntry

namespace Call

def operation : Call → Operation
  | .query .. => .query
  | .getItem .. => .getItem
  | .putItem .. => .putItem
  | .deleteItem .. => .deleteItem
  | .batchGet .. => .batchGetItem
  | .batchWrite .. => .batchWriteItem

def wireValues (values : Fields) : Value := (AttributeMap.ofItem values).wire

def largestLimit : Nat := 2147483647

def queryBody (request : Request) (counting : Bool) : Value :=
  let key := request.condition.expression
  let filter := request.filter.expression
  body [
    ("TableName", some (.string request.table)),
    ("IndexName", request.slot.map fun slot => .string slot.name),
    ("KeyConditionExpression", some (.string key.text)),
    ("FilterExpression", if request.filter.isEmpty then none else some (.string filter.text)),
    ("ExpressionAttributeNames", some (TextMap.toValue (key.names.insertMany filter.names.toList))),
    ("ExpressionAttributeValues", some (wireValues (key.values.insertMany filter.values.toList))),
    ("Limit", request.limit.map fun limit => .ofNat (min limit largestLimit)),
    ("ExclusiveStartKey", request.startKey.map fun key => (AttributeMap.ofLastKey key).wire),
    ("ScanIndexForward", some (.bool request.forward)),
    ("Select", if counting then some (.string "COUNT") else none)]

def absence : List (String × Option Value) :=
  [("ConditionExpression", some (.string "attribute_not_exists(#pk) AND attribute_not_exists(#sk)")),
    ("ExpressionAttributeNames",
      some (.object [("#pk", .string partitionAttr), ("#sk", .string sortAttr)]))]

def pendingBody {ε : Type} (wire : ε → Value) (pending : Pending ε) : Value :=
  .object [("RequestItems", .ofFields (.ofList (pending.map fun table => (table.1, wire table.2))))]

def request : Call → Value
  | .query request counting => queryBody request counting
  | .getItem table key | .deleteItem table key =>
    body [("TableName", some (.string table)), ("Key", some (AttributeMap.ofKey key).wire)]
  | .putItem table item condition =>
    body ([("TableName", some (.string table)), ("Item", some item.wire)] ++
      if condition = .ifAbsent then absence else [])
  | .batchGet pending => pendingBody KeyRequest.wire pending
  | .batchWrite pending => pendingBody (fun entries => .array (entries.map WriteEntry.wire)) pending

def canBeMade : Call → Bool
  | .query request _ => !Text.isBlank request.table
  | .getItem table _ | .deleteItem table _ => !Text.isBlank table
  | .putItem table item _ => !Text.isBlank table && item.isKnown
  | .batchGet pending => pending.all fun table => table.2.isKnown
  | .batchWrite pending => pending.all fun table => table.2.all WriteEntry.isKnown

end Call

end SharedTable.Remote
