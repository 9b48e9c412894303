import SharedTable.Remote.Call
import SharedTable.Remote.Shape

set_option autoImplicit false

namespace SharedTable.Remote

inductive Reply where
  | answer (status : Nat) (body : String)
  | timeout
  | broken
  deriving DecidableEq, Repr

def answerDocument? (body : String) : Option Document :=
  if body.isEmpty then some (.object []) else Document.ofText? body

structure QueryReply where
  items : List AttributeMap
  count : Int
  lastKey : Option AttributeMap

structure BatchGetReply where
  found : Pending (List AttributeMap)
  unprocessed : Pending KeyRequest

namespace QueryReply

def ofDocument? : Document.Reading QueryReply := fun room document => do
  let members ← Document.membersOf?
    ["Items", "Count", "ScannedCount", "LastEvaluatedKey", "ConsumedCapacity"] room document
  let items ← members.get? "Items" (Document.list? AttributeMap.ofDocument?)
  let count ← members.get? "Count" Document.count?
  let _ ← members.get? "ScannedCount" Document.count?
  let lastKey ← members.get? "LastEvaluatedKey" AttributeMap.ofDocument?
  let _ ← members.get? "ConsumedCapacity" Shape.consumed.check
  return ⟨items.getD [], count.getD 0, lastKey⟩

end QueryReply

def itemOfDocument? : Document.Reading (Option AttributeMap) := fun room document => do
  let members ← Document.membersOf? ["Item", "ConsumedCapacity"] room document
  let item ← members.get? "Item" AttributeMap.ofDocument?
  let _ ← members.get? "ConsumedCapacity" Shape.consumed.check
  return item

def acknowledged? : Document.Reading Unit :=
  (Shape.object [("Attributes", .attributes), ("ConsumedCapacity", .consumed),
    ("ItemCollectionMetrics", .collection)]).check

def KeyRequest.ofDocument? : Document.Reading KeyRequest := fun room document => do
  let members ← Document.membersOf?
    ["Keys", "AttributesToGet", "ConsistentRead", "ProjectionExpression",
      "ExpressionAttributeNames"] room document
  let keys ← members.get? "Keys" (Document.list? AttributeMap.ofDocument?)
  let attributes ← members.get? "AttributesToGet" (Document.list? Document.string?)
  let consistent ← members.get? "ConsistentRead" Document.bool?
  let projection ← members.get? "ProjectionExpression" Document.string?
  let names ← members.get? "ExpressionAttributeNames" (Document.map? Document.string?)
  return ⟨keys.getD [], attributes, consistent, projection, names⟩

def partOfDocument? (name : String) : Document.Reading AttributeMap := fun room document => do
  let members ← Document.membersOf? [name] room document
  return (← members.get? name AttributeMap.ofDocument?).getD []

def WriteEntry.ofDocument? : Document.Reading WriteEntry := fun room document => do
  let members ← Document.membersOf? ["PutRequest", "DeleteRequest"] room document
  let put ← members.get? "PutRequest" (partOfDocument? "Item")
  let delete ← members.get? "DeleteRequest" (partOfDocument? "Key")
  return ⟨put, delete⟩

def BatchGetReply.ofDocument? : Document.Reading BatchGetReply := fun room document => do
  let members ← Document.membersOf? ["Responses", "UnprocessedKeys", "ConsumedCapacity"] room document
  let found ← members.get? "Responses" (Document.map? (Document.list? AttributeMap.ofDocument?))
  let unprocessed ← members.get? "UnprocessedKeys" (Document.map? KeyRequest.ofDocument?)
  let _ ← members.get? "ConsumedCapacity" (Shape.list .consumed).check
  return ⟨found.getD [], unprocessed.getD []⟩

def unprocessedEntries? : Document.Reading (Pending (List WriteEntry)) := fun room document => do
  let members ← Document.membersOf?
    ["UnprocessedItems", "ItemCollectionMetrics", "ConsumedCapacity"] room document
  let unprocessed ←
    members.get? "UnprocessedItems" (Document.map? (Document.list? WriteEntry.ofDocument?))
  let _ ← members.get? "ItemCollectionMetrics" (Shape.map (.list .collection)).check
  let _ ← members.get? "ConsumedCapacity" (Shape.list .consumed).check
  return unprocessed.getD []

end SharedTable.Remote
