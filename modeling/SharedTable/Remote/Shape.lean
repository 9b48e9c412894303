import SharedTable.Remote.Wire

/-!
Shapes of the parts of a reply that nobody uses. A reply with a part of another shape is malformed as
a whole, so those parts are checked too.
-/

set_option autoImplicit false

namespace SharedTable.Remote

inductive Shape where
  | text
  | quantity
  | attributes
  | list (items : Shape)
  | map (values : Shape)
  -- An object whose members have these shapes, unless they are absent or `null`; others are
  -- skipped.
  | object (members : List (String × Shape))
  deriving Repr

namespace Shape

-- A quantity is a finite number, or a text for what is not finite.
def isQuantity : Document → Bool
  | .number n => n.isSome
  | .string raw => (Document.unescape? raw).any Number.isNonFinite
  | _ => false

mutual

def fits : Shape → Nat → Document → Bool
  | .text, room, document => (Document.string? room document).isSome
  | .quantity, _, document => isQuantity document
  | .attributes, room, document => (AttributeMap.ofDocument? room document).isSome
  | .list items, room + 1, .list held => held.all fun item => items.fits room item
  | .list _, _, _ => false
  | .map values, room, document =>
    (Document.members? room document).any fun held =>
      held.entries.all fun (_, value) => values.fits held.room value
  | .object members, room, document =>
    (Document.members? room document).any fun held => held.entries.all fun (name, value) =>
      value.isNull || memberFits members held.room name value

def memberFits : List (String × Shape) → Nat → String → Document → Bool
  | [], _, _, value => value.canBeSkipped
  | (name, shape) :: rest, room, other, value =>
    if name = other then shape.fits room value else memberFits rest room other value

end

def check (shape : Shape) : Document.Reading Unit := fun room document =>
  if shape.fits room document then some () else none

def capacity : Shape := .object [
  ("ReadCapacityUnits", .quantity), ("WriteCapacityUnits", .quantity), ("CapacityUnits", .quantity)]

def vectorTraffic : Shape := .object [
  ("VectorSearchRequestBytes", .quantity), ("VectorWriteRequestBytes", .quantity)]

def consumed : Shape := .object [
  ("TableName", .text), ("CapacityUnits", .quantity), ("ReadCapacityUnits", .quantity),
  ("WriteCapacityUnits", .quantity), ("Table", capacity),
  ("LocalSecondaryIndexes", .map capacity), ("GlobalSecondaryIndexes", .map capacity),
  ("VectorIndexes", .map vectorTraffic)]

def collection : Shape := .object [
  ("ItemCollectionKey", .attributes), ("SizeEstimateRangeGB", .list .quantity)]

def reasons : Shape := .list (.object [("reason", .text), ("resource", .text)])

end Shape

end SharedTable.Remote
