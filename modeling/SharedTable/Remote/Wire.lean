import SharedTable.Remote.Attribute
import SharedTable.Remote.Document

/-!
Attributes on the wire: an object with a single member, whose name tells the type. Reading gives
nothing for what has no meaning. Inside an attribute members that are `null` count as absent; lists
and maps of attributes hold no `null`. What is written under a type that is not known is skipped.
-/

set_option autoImplicit false

namespace SharedTable.Remote

namespace Attribute

def wireBytes (bytes : List UInt8) : Value :=
  let symbols := Base64.encodePadded Base64.standard bytes
  .string (String.ofList (symbols.map fun symbol => Char.ofNat symbol.toNat))

mutual

def wire : Attribute → Value
  | .null flag => .object [("NULL", .bool flag)]
  | .bool b => .object [("BOOL", .bool b)]
  | .number text => .object [("N", .string text)]
  | .string s => .object [("S", .string s)]
  | .strings items => .object [("SS", .array (items.map .string))]
  | .numbers texts => .object [("NS", .array (texts.map .string))]
  | .binary bytes => .object [("B", wireBytes bytes)]
  | .binaries items => .object [("BS", .array (items.map wireBytes))]
  | .list items => .object [("L", .array (wireItems items))]
  | .map members => .object [("M", .object (wireMembers members))]
  | .unknown => .object []

def wireItems : List Attribute → List Value
  | [] => []
  | item :: rest => wire item :: wireItems rest

def wireMembers : List (String × Attribute) → List (String × Value)
  | [] => []
  | (name, attr) :: rest => (name, wire attr) :: wireMembers rest

end

mutual

def isKnown : Attribute → Bool
  | .unknown => false
  | .list items => areKnownItems items
  | .map members => areKnownMembers members
  | _ => true

def areKnownItems : List Attribute → Bool
  | [] => true
  | item :: rest => isKnown item && areKnownItems rest

def areKnownMembers : List (String × Attribute) → Bool
  | [] => true
  | (_, attr) :: rest => isKnown attr && areKnownMembers rest

end

-- Bytes are read without resolving escapes, which Base64 has no use for.
def bytesOf? : Document → Option (List UInt8)
  | .string raw => Base64.decodePadded? Base64.standard (Text.bytes raw)
  | _ => none

def types : List String := ["S", "N", "B", "SS", "NS", "BS", "M", "L", "NULL", "BOOL"]

-- Attributes in the order of their names; of a repeated name the last counts.
def sorted (members : List (String × Attribute)) : List (String × Attribute) :=
  (Std.ExtTreeMap.ofList members).toList

mutual

def ofDocument? : Document.Reading Attribute
  | room + 1, .object members =>
    match variants? room members with
    | some [attr] => some attr
    | _ => none
  | _, _ => none

def variants? (room : Nat) : List (String × Document) → Option (List Attribute)
  | [] => some []
  | (raw, value) :: rest =>
    if value.isNull then variants? room rest
    else do
      let name ← Document.unescape? raw
      let more ← variants? room rest
      if types.contains name then return (← variant? name room value) :: more
      else if !value.canBeSkipped then none
      else return if name = "__type" then more else .unknown :: more

def variant? (name : String) : Document.Reading Attribute
  | _, .string raw =>
    if name = "S" then (Document.unescape? raw).map .string
    else if name = "N" then (Document.unescape? raw).map .number
    else if name = "B" then (bytesOf? (.string raw)).map .binary
    else none
  | _, .bool b =>
    if name = "BOOL" then some (.bool b)
    else if name = "NULL" then some (.null b)
    else none
  | room + 1, .list items =>
    if name = "L" then (itemsOf? room items).map .list
    else if name = "SS" then (items.mapM (Document.string? room)).map .strings
    else if name = "NS" then (items.mapM (Document.string? room)).map .numbers
    else if name = "BS" then (items.mapM bytesOf?).map .binaries
    else none
  | room + 1, .object members =>
    if name = "M" then (membersOf? room members).map fun members => .map (sorted members) else none
  | _, _ => none

def itemsOf? (room : Nat) : List Document → Option (List Attribute)
  | [] => some []
  | document :: rest => do
    let attr ← ofDocument? room document
    let more ← itemsOf? room rest
    return attr :: more

def membersOf? (room : Nat) : List (String × Document) → Option (List (String × Attribute))
  | [] => some []
  | (raw, document) :: rest => do
    let name ← Document.unescape? raw
    let attr ← ofDocument? room document
    let more ← membersOf? room rest
    return (name, attr) :: more

end

end Attribute

namespace AttributeMap

def wire (attributes : AttributeMap) : Value := .object (Attribute.wireMembers attributes)

def isKnown (attributes : AttributeMap) : Bool := Attribute.areKnownMembers attributes

def ofDocument? : Document.Reading AttributeMap
  | room + 1, .object members => (Attribute.membersOf? room members).map Attribute.sorted
  | _, _ => none

end AttributeMap

end SharedTable.Remote
