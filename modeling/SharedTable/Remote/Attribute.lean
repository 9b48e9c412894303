import SharedTable.Fault
import SharedTable.Item
import SharedTable.Number.Reader

/-!
Typed attributes, the form in which the remote service keeps values. Numbers travel as text; sets
come back as lists; binary attributes are never written and are refused.
-/

set_option autoImplicit false

namespace SharedTable.Remote

inductive Attribute where
  | null (flag : Bool)
  | bool (b : Bool)
  | number (text : String)
  | string (s : String)
  | strings (items : List String)
  | numbers (texts : List String)
  | binary (bytes : List UInt8)
  | binaries (items : List (List UInt8))
  | list (items : List Attribute)
  | map (members : List (String × Attribute))
  | unknown
  deriving Repr

abbrev AttributeMap := List (String × Attribute)

namespace Attribute

mutual

def ofValue : Value → Attribute
  | .null => .null true
  | .bool b => .bool b
  | .number n => .number (String.ofList (n.write Layout.value))
  | .string s => .string s
  | .array items => .list (ofItems items)
  | .object members => .map (ofMembers members)

def ofItems : List Value → List Attribute
  | [] => []
  | item :: rest => ofValue item :: ofItems rest

def ofMembers : List (String × Value) → List (String × Attribute)
  | [] => []
  | (name, value) :: rest => (name, ofValue value) :: ofMembers rest

end

def shownBytes (bytes : List UInt8) : String :=
  "Blob \x7b inner: " ++ String.ofList (bytes.flatMap fun b => Text.hexPair b.toNat) ++ " \x7d"

def shownList (items : List String) : String := "[" ++ ", ".intercalate items ++ "]"

mutual

def shown : Attribute → String
  | .null flag => "Null(" ++ toString flag ++ ")"
  | .bool b => "Bool(" ++ toString b ++ ")"
  | .number text => "N(" ++ Text.quoted text ++ ")"
  | .string s => "S(" ++ Text.quoted s ++ ")"
  | .strings items => "Ss(" ++ shownList (items.map Text.quoted) ++ ")"
  | .numbers texts => "Ns(" ++ shownList (texts.map Text.quoted) ++ ")"
  | .binary bytes => "B(" ++ shownBytes bytes ++ ")"
  | .binaries items => "Bs(" ++ shownList (items.map shownBytes) ++ ")"
  | .list items => "L(" ++ shownList (shownItems items) ++ ")"
  | .map members => "M(\x7b" ++ ", ".intercalate (shownMembers members) ++ "\x7d)"
  | .unknown => "Unknown"

def shownItems : List Attribute → List String
  | [] => []
  | item :: rest => shown item :: shownItems rest

def shownMembers : List (String × Attribute) → List String
  | [] => []
  | (name, attr) :: rest =>
    (Text.quoted name ++ ": " ++ shown attr) :: shownMembers rest

end

def numberValue (text : String) : Except DataFault Value :=
  match Number.ofText? text with
  | some n => return .number n
  | none => throw (.number text)

mutual

def toValue : Attribute → Except DataFault Value
  | .null _ => return .null
  | .bool b => return .bool b
  | .number text => numberValue text
  | .string s => return .string s
  | .strings items => return .array (items.map .string)
  | .numbers texts => do return .array (← texts.mapM numberValue)
  | .list items => do return .array (← toItems items)
  | .map members => do return .object (← toMembers members)
  | refused => throw (.unsupportedAttribute refused.shown)

def toItems : List Attribute → Except DataFault (List Value)
  | [] => return []
  | item :: rest => do
    let value ← toValue item
    let more ← toItems rest
    return value :: more

def toMembers : List (String × Attribute) → Except DataFault (List (String × Value))
  | [] => return []
  | (name, attr) :: rest => do
    let value ← toValue attr
    let more ← toMembers rest
    return (name, value) :: more

end

end Attribute

namespace AttributeMap

def ofItem (item : Item) : AttributeMap := Attribute.ofMembers item.toList

def toItem (attributes : AttributeMap) : Except DataFault Item := do
  return .ofList (← Attribute.toMembers attributes)

def ofKey (key : PrimaryKey) : AttributeMap :=
  [(partitionAttr, .string key.partition), (sortAttr, .string key.sort)]

def ofLastKey (lastKey : LastKey) : AttributeMap :=
  lastKey.toList.map fun (name, text) => (name, .string text)

def keyText : String × Attribute → Except DataFault (String × String)
  | (name, .string s) => return (name, s)
  | (name, other) => throw (.keyAttribute name other.shown)

def toLastKey (attributes : AttributeMap) : Except DataFault LastKey := do
  return .ofList (← attributes.mapM keyText)

end AttributeMap

end SharedTable.Remote
