import SharedTable.Value.Text

set_option autoImplicit false

namespace SharedTable

inductive RecordFault where
  | wrongType (found : Value) (wanted : String)
  | wrongValue (found : Value) (wanted : String)
  | missingField (name : String)
  | unknownField (name : String) (known : List String)

namespace RecordFault

def offered : List String → String
  | [] => "there are no fields"
  | [a] => "expected `" ++ a ++ "`"
  | [a, b] => "expected `" ++ a ++ "` or `" ++ b ++ "`"
  | names => "expected one of " ++ ", ".intercalate (names.map fun name => "`" ++ name ++ "`")

def message : RecordFault → String
  | .wrongType found wanted => "invalid type: " ++ found.described ++ ", expected " ++ wanted
  | .wrongValue found wanted => "invalid value: " ++ found.described ++ ", expected " ++ wanted
  | .missingField name => "missing field `" ++ name ++ "`"
  | .unknownField name known => "unknown field `" ++ name ++ "`, " ++ offered known

end RecordFault

structure RecordType (α : Type) where
  fields : List String
  toValue : α → Value
  ofFields : Fields → Except RecordFault α

namespace RecordType

def RoundTrips {α : Type} (type : RecordType α) : Prop :=
  ∀ record fields, (type.toValue record).fields? = some fields → type.ofFields fields = .ok record

def untyped (fields : List String) : RecordType Value where
  fields := fields
  toValue value := value
  ofFields fields := .ok (.ofFields fields)

end RecordType

end SharedTable
