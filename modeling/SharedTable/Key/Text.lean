import SharedTable.Key.Basic
import SharedTable.Value.Text

/-!
The text of keys. Field names and rendered values are joined by a separator, so a key on the first
few sort fields is the beginning of the key on all of them.
-/

set_option autoImplicit false

namespace SharedTable

def Value.keyText : Value → String
  | .string s => s
  | .number n => n.padded
  | value => value.text

namespace Key

def separator : String := "#"

def missing : String := "undefined"

def segment (field value : String) : String := field ++ separator ++ value

def joined (segments : List String) : String := separator.intercalate segments

def partition (typeName : String) (fields : List String) (values : Fields) : String :=
  joined (typeName :: fields.map fun field =>
    segment field (((values.present? field).map Value.keyText).getD missing))

def sort (typeName : String) (fields : List String) (values : Fields) : String :=
  if fields.isEmpty then typeName
  else joined (fields.filterMap fun field =>
    (values.present? field).map fun value => segment field value.keyText)

end Key

end SharedTable
