import SharedTable.Schema.Basic
import SharedTable.Fault

/-!
Items: what is stored for a record. An item holds the fields of the record and the attributes derived
from them; reading takes away every reserved attribute, whichever indexes are declared by then.
-/

set_option autoImplicit false

namespace SharedTable

abbrev Item := Fields

abbrev Contents := Std.ExtTreeMap PrimaryKey Item

namespace Item

def indexAttrs (schema : Schema) (fields : Fields) (index : Index) : List (String × Value) :=
  if index.isPopulatedBy fields then
    let (partition, sort) := schema.indexKey index fields
    [(index.slot.partitionAttr, .string partition), (index.slot.sortAttr, .string sort)]
  else []

def derived (schema : Schema) (fields : Fields) : List (String × Value) :=
  let key := schema.primaryKey fields
  [(partitionAttr, .string key.partition), (sortAttr, .string key.sort),
    (typeAttr, .string schema.typeName)] ++
    schema.indexes.flatMap (indexAttrs schema fields)

-- A derived attribute takes the place of a field of the same name.
def encode (schema : Schema) (fields : Fields) : Item :=
  fields.insertMany (derived schema fields)

def strip (item : Item) : Fields :=
  item.filter fun name _ => !reservedAttrs.contains name

def decode {α : Type} (type : RecordType α) (schema : Schema) (item : Item) : Except Fault α :=
  match type.ofFields item.strip with
  | .ok record => return record
  | .error fault => throw (.data (.record schema.typeName fault))

end Item

end SharedTable
