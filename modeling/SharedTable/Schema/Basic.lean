import SharedTable.Key.Text

set_option autoImplicit false

namespace SharedTable

structure KeyFields where
  partition : List String
  sort : List String
  deriving DecidableEq, Repr

namespace KeyFields

def all (key : KeyFields) : List String := key.partition ++ key.sort

def partitionKey (key : KeyFields) (typeName : String) (values : Fields) : String :=
  Key.partition typeName key.partition values

def sortKey (key : KeyFields) (typeName : String) (values : Fields) : String :=
  Key.sort typeName key.sort values

end KeyFields

structure Registration where
  name : String
  key : KeyFields
  deriving DecidableEq, Repr

structure Index where
  slot : IndexSlot
  name : String
  key : KeyFields
  deriving DecidableEq, Repr

def Index.isPopulatedBy (index : Index) (values : Fields) : Bool :=
  index.key.all.all fun field => (values.present? field).isSome

structure Schema where
  typeName : String
  key : KeyFields
  slots : IndexSlot → Option Registration

namespace Schema

-- Without declared key fields, all records of the type share one key.
def empty (typeName : String) : Schema := ⟨typeName, ⟨[], []⟩, fun _ => none⟩

def indexAt? (schema : Schema) (slot : IndexSlot) : Option Index :=
  (schema.slots slot).map fun registration => ⟨slot, registration.name, registration.key⟩

def indexes (schema : Schema) : List Index := IndexSlot.all.filterMap schema.indexAt?

def index? (schema : Schema) (name : String) : Option Index :=
  schema.indexes.find? fun index => index.name == name

def primaryKey (schema : Schema) (values : Fields) : PrimaryKey :=
  ⟨schema.key.partitionKey schema.typeName values, schema.key.sortKey schema.typeName values⟩

def indexKey (schema : Schema) (index : Index) (values : Fields) : String × String :=
  (index.key.partitionKey schema.typeName values, index.key.sortKey schema.typeName values)

end Schema

end SharedTable
