import SharedTable.Schema.Basic

/-!
Declaring a schema step by step. A step that names a field the record type does not have, or an
index name that another slot holds, is misuse and ends the declaration.
-/

set_option autoImplicit false

namespace SharedTable

inductive Declaration where
  | key (fields : KeyFields)
  | index (slot : IndexSlot) (name : String) (fields : KeyFields)
  deriving DecidableEq, Repr

inductive SchemaFault where
  | unknownField (typeName field : String)
  | nameTaken (typeName name : String) (slot : IndexSlot)
  deriving DecidableEq, Repr

def SchemaFault.message : SchemaFault → String
  | .unknownField typeName field =>
    typeName ++ ": '" ++ field ++ "' is not a field of the record type"
  | .nameTaken typeName name slot =>
    typeName ++ ": index name '" ++ name ++ "' is already registered on " ++ slot.name

namespace Schema

def unknownField? (known : List String) (fields : KeyFields) : Option String :=
  fields.all.find? fun field => !known.contains field

def holder? (schema : Schema) (slot : IndexSlot) (name : String) : Option Index :=
  schema.indexes.find? fun index => index.name == name && index.slot != slot

-- Applies one step. A taken name is reported before unknown fields.
def declare (known : List String) (schema : Schema) : Declaration → Except SchemaFault Schema
  | .key fields =>
    match unknownField? known fields with
    | some field => throw (.unknownField schema.typeName field)
    | none => return { schema with key := fields }
  | .index slot name fields =>
    match schema.holder? slot name with
    | some other => throw (.nameTaken schema.typeName name other.slot)
    | none =>
      match unknownField? known fields with
      | some field => throw (.unknownField schema.typeName field)
      | none =>
        let slots := fun other => if other = slot then some ⟨name, fields⟩ else schema.slots other
        return { schema with slots := slots }

def build (known : List String) (typeName : String) (steps : List Declaration) :
    Except SchemaFault Schema :=
  steps.foldlM (declare known) (empty typeName)

end Schema

end SharedTable
