import SharedTable.Record.Basic

/-!
Record types given by a list of typed fields. Reading looks at the fields of a map in the order of
their names and stops at the first that does not fit, then asks for the fields that are missing.
-/

set_option autoImplicit false

namespace SharedTable

inductive FieldKind where
  | text
  | natural
  | flag
  deriving DecidableEq, Repr

inductive Presence where
  | required
  | nullWhenAbsent
  | leftOutWhenAbsent
  deriving DecidableEq, Repr

structure FieldShape where
  name : String
  kind : FieldKind
  presence : Presence
  deriving DecidableEq, Repr

/-- Typed fields in the order of their declaration. A closed shape refuses fields it does not name. -/
structure RecordShape where
  fields : List FieldShape
  closed : Bool
  deriving DecidableEq, Repr

namespace FieldKind

def wanted : FieldKind → String
  | .text => "a string"
  | .natural => "u64"
  | .flag => "a boolean"

def check (kind : FieldKind) (value : Value) : Except RecordFault Unit :=
  match kind, value with
  | .text, .string _ => return ()
  | .flag, .bool _ => return ()
  | .natural, .number (.integer n) =>
    if n.val < 0 then throw (.wrongValue value kind.wanted) else return ()
  | _, _ => throw (.wrongType value kind.wanted)

end FieldKind

namespace FieldShape

def check (field : FieldShape) (value : Value) : Except RecordFault Unit :=
  if value.isNull && field.presence != .required then return () else field.kind.check value

def member? (field : FieldShape) (fields : Fields) : Except RecordFault (Option (String × Value)) :=
  match fields[field.name]?, field.presence with
  | none, .required => throw (.missingField field.name)
  | none, .nullWhenAbsent => return some (field.name, .null)
  | none, .leftOutWhenAbsent => return none
  | some value, .leftOutWhenAbsent => return if value.isNull then none else some (field.name, value)
  | some value, _ => return some (field.name, value)

end FieldShape

namespace RecordShape

def names (shape : RecordShape) : List String := shape.fields.map (·.name)

def checkField (shape : RecordShape) (field : String × Value) : Except RecordFault Unit :=
  match shape.fields.find? fun declared => declared.name == field.1 with
  | some declared => declared.check field.2
  | none => if shape.closed then throw (.unknownField field.1 shape.names) else return ()

def read (shape : RecordShape) (fields : Fields) : Except RecordFault Value := do
  fields.toList.forM shape.checkField
  let members ← shape.fields.mapM fun field => field.member? fields
  return .ofFields (.ofList (members.filterMap id))

def recordType (shape : RecordShape) : RecordType Value where
  fields := shape.names
  toValue value := value
  ofFields := shape.read

def task : RecordShape where
  fields :=
    [⟨"userId", .text, .required⟩, ⟨"taskId", .text, .required⟩, ⟨"status", .text, .required⟩,
      ⟨"updatedAt", .natural, .required⟩, ⟨"title", .text, .required⟩,
      ⟨"assignee", .text, .nullWhenAbsent⟩]
  closed := false

def order : RecordShape where
  fields :=
    [⟨"customerId", .text, .required⟩, ⟨"orderId", .text, .required⟩, ⟨"total", .natural, .required⟩,
      ⟨"paid", .flag, .required⟩, ⟨"region", .text, .leftOutWhenAbsent⟩]
  closed := false

def document : RecordShape where
  fields := [⟨"id", .text, .required⟩, ⟨"tag", .text, .required⟩]
  closed := true

end RecordShape

end SharedTable
