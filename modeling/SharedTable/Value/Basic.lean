import Std.Data.ExtTreeMap
import SharedTable.Number.Basic

/-!
Values of records, and field maps. A `Value` lists the members of an object in key order; a `Fields`
is a map from field names, in which order plays no part.
-/

set_option autoImplicit false

namespace SharedTable

inductive Value where
  | null
  | bool (b : Bool)
  | number (n : Number)
  | string (s : String)
  | array (items : List Value)
  | object (members : List (String × Value))
  deriving Repr

abbrev Fields := Std.ExtTreeMap String Value

namespace Value

instance : Inhabited Value := ⟨.null⟩

def isNull : Value → Bool
  | .null => true
  | _ => false

def isObject : Value → Bool
  | .object _ => true
  | _ => false

def string? : Value → Option String
  | .string s => some s
  | _ => none

-- The fields of an object; of members with one name the last counts.
def fields? : Value → Option Fields
  | .object members => some (.ofList members)
  | _ => none

def ofFields (fields : Fields) : Value := .object fields.toList

def ofInt (n : Int) : Value := .number (.ofInt n)

def ofNat (n : Nat) : Value := .ofInt n

mutual

def same : Value → Value → Bool
  | .null, .null => true
  | .bool a, .bool b => a == b
  | .number m, .number n => m.same n
  | .string s, .string t => s == t
  | .array xs, .array ys => sameItems xs ys
  | .object xs, .object ys => sameMembers xs ys
  | _, _ => false

def sameItems : List Value → List Value → Bool
  | [], [] => true
  | x :: xs, y :: ys => same x y && sameItems xs ys
  | _, _ => false

def sameMembers : List (String × Value) → List (String × Value) → Bool
  | [], [] => true
  | (name, x) :: xs, (other, y) :: ys => name == other && same x y && sameMembers xs ys
  | _, _ => false

end

end Value

namespace Fields

-- The value of a field, where `null` counts as absent.
def present? (fields : Fields) (name : String) : Option Value :=
  fields[name]?.filter fun value => !value.isNull

def text? (fields : Fields) (name : String) : Option String :=
  fields[name]?.bind Value.string?

end Fields

end SharedTable
