import SharedTable.Number.Reader
import SharedTable.Remote.Token
import SharedTable.Value.Reader

/-!
Reply bodies as trees. Numbers are read leniently, members keep their order and repetitions, and
strings and names keep their escapes. Containers nest without limit in a tree, but readers count them:
only so many may nest in what is read, and somewhat more in a member that is skipped.
-/

set_option autoImplicit false

namespace SharedTable.Remote

inductive Document where
  | null
  | bool (b : Bool)
  -- Nothing is kept of a number that is too large for a double.
  | number (n : Option Number)
  | string (raw : String)
  | list (items : List Document)
  | object (members : List (String × Document))
  deriving Repr

namespace Document

-- A number starts with a digit or a minus sign, and may have leading zeros.
def numberOf? (letters : List Char) : Option Document :=
  if letters.head?.any (fun c => c = '-' || c.isDigit) && (Number.decimalOf? letters).isSome then
    some (.number (Number.ofText? (String.ofList letters)))
  else none

def ofWord? (letters : List Char) : Option Document :=
  if letters = "null".toList then some .null
  else if letters = "true".toList then some (.bool true)
  else if letters = "false".toList then some (.bool false)
  else numberOf? letters

-- An open container. What it holds so far is kept last first; a member may wait for its value.
inductive Frame where
  | list (done : List Document)
  | object (done : List (String × Document))
  | member (done : List (String × Document)) (name : String)

inductive Expect where
  | value
  | valueOrClose
  | name
  | nameOrClose
  | colon
  | commaOrClose
  deriving DecidableEq, Repr

inductive Progress where
  | within (expect : Expect) (frames : List Frame)
  | finished (document : Document)

namespace Progress

def settle (value : Document) : List Frame → Option Progress
  | [] => some (.finished value)
  | .list done :: frames => some (.within .commaOrClose (.list (value :: done) :: frames))
  | .member done name :: frames =>
    some (.within .commaOrClose (.object ((name, value) :: done) :: frames))
  | .object _ :: _ => none

def value (frames : List Frame) : Token → Option Progress
  | .openList => some (.within .valueOrClose (.list [] :: frames))
  | .openObject => some (.within .nameOrClose (.object [] :: frames))
  | .string raw => settle (.string raw) frames
  | .word letters => (ofWord? letters).bind fun document => settle document frames
  | _ => none

def name : List Frame → Token → Option Progress
  | .object done :: frames, .string raw => some (.within .colon (.member done raw :: frames))
  | _, _ => none

def close : List Frame → Token → Option Progress
  | .list done :: frames, .closeList => settle (.list done.reverse) frames
  | .object done :: frames, .closeObject => settle (.object done.reverse) frames
  | _, _ => none

def comma : List Frame → Option Progress
  | .list done :: frames => some (.within .value (.list done :: frames))
  | .object done :: frames => some (.within .name (.object done :: frames))
  | _ => none

def step : Progress → Token → Option Progress
  | .finished _, _ => none
  | .within .value frames, token => value frames token
  | .within .valueOrClose frames, token => (close frames token).or (value frames token)
  | .within .name frames, token => name frames token
  | .within .nameOrClose frames, token => (close frames token).or (name frames token)
  | .within .colon frames, token => if token = .colon then some (.within .value frames) else none
  | .within .commaOrClose frames, token =>
    if token = .comma then comma frames else close frames token

def document? : Progress → Option Document
  | .finished document => some document
  | .within _ _ => none

end Progress

def ofTokens? (tokens : List Token) : Option Document :=
  (tokens.foldlM Progress.step (.within .value [])).bind Progress.document?

def ofText? (text : String) : Option Document := (Token.ofText? text).bind ofTokens?

/-- Reads a document, given how many containers may nest in it. -/
abbrev Reading (α : Type) := Nat → Document → Option α

def readDepth : Nat := 128

def skipDepth : Nat := 512

def nestsWithin : Nat → Document → Bool
  | 0, .list _ => false
  | 0, .object _ => false
  | room + 1, .list items => items.all fun item => nestsWithin room item
  | room + 1, .object members => members.all fun (_, value) => nestsWithin room value
  | _, _ => true

def canBeSkipped (document : Document) : Bool := document.nestsWithin skipDepth

def isNull : Document → Bool
  | .null => true
  | _ => false

def unescape? (raw : String) : Option String :=
  match Reader.stringBody (Text.bytes raw ++ [34]) with
  | .ok (s, []) => some s
  | _ => none

def string? : Reading String
  | _, .string raw => unescape? raw
  | _, _ => none

def bool? : Reading Bool
  | _, .bool b => some b
  | _, _ => none

-- A whole number of 32 bits, which may be written with a point or an exponent.
def count? : Reading Int
  | _, .number (some n) =>
    let units := n.toBinary64.units
    let one : Int := Nat.pow 2 1074
    if units % one = 0 ∧ -2147483648 * one ≤ units ∧ units < 2147483648 * one then some (units / one)
    else none
  | _, _ => none

variable {α : Type}

def list? (read : Reading α) : Reading (List α)
  | room + 1, .list items => items.mapM (read room)
  | _, _ => none

structure Members where
  room : Nat
  entries : List (String × Document)

def members? : Reading Members
  | room + 1, .object members => do
    return ⟨room, ← members.mapM fun (raw, value) => do return (← unescape? raw, value)⟩
  | _, _ => none

def membersOf? (known : List String) : Reading Members := fun room document => do
  let members ← members? room document
  if members.entries.all fun (name, value) => known.contains name || value.canBeSkipped then
    return members
  else none

-- Reads every member of an object, in the order of their names; of a repeated name the last counts.
def map? (read : Reading α) : Reading (List (String × α)) := fun room document => do
  let members ← members? room document
  let entries ← members.entries.mapM fun (name, value) => do
    return (name, ← read members.room value)
  return (Std.ExtTreeMap.ofList entries).toList

-- Reads a member wherever it occurs, and gives what it is last. It is absent if it does not occur
-- or is `null`.
def Members.get? (members : Members) (name : String) (read : Reading α) : Option (Option α) :=
  members.entries.foldlM (fun held (other, value) =>
    if other = name then
      if value.isNull then some none else (read members.room value).map some
    else some held) none

end Document

end SharedTable.Remote
