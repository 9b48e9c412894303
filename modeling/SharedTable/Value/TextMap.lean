import SharedTable.Value.Reader
import SharedTable.Value.Text

/-!
Objects of strings: their text, and reading them back. A member that is no string, or another value
in place of the object, is named by its kind; lists and objects are named without being read.
-/

set_option autoImplicit false

namespace SharedTable

abbrev TextMap := Std.ExtTreeMap String String

namespace TextMap

def toValue (map : TextMap) : Value :=
  .object (map.toList.map fun (name, text) => (name, .string text))

end TextMap

namespace Reader

def described (kind : Front) (bytes : Bytes) : Except TextFault String :=
  match kind with
  | .list => return "sequence"
  | .object => return "map"
  | kind => do
    let (value, _) ← simple kind bytes
    return value.described

def memberText (bytes : Bytes) : Except TextFault (Read String) :=
  match skipBlanks bytes with
  | [] => throw .endInValue
  | b :: rest =>
    match front b with
    | .string => stringBody rest
    | kind => do
      let found ← described kind (b :: rest)
      throw (.wrongKind found "a string")

-- Reads members up to the closing brace; `fuel` bounds their number.
def textMembers (fuel : Nat) (first : Bool) (done : List (String × String)) (bytes : Bytes) :
    Except TextFault (Read TextMap) :=
  match fuel with
  | 0 => throw .tooDeep
  | fuel + 1 => do
    match ← objectFront first bytes with
    | (.close, rest) => return (.ofList done.reverse, rest)
    | (.member, rest) =>
      let (name, rest) ← stringBody rest
      let (_, rest) ← colon rest
      let (text, rest) ← memberText rest
      textMembers fuel false ((name, text) :: done) rest

def textMap (bytes : Bytes) : Except TextFault (Read TextMap) :=
  match skipBlanks bytes with
  | [] => throw .endInValue
  | b :: rest =>
    match front b with
    | .object => textMembers (rest.length + 1) true [] rest
    | kind => do
      let found ← described kind (b :: rest)
      throw (.wrongKind found "a map")

end Reader

def TextMap.ofBytes (bytes : Reader.Bytes) : Except TextFault TextMap :=
  Reader.finish (Reader.textMap bytes)

end SharedTable
