/-!
The tokens of reply bodies: marks, strings and words. Strings keep their escapes, since those of
members that nobody asks for are never looked at.
-/

set_option autoImplicit false

namespace SharedTable.Remote

inductive Token where
  | openList
  | closeList
  | openObject
  | closeObject
  | colon
  | comma
  | string (raw : String)
  | word (letters : List Char)
  deriving DecidableEq, Repr

namespace Token

def mark? (c : Char) : Option Token :=
  if c = '[' then some .openList
  else if c = ']' then some .closeList
  else if c = '{' then some .openObject
  else if c = '}' then some .closeObject
  else if c = ':' then some .colon
  else if c = ',' then some .comma
  else none

def isBlank (c : Char) : Bool := c = ' ' || c = '\t' || c = '\n' || c = '\r'

-- Where the scanner stands. What a token has so far is kept last character first.
inductive Place where
  | between
  | word (letters : List Char)
  | string (raw : List Char)
  | escape (raw : List Char)

def ending : Place → List Token
  | .word letters => [.word letters.reverse]
  | _ => []

-- Scans on from a place. Inside strings only the character behind a backslash may be a control
-- character.
def scan : Place → List Char → Option (List Token)
  | .string _, [] => none
  | .escape _, [] => none
  | place, [] => some (ending place)
  | .string raw, c :: rest =>
    if c = '"' then (scan .between rest).map (.string (String.ofList raw.reverse) :: ·)
    else if c = '\\' then scan (.escape raw) rest
    else if c.toNat < 32 then none
    else scan (.string (c :: raw)) rest
  | .escape raw, c :: rest => scan (.string (c :: '\\' :: raw)) rest
  | place, c :: rest =>
    if isBlank c then (scan .between rest).map (ending place ++ ·)
    else if c = '"' then (scan (.string []) rest).map (ending place ++ ·)
    else match mark? c with
      | some token => (scan .between rest).map (ending place ++ token :: ·)
      | none =>
        match place with
        | .word letters => scan (.word (c :: letters)) rest
        | _ => scan (.word [c]) rest

def ofText? (text : String) : Option (List Token) := scan .between text.toList

end Token

end SharedTable.Remote
