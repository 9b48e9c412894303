import SharedTable.Text.Characters
import SharedTable.Value.Basic

/-!
The compact text of values: no blanks, members in the order in which the value lists them, and in
strings only quotes, backslashes and control characters escaped. Messages name a value instead.
-/

set_option autoImplicit false

namespace SharedTable

namespace Text

def hexPair (n : Nat) : List Char :=
  [Nat.digitChar (n / 16), Nat.digitChar (n % 16)]

def escapeChar (c : Char) : List Char :=
  if c = '"' then ['\\', '"']
  else if c = '\\' then ['\\', '\\']
  else if c.toNat = 8 then ['\\', 'b']
  else if c.toNat = 9 then ['\\', 't']
  else if c.toNat = 10 then ['\\', 'n']
  else if c.toNat = 12 then ['\\', 'f']
  else if c.toNat = 13 then ['\\', 'r']
  else if c.toNat < 32 then '\\' :: 'u' :: '0' :: '0' :: hexPair c.toNat
  else [c]

def quote (s : String) : List Char :=
  '"' :: (s.toList.flatMap escapeChar ++ ['"'])

end Text

namespace Value

mutual

def chars : Value → List Char
  | .null => "null".toList
  | .bool true => "true".toList
  | .bool false => "false".toList
  | .number n => n.write Layout.value
  | .string s => Text.quote s
  | .array items => '[' :: (itemChars items ++ [']'])
  | .object members => '{' :: (memberChars members ++ ['}'])

def itemChars : List Value → List Char
  | [] => []
  | [item] => chars item
  | item :: next :: rest => chars item ++ ',' :: itemChars (next :: rest)

def memberChars : List (String × Value) → List Char
  | [] => []
  | [(name, value)] => Text.quote name ++ ':' :: chars value
  | (name, value) :: next :: rest =>
    Text.quote name ++ ':' :: (chars value ++ ',' :: memberChars (next :: rest))

end

def text (value : Value) : String := String.ofList value.chars

def described : Value → String
  | .null => "null"
  | .bool true => "boolean `true`"
  | .bool false => "boolean `false`"
  | .number (.integer n) => "integer `" ++ String.ofList n.text ++ "`"
  | .number (.float x) => "floating point `" ++ String.ofList (Layout.value.write x) ++ "`"
  | .string s => "string " ++ Text.quoted s
  | .array _ => "sequence"
  | .object _ => "map"

end Value

end SharedTable
