import SharedTable.Number.Estimate
import SharedTable.Value.Basic

/-!
Reading values from bytes. The readers take the bytes from the left and stop at the first fault;
strings are read one byte at a time by a small machine, and their bytes must be valid UTF-8. Numbers
that are no integers of 64 bits are estimated, and may miss the nearest double by a little.
-/

set_option autoImplicit false

namespace SharedTable

inductive TextFault where
  | endInValue
  | endInList
  | endInObject
  | endInString
  | expectedColon
  | expectedListCommaOrEnd
  | expectedObjectCommaOrEnd
  | expectedWord
  | expectedValue
  | invalidEscape
  | invalidNumber
  | numberOutOfRange
  | invalidCodePoint
  | controlCharacter
  | keyNotString
  | loneSurrogate
  | endOfHexEscape
  | trailingComma
  | trailingCharacters
  | tooDeep
  | wrongKind (found : String) (wanted : String)
  deriving DecidableEq, Repr

namespace TextFault

def message : TextFault → String
  | .endInValue => "EOF while parsing a value"
  | .endInList => "EOF while parsing a list"
  | .endInObject => "EOF while parsing an object"
  | .endInString => "EOF while parsing a string"
  | .expectedColon => "expected `:`"
  | .expectedListCommaOrEnd => "expected `,` or `]`"
  | .expectedObjectCommaOrEnd => "expected `,` or `\x7d`"
  | .expectedWord => "expected ident"
  | .expectedValue => "expected value"
  | .invalidEscape => "invalid escape"
  | .invalidNumber => "invalid number"
  | .numberOutOfRange => "number out of range"
  | .invalidCodePoint => "invalid unicode code point"
  | .controlCharacter => "control character (\\u0000-\\u001F) found while parsing a string"
  | .keyNotString => "key must be a string"
  | .loneSurrogate => "lone leading surrogate in hex escape"
  | .endOfHexEscape => "unexpected end of hex escape"
  | .trailingComma => "trailing comma"
  | .trailingCharacters => "trailing characters"
  | .tooDeep => "recursion limit exceeded"
  | .wrongKind found wanted => "invalid type: " ++ found ++ ", expected " ++ wanted

end TextFault

namespace Reader

abbrev Bytes := List UInt8

abbrev Read (α : Type) := α × Bytes

def isBlank (b : UInt8) : Bool := b == 32 || b == 9 || b == 10 || b == 13

def isDigit (b : UInt8) : Bool := 48 ≤ b && b ≤ 57

def skipBlanks (bytes : Bytes) : Bytes := bytes.dropWhile isBlank

def digitValue (b : UInt8) : Nat := b.toNat - 48

def naturalOf (digits : Bytes) : Nat :=
  digits.foldl (fun n b => 10 * n + digitValue b) 0

def hexDigit? (b : UInt8) : Option Nat :=
  if 48 ≤ b && b ≤ 57 then some (b.toNat - 48)
  else if 97 ≤ b && b ≤ 102 then some (b.toNat - 87)
  else if 65 ≤ b && b ≤ 70 then some (b.toNat - 55)
  else none

def hexNumber? (digits : Bytes) : Option Nat :=
  digits.foldl (fun n b => do return 16 * (← n) + (← hexDigit? b)) (some 0)

def shortEscape? (b : UInt8) : Option UInt8 :=
  if b == 34 || b == 92 || b == 47 then some b
  else if b == 98 then some 8
  else if b == 102 then some 12
  else if b == 110 then some 10
  else if b == 114 then some 13
  else if b == 116 then some 9
  else none

-- Where the reader stands inside a string. A pending high surrogate waits for its low half.
inductive StringState where
  | plain
  | escape
  | hex (high : Option Nat) (taken : Bytes)
  | lowSlash (high : Nat)
  | lowMark (high : Nat)
  deriving DecidableEq, Repr

def isHighSurrogate (n : Nat) : Bool := 0xD800 ≤ n && n ≤ 0xDBFF

def isLowSurrogate (n : Nat) : Bool := 0xDC00 ≤ n && n ≤ 0xDFFF

def hexEscape (high : Option Nat) (digits : Bytes) : Except TextFault (StringState × Bytes) :=
  match hexNumber? digits, high with
  | none, _ => throw .invalidEscape
  | some n, none =>
    if isLowSurrogate n then throw .loneSurrogate
    else if isHighSurrogate n then return (.lowSlash n, [])
    else return (.plain, String.utf8EncodeChar (Char.ofNat n))
  | some n, some high =>
    if isLowSurrogate n then
      let point := (high - 0xD800) * 1024 + (n - 0xDC00) + 0x10000
      return (.plain, String.utf8EncodeChar (Char.ofNat point))
    else throw .loneSurrogate

-- Reads on inside a string up to its closing quote; `done` holds the bytes so far, last first.
def stringFrom (state : StringState) (done : Bytes) : Bytes → Except TextFault (Read String)
  | [] => throw .endInString
  | b :: rest =>
    match state with
    | .plain =>
      if b == 34 then
        match String.fromUTF8? ⟨done.reverse.toArray⟩ with
        | some s => return (s, rest)
        | none => throw .invalidCodePoint
      else if b == 92 then stringFrom .escape done rest
      else if b < 32 then throw .controlCharacter
      else stringFrom .plain (b :: done) rest
    | .escape =>
      if b == 117 then stringFrom (.hex none []) done rest
      else match shortEscape? b with
        | some plain => stringFrom .plain (plain :: done) rest
        | none => throw .invalidEscape
    | .hex high taken =>
      let taken := taken ++ [b]
      if taken.length < 4 then stringFrom (.hex high taken) done rest
      else do
        let (next, bytes) ← hexEscape high taken
        stringFrom next (bytes.reverse ++ done) rest
    | .lowSlash high =>
      if b == 92 then stringFrom (.lowMark high) done rest else throw .endOfHexEscape
    | .lowMark high =>
      if b == 117 then stringFrom (.hex (some high) []) done rest else throw .endOfHexEscape

def stringBody (bytes : Bytes) : Except TextFault (Read String) := stringFrom .plain [] bytes

-- The digits at the front, of which there must be one; `atEnd` and `otherwise` are the faults.
def digits (bytes : Bytes) : Except TextFault (Read Bytes) :=
  match bytes.takeWhile isDigit, bytes with
  | [], [] => throw .endInValue
  | [], _ => throw .invalidNumber
  | taken, _ => return (taken, bytes.dropWhile isDigit)

def fraction : Bytes → Except TextFault (Read (Option Bytes))
  | 46 :: rest => do
    let (taken, rest) ← digits rest
    return (some taken, rest)
  | bytes => return (none, bytes)

def exponent : Bytes → Except TextFault (Read (Option Int))
  | b :: rest =>
    if b == 101 || b == 69 then do
      let (negative, rest) := match rest with
        | 45 :: rest => (true, rest)
        | 43 :: rest => (false, rest)
        | rest => (false, rest)
      let (taken, rest) ← digits rest
      let n : Int := naturalOf taken
      return (some (if negative then -n else n), rest)
    else return (none, b :: rest)
  | [] => return (none, [])

def wholePart (bytes : Bytes) : Except TextFault (Read Bytes) := do
  let (taken, rest) ← digits bytes
  match taken with
  | 48 :: _ :: _ => throw .invalidNumber
  | _ => return (taken, rest)

def numberOf (negative : Bool) (whole : Bytes) (fraction : Option Bytes) (exponent : Option Int) :
    Except TextFault Number :=
  let float : Except TextFault Number :=
    match Binary64.estimate? negative (whole.map digitValue) ((fraction.getD []).map digitValue)
        (exponent.getD 0) with
    | some x => return .float x
    | none => throw .numberOutOfRange
  match fraction, exponent with
  | none, none =>
    let n : Int := naturalOf whole
    if negative && n == 0 then return .float (Binary64.zero true)
    else match Integer.ofInt? (if negative then -n else n) with
      | some integer => return .integer integer
      | none => float
  | _, _ => float

def number (bytes : Bytes) : Except TextFault (Read Number) := do
  let (negative, bytes) := match bytes with
    | 45 :: rest => (true, rest)
    | _ => (false, bytes)
  let (whole, bytes) ← wholePart bytes
  let (fraction, bytes) ← fraction bytes
  let (exponent, bytes) ← exponent bytes
  let n ← numberOf negative whole fraction exponent
  return (n, bytes)

def word : (letters : Bytes) → Bytes → Except TextFault (Read Unit)
  | [], bytes => return ((), bytes)
  | _ :: _, [] => throw .endInValue
  | letter :: letters, b :: rest => if b == letter then word letters rest else throw .expectedWord

inductive Front where
  | null | yes | no | number | string | list | object | other
  deriving DecidableEq, Repr

def front (b : UInt8) : Front :=
  if b == 110 then .null
  else if b == 116 then .yes
  else if b == 102 then .no
  else if b == 45 || isDigit b then .number
  else if b == 34 then .string
  else if b == 91 then .list
  else if b == 123 then .object
  else .other

def simple (kind : Front) (bytes : Bytes) : Except TextFault (Read Value) :=
  match kind with
  | .null => do
    let (_, rest) ← word [117, 108, 108] (bytes.drop 1)
    return (.null, rest)
  | .yes => do
    let (_, rest) ← word [114, 117, 101] (bytes.drop 1)
    return (.bool true, rest)
  | .no => do
    let (_, rest) ← word [97, 108, 115, 101] (bytes.drop 1)
    return (.bool false, rest)
  | .number => do
    let (n, rest) ← number bytes
    return (.number n, rest)
  | .string => do
    let (s, rest) ← stringBody (bytes.drop 1)
    return (.string s, rest)
  | _ => throw .expectedValue

def colon (bytes : Bytes) : Except TextFault (Read Unit) :=
  match skipBlanks bytes with
  | [] => throw .endInObject
  | b :: rest => if b == 58 then return ((), rest) else throw .expectedColon

inductive ObjectFront where
  | close
  | member
  deriving DecidableEq, Repr

def objectFront (first : Bool) (bytes : Bytes) : Except TextFault (Read ObjectFront) :=
  match skipBlanks bytes with
  | [] => throw .endInObject
  | b :: rest =>
    if b == 125 then return (.close, rest)
    else if first then
      if b == 34 then return (.member, rest) else throw .keyNotString
    else if b == 44 then
      match skipBlanks rest with
      | [] => throw .endInValue
      | c :: rest =>
        if c == 34 then return (.member, rest)
        else if c == 125 then throw .trailingComma
        else throw .keyNotString
    else throw .expectedObjectCommaOrEnd

def listFront (first : Bool) (bytes : Bytes) : Except TextFault (Read Bool) :=
  match skipBlanks bytes with
  | [] => throw .endInList
  | b :: rest =>
    if b == 93 then return (true, rest)
    else if first then return (false, b :: rest)
    else if b == 44 then
      match skipBlanks rest with
      | 93 :: _ => throw .trailingComma
      | _ => return (false, rest)
    else throw .expectedListCommaOrEnd

mutual

-- Reads a value; `fuel` bounds the nesting and the members read, one unit per byte being enough.
def valueFrom (fuel : Nat) (bytes : Bytes) : Except TextFault (Read Value) :=
  match fuel with
  | 0 => throw .tooDeep
  | fuel + 1 =>
    match skipBlanks bytes with
    | [] => throw .endInValue
    | b :: rest =>
      match front b with
      | .list => itemsFrom fuel true [] rest
      | .object => membersFrom fuel true [] rest
      | kind => simple kind (b :: rest)

def itemsFrom (fuel : Nat) (first : Bool) (done : List Value) (bytes : Bytes) : Except TextFault (Read Value) :=
  match fuel with
  | 0 => throw .tooDeep
  | fuel + 1 => do
    let (closed, rest) ← listFront first bytes
    if closed then return (.array done.reverse, rest)
    let (item, rest) ← valueFrom fuel rest
    itemsFrom fuel false (item :: done) rest

def membersFrom (fuel : Nat) (first : Bool) (done : List (String × Value)) (bytes : Bytes) :
    Except TextFault (Read Value) :=
  match fuel with
  | 0 => throw .tooDeep
  | fuel + 1 => do
    match ← objectFront first bytes with
    | (.close, rest) => return (.ofFields (.ofList done.reverse), rest)
    | (.member, rest) =>
      let (name, rest) ← stringBody rest
      let (_, rest) ← colon rest
      let (value, rest) ← valueFrom fuel rest
      membersFrom fuel false ((name, value) :: done) rest

end

def finish {α : Type} : Except TextFault (Read α) → Except TextFault α
  | .ok (result, rest) =>
    if (skipBlanks rest).isEmpty then return result else throw .trailingCharacters
  | .error fault => throw fault

end Reader

namespace Value

def ofBytes (bytes : Reader.Bytes) : Except TextFault Value :=
  Reader.finish (Reader.valueFrom (2 * bytes.length + 2) bytes)

end Value

def Text.bytes (s : String) : List UInt8 := s.toUTF8.data.toList

end SharedTable
