/-!
Base64: three bytes as four symbols of six bits. Encoding leaves out padding; decoding refuses it,
along with bytes outside the alphabet and bits that no encoding sets, and names the first fault.
-/

set_option autoImplicit false

namespace SharedTable

structure Base64.Alphabet where
  symbol62 : UInt8
  symbol63 : UInt8

inductive Base64.Fault where
  | invalidSymbol (symbol : UInt8) (offset : Nat)
  | invalidLength (length : Nat)
  | invalidPadding
  | invalidLastSymbol (symbol : UInt8) (offset : Nat)
  deriving DecidableEq, Repr

namespace Base64

def Fault.message : Fault → String
  | .invalidSymbol symbol offset =>
    "Invalid symbol " ++ toString symbol.toNat ++ ", offset " ++ toString offset ++ "."
  | .invalidLength length => "Invalid input length: " ++ toString length
  | .invalidPadding => "Invalid padding"
  | .invalidLastSymbol symbol offset =>
    "Invalid last symbol " ++ toString symbol.toNat ++ ", offset " ++ toString offset ++ "."

def urlSafe : Alphabet := ⟨45, 95⟩

def standard : Alphabet := ⟨43, 47⟩

def padding : UInt8 := 61

namespace Alphabet

def symbol (alphabet : Alphabet) (sextet : Nat) : UInt8 :=
  if sextet < 26 then .ofNat (sextet + 65)
  else if sextet < 52 then .ofNat (sextet + 71)
  else if sextet < 62 then .ofNat (sextet - 4)
  else if sextet = 62 then alphabet.symbol62
  else alphabet.symbol63

def sextet? (alphabet : Alphabet) (symbol : UInt8) : Option Nat :=
  if 65 ≤ symbol && symbol ≤ 90 then some (symbol.toNat - 65)
  else if 97 ≤ symbol && symbol ≤ 122 then some (symbol.toNat - 71)
  else if 48 ≤ symbol && symbol ≤ 57 then some (symbol.toNat + 4)
  else if symbol == alphabet.symbol62 then some 62
  else if symbol == alphabet.symbol63 then some 63
  else none

end Alphabet

def encode (alphabet : Alphabet) : List UInt8 → List UInt8
  | a :: b :: c :: rest =>
    let bits := a.toNat * 65536 + b.toNat * 256 + c.toNat
    alphabet.symbol (bits / 262144) :: alphabet.symbol (bits / 4096 % 64) ::
      alphabet.symbol (bits / 64 % 64) :: alphabet.symbol (bits % 64) :: encode alphabet rest
  | [a, b] =>
    let bits := a.toNat * 256 + b.toNat
    [alphabet.symbol (bits / 1024), alphabet.symbol (bits / 16 % 64), alphabet.symbol (bits % 16 * 4)]
  | [a] => [alphabet.symbol (a.toNat / 4), alphabet.symbol (a.toNat % 4 * 16)]
  | [] => []

def sextetAt (alphabet : Alphabet) (offset : Nat) (symbol : UInt8) : Except Fault Nat :=
  match alphabet.sextet? symbol with
  | some sextet => return sextet
  | none => throw (.invalidSymbol symbol offset)

-- The sextets of the last group, in order, and whether padding followed them.
def lastSextets (alphabet : Alphabet) (start : Nat) (position : Nat) (padded : Option Nat) :
    List UInt8 → Except Fault (List Nat × Bool)
  | [] => return ([], padded.isSome)
  | symbol :: rest =>
    if symbol == padding then
      if position < 2 then throw (.invalidSymbol padding (start + position))
      else lastSextets alphabet start (position + 1) (padded.or (some position)) rest
    else
      match padded with
      | some first => throw (.invalidSymbol padding (start + first))
      | none => do
        let sextet ← sextetAt alphabet (start + position) symbol
        let (more, anyPadding) ← lastSextets alphabet start (position + 1) none rest
        return (sextet :: more, anyPadding)

def decodeLast (alphabet : Alphabet) (start : Nat) (group : List UInt8) :
    Except Fault (List UInt8) := do
  let (sextets, anyPadding) ← lastSextets alphabet start 0 none group
  if !group.isEmpty && sextets.length < 2 then throw (.invalidLength (start + sextets.length))
  if anyPadding then throw .invalidPadding
  let lastOffset := sextets.length - 1
  let spare : Fault := .invalidLastSymbol (group.getD lastOffset 0) (start + lastOffset)
  match sextets with
  | [a, b] =>
    if b % 16 = 0 then return [.ofNat (a * 4 + b / 16)] else throw spare
  | [a, b, c] =>
    if c % 4 = 0 then return [.ofNat (a * 4 + b / 16), .ofNat (b % 16 * 16 + c / 4)] else throw spare
  | [a, b, c, d] =>
    return [.ofNat (a * 4 + b / 16), .ofNat (b % 16 * 16 + c / 4), .ofNat (c % 4 * 64 + d)]
  | _ => return []

def decodeFrom (alphabet : Alphabet) (offset : Nat) : List UInt8 → Except Fault (List UInt8)
  | a :: b :: c :: d :: next :: rest => do
    let a ← sextetAt alphabet offset a
    let b ← sextetAt alphabet (offset + 1) b
    let c ← sextetAt alphabet (offset + 2) c
    let d ← sextetAt alphabet (offset + 3) d
    let more ← decodeFrom alphabet (offset + 4) (next :: rest)
    return .ofNat (a * 4 + b / 16) :: .ofNat (b % 16 * 16 + c / 4) :: .ofNat (c % 4 * 64 + d) :: more
  | group => decodeLast alphabet offset group

-- A single symbol behind the last full group is judged before all others.
def decode (alphabet : Alphabet) (symbols : List UInt8) : Except Fault (List UInt8) :=
  match symbols.length % 4, symbols.getLast? with
  | 1, some last =>
    if last != padding && (alphabet.sextet? last).isNone then
      throw (.invalidSymbol last (symbols.length - 1))
    else decodeFrom alphabet 0 symbols
  | _, _ => decodeFrom alphabet 0 symbols

def encodePadded (alphabet : Alphabet) (bytes : List UInt8) : List UInt8 :=
  let symbols := encode alphabet bytes
  symbols ++ List.replicate ((4 - symbols.length % 4) % 4) padding

def decodePadded? (alphabet : Alphabet) (symbols : List UInt8) : Option (List UInt8) :=
  if symbols.length % 4 ≠ 0 then none
  else
    let bare := (symbols.reverse.dropWhile (· == padding)).reverse
    if symbols.length < bare.length + 3 then (decode alphabet bare).toOption else none

end Base64

end SharedTable
