import SharedTable.Number.Basic

/-!
Reading numbers from plain text: a signed integer of 64 bits if the text is one, and otherwise a
decimal, of which the point and the exponent are optional. Blanks are no part of a number. Some texts
write what no double holds: numbers that are too large, and the words for it.
-/

set_option autoImplicit false

namespace SharedTable.Number

def naturalOf (digits : List Char) : Nat :=
  digits.foldl (fun n c => 10 * n + (c.toNat - 48)) 0

def splitSign : List Char → Bool × List Char
  | '-' :: rest => (true, rest)
  | '+' :: rest => (false, rest)
  | text => (false, text)

def integerOf? (text : List Char) : Option Integer :=
  let (negative, digits) := splitSign text
  if digits.isEmpty || !digits.all Char.isDigit then none
  else
    let n : Int := naturalOf digits
    Integer.ofInt? (if negative then -n else n)

def exponentOf? : List Char → Option Int
  | [] => some 0
  | c :: rest =>
    if c = 'e' ∨ c = 'E' then
      let (negative, digits) := splitSign rest
      if digits.isEmpty || !digits.all Char.isDigit then none
      else
        let n : Int := naturalOf digits
        some (if negative then -n else n)
    else none

def splitFraction : List Char → List Char × List Char
  | '.' :: rest => (rest.takeWhile Char.isDigit, rest.dropWhile Char.isDigit)
  | text => ([], text)

-- A decimal behind its sign. It has a digit in front of its point or behind it.
def decimalOf? (text : List Char) : Option (Bool × Decimal) := do
  let (negative, text) := splitSign text
  let whole := text.takeWhile Char.isDigit
  let (fraction, rest) := splitFraction (text.dropWhile Char.isDigit)
  if whole.isEmpty && fraction.isEmpty then none
  let exponent ← exponentOf? rest
  return (negative, ⟨naturalOf (whole ++ fraction), exponent - fraction.length⟩)

def floatOf? (text : List Char) : Option Binary64 := do
  let (negative, decimal) ← decimalOf? text
  decimal.toBinary64? negative

def ofText? (text : String) : Option Number :=
  match integerOf? text.toList with
  | some n => some (.integer n)
  | none => (floatOf? text.toList).map .float

-- The words for what is not finite. Their case does not count, and a sign may stand in front.
def nonFiniteWords : List String := ["inf", "infinity", "nan"]

def isNonFinite (text : String) : Bool :=
  nonFiniteWords.contains (String.ofList ((splitSign text.toList).2.map Char.toLower)) ||
    (decimalOf? text.toList).isSome && (ofText? text).isNone

end SharedTable.Number
