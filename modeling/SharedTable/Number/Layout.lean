import SharedTable.Number.Decimal

/-!
The written form of a double: digits, point and exponent. A `Layout` records the decisions of one
format; key text and value text have a layout each.
-/

set_option autoImplicit false

namespace SharedTable

structure Layout where
  positional : Int → Bool
  wholeMark : List Char
  tie : TieRule

namespace Layout

-- Keys hold no exponents, and whole numbers are written without a point.
def key : Layout where
  positional _ := true
  wholeMark := []
  tie := .upward

-- Value text keeps the point of whole numbers, and turns to an exponent from `1e+16` and below
-- `0.00001`.
def value : Layout where
  positional leading := decide (-5 ≤ leading ∧ leading ≤ 15)
  wholeMark := ['.', '0']
  tie := .even

def signed (negative : Bool) (text : List Char) : List Char :=
  if negative then '-' :: text else text

def placePoint (wholeMark digits : List Char) (leading : Int) : List Char :=
  if leading < 0 then
    '0' :: '.' :: (List.replicate (-leading - 1).toNat '0' ++ digits)
  else
    let whole := leading.toNat + 1
    if digits.length ≤ whole then
      digits ++ List.replicate (whole - digits.length) '0' ++ wholeMark
    else
      digits.take whole ++ '.' :: digits.drop whole

def withExponent (digits : List Char) (leading : Int) : List Char :=
  let rest := digits.drop 1
  digits.take 1 ++ (if rest.isEmpty then [] else '.' :: rest) ++
    'e' :: (if leading < 0 then '-' else '+') :: Nat.toDigits 10 leading.natAbs

def digitsOf (d : Decimal) : List Char :=
  ((Nat.toDigits 10 d.coefficient).reverse.dropWhile (· == '0')).reverse

def write (layout : Layout) (x : Binary64) : List Char :=
  signed x.negative <|
    if x.magnitude = 0 then '0' :: layout.wholeMark
    else
      let chosen := Decimal.shortest layout.tie x
      if layout.positional chosen.leading then
        placePoint layout.wholeMark (digitsOf chosen) chosen.leading
      else
        withExponent (digitsOf chosen) chosen.leading

end Layout

end SharedTable
