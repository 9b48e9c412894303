/-!
Finite double-precision numbers, kept as their sign, exponent field and fraction field, with exact
arithmetic on naturals in place of machine floating point. A double is a whole number of units of
`2 ^ -1074`; order and rounding are stated on those units.
-/

set_option autoImplicit false

namespace SharedTable

abbrev Binary64.leadingBit : Nat := 4503599627370496

/-- Every finite double has exactly one such description; zero has two, one of either sign. -/
structure Binary64 where
  negative : Bool
  exponent : Fin 2047
  fraction : Fin Binary64.leadingBit
  deriving DecidableEq, Repr

namespace Binary64

def significand (x : Binary64) : Nat :=
  if x.exponent.val = 0 then x.fraction.val else leadingBit + x.fraction.val

-- The magnitude, counted in units of `2 ^ -1074`.
def magnitude (x : Binary64) : Nat :=
  x.significand * Nat.pow 2 (x.exponent.val - 1)

def units (x : Binary64) : Int :=
  if x.negative then -(x.magnitude : Int) else x.magnitude

-- Doubles are ordered by value, so the two zeros are equal in this order.
instance : Ord Binary64 where
  compare x y := compare x.units y.units

def abs (x : Binary64) : Binary64 := { x with negative := false }

def zero (negative : Bool) : Binary64 := ⟨negative, 0, 0⟩

-- The exponent and fraction fields side by side form one number; the exponent field 2047 is not
-- finite.
def ofWord? (negative : Bool) (word : Nat) : Option Binary64 :=
  if bounded : word / leadingBit < 2047 then
    some ⟨negative, ⟨word / leadingBit, bounded⟩, ⟨word % leadingBit, Nat.mod_lt _ (by decide)⟩⟩
  else
    none

def roundQuotient (numerator denominator : Nat) : Nat :=
  let floor := numerator / denominator
  let twice := 2 * (numerator % denominator)
  if twice < denominator then floor
  else if denominator < twice then floor + 1
  else if floor % 2 = 0 then floor else floor + 1

/--
The double nearest to a ratio, ties going to the even significand; `none` beyond the largest one.
A significand that rounds up to the next power of two carries into the exponent field by itself.
-/
def ofRatio? (negative : Bool) (numerator denominator : Nat) : Option Binary64 :=
  let scaled := numerator * Nat.pow 2 1074
  let shift := (scaled / denominator).log2 - 52
  ofWord? negative (shift * leadingBit + roundQuotient scaled (denominator * Nat.pow 2 shift))

def ofInt (n : Int) : Binary64 :=
  (ofRatio? (decide (n < 0)) n.natAbs 1).getD (zero (decide (n < 0)))

end Binary64

end SharedTable
