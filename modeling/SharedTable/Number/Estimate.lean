import SharedTable.Number.Binary64

/-!
Reading decimals quickly. The leading digits that fit 64 bits become a double, which is multiplied or
divided by a power of ten in double arithmetic. Each step rounds, so the result can be a few units
beside the nearest double; it is the nearest for up to 15 digits and powers of ten up to `10 ^ 22`.
-/

set_option autoImplicit false

namespace SharedTable.Binary64

def product? (x y : Binary64) : Option Binary64 :=
  ofRatio? false (x.magnitude * y.magnitude) (Nat.pow 2 2148)

def quotient (x y : Binary64) : Binary64 :=
  (ofRatio? false x.magnitude y.magnitude).getD (zero false)

def largestPower : Nat := 308

def powerOfTen (n : Nat) : Binary64 :=
  (ofRatio? false (Nat.pow 10 n) 1).getD (zero false)

-- Divides by a power of ten, in several steps if the power itself is no double.
def overPower (x : Binary64) (n : Nat) : Binary64 :=
  if n ≤ largestPower then x.quotient (powerOfTen n)
  else if x.magnitude = 0 then x
  else overPower (x.quotient (powerOfTen largestPower)) (n - largestPower)
  termination_by n
  decreasing_by simp only [largestPower] at *; omega

def timesPower? (x : Binary64) (n : Nat) : Option Binary64 :=
  if n ≤ largestPower then x.product? (powerOfTen n)
  else if x.magnitude = 0 then some x
  else none

-- Appends digits to a number while it fits 64 bits, and gives the digits left over.
def appendDigits (n : Nat) : List Nat → Nat × List Nat
  | [] => (n, [])
  | digit :: rest =>
    if 10 * n + digit < 18446744073709551616 then appendDigits (10 * n + digit) rest
    else (n, digit :: rest)

def estimate? (negative : Bool) (whole fraction : List Nat) (exponent : Int) : Option Binary64 := do
  let (leading, leftOver) := appendDigits 0 whole
  let (leading, ignored) := appendDigits leading fraction
  let power : Int := exponent + leftOver.length - (fraction.length - ignored.length)
  let start := ofInt leading
  let magnitude ←
    if 0 ≤ power then start.timesPower? power.toNat else some (start.overPower (-power).toNat)
  return { magnitude with negative }

end SharedTable.Binary64
