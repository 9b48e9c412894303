import SharedTable.Number.Binary64

/-!
Decimal numbers and doubles: reading a decimal as the nearest double, and choosing the shortest
decimal that reads back as a given double. The choice tests every candidate by reading it, so what
it returns reads back by construction.
-/

set_option autoImplicit false

namespace SharedTable

structure Decimal where
  coefficient : Nat
  exponent : Int
  deriving DecidableEq, Repr

-- Which of two equally near decimals is chosen: the larger, or the one with an even last digit.
inductive TieRule where
  | upward
  | even
  deriving DecidableEq, Repr

namespace Decimal

def leading (d : Decimal) : Int :=
  d.exponent + (Nat.toDigits 10 d.coefficient).length - 1

-- The nearest double. Numbers far outside the format are answered without forming the power.
def toBinary64? (negative : Bool) (d : Decimal) : Option Binary64 :=
  if d.coefficient = 0 then some (Binary64.zero negative)
  else if 308 < d.leading then none
  else if d.leading < -330 then some (Binary64.zero negative)
  else
    Binary64.ofRatio? negative (d.coefficient * Nat.pow 10 d.exponent.toNat)
      (Nat.pow 10 (-d.exponent).toNat)

def exact (x : Binary64) : Decimal := ⟨x.magnitude * Nat.pow 5 1074, -1074⟩

def leadingExponent (x : Binary64) : Int :=
  ((Nat.toDigits 10 (x.magnitude * Nat.pow 10 400 / Nat.pow 2 1074)).length : Int) - 401

-- The decimal on the grid of multiples of `10 ^ exponent` that is nearest among those reading back
-- as `x`.
def onGrid? (tie : TieRule) (x : Binary64) (exponent : Int) : Option Decimal :=
  let numerator := x.magnitude * Nat.pow 10 (-exponent).toNat
  let denominator := Nat.pow 2 1074 * Nat.pow 10 exponent.toNat
  let below : Decimal := ⟨numerator / denominator, exponent⟩
  let above : Decimal := ⟨numerator / denominator + 1, exponent⟩
  let reads (d : Decimal) : Bool := d.toBinary64? false == some x.abs
  let twice := 2 * (numerator % denominator)
  match reads below, reads above with
  | true, true =>
    if twice < denominator then some below
    else if denominator < twice then some above
    else if tie = .even ∧ below.coefficient % 2 = 0 then some below else some above
  | true, false => some below
  | false, true => some above
  | false, false => none

def shortest (tie : TieRule) (x : Binary64) : Decimal :=
  if x.magnitude = 0 then ⟨0, 0⟩
  else ((List.range 17).findSome? fun more : Nat => onGrid? tie x (leadingExponent x - more)).getD (exact x)

end Decimal

end SharedTable
