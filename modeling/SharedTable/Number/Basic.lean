import SharedTable.Number.Layout

/-!
Numbers of records: integers of 64 bits, signed or unsigned, and finite doubles. The two kinds stay
apart, so `1` and `1.0` are different values; comparison takes both through doubles.
-/

set_option autoImplicit false

namespace SharedTable

structure Integer where
  val : Int
  lower : -9223372036854775808 ≤ val
  upper : val < 18446744073709551616
  deriving DecidableEq, Repr

namespace Integer

def ofInt? (n : Int) : Option Integer :=
  if bounds : -9223372036854775808 ≤ n ∧ n < 18446744073709551616 then
    some ⟨n, bounds.1, bounds.2⟩
  else
    none

def text (n : Integer) : List Char :=
  Layout.signed (decide (n.val < 0)) (Nat.toDigits 10 n.val.natAbs)

end Integer

inductive Number where
  | integer (n : Integer)
  | float (x : Binary64)
  deriving DecidableEq, Repr

namespace Number

-- A whole number, kept as an integer while it fits and as the nearest double beyond.
def ofInt (n : Int) : Number :=
  match Integer.ofInt? n with
  | some bounded => .integer bounded
  | none => .float (Binary64.ofInt n)

def write (layout : Layout) : Number → List Char
  | .integer n => n.text
  | .float x => layout.write x

def keyWidth : Nat := 16

-- The text inside keys: padded with zeros on the left, in front of a sign too.
def padded (n : Number) : String :=
  String.ofList ((n.write Layout.key).leftpad keyWidth '0')

def toBinary64 : Number → Binary64
  | .integer n => Binary64.ofInt n.val
  | .float x => x

-- Numbers are compared as doubles, so integers beyond 53 bits are rounded first.
instance : Ord Number where
  compare m n := compare m.toBinary64 n.toBinary64

-- Sameness inside structures: an integer is never a float, and the two zeros are the same float.
def same : Number → Number → Bool
  | .integer m, .integer n => m.val == n.val
  | .float x, .float y => x.units == y.units
  | _, _ => false

end Number

end SharedTable
