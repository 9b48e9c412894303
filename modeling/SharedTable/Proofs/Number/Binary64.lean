import Mathlib.Algebra.Group.Nat.Defs
import SharedTable.Number.Binary64

set_option autoImplicit false

namespace SharedTable.Binary64

section Quotient

theorem roundQuotient_mul_self (whole : Nat) {denominator : Nat} (positive : 0 < denominator) :
    roundQuotient (whole * denominator) denominator = whole := by
  simp [roundQuotient, Nat.mul_div_cancel whole positive, positive]

theorem roundQuotient_mul_right (numerator denominator : Nat) {factor : Nat} (positive : 0 < factor) :
    roundQuotient (numerator * factor) (denominator * factor) = roundQuotient numerator denominator := by
  simp only [roundQuotient, Nat.mul_div_mul_right _ _ positive, Nat.mul_mod_mul_right, ← Nat.mul_assoc,
    Nat.mul_lt_mul_right positive]

end Quotient

def perOne : Nat := Nat.pow 2 1074

/-- The double nearest to a ratio, which counts units. -/
def ofUnits? (negative : Bool) (scaled denominator : Nat) : Option Binary64 :=
  let shift := (scaled / denominator).log2 - 52
  ofWord? negative (shift * leadingBit + roundQuotient scaled (denominator * 2 ^ shift))

theorem ofRatio?_eq_ofUnits? (negative : Bool) (numerator denominator : Nat) :
    ofRatio? negative numerator denominator = ofUnits? negative (numerator * perOne) denominator := by
  unfold ofRatio? ofUnits? perOne
  rfl

theorem ofUnits?_mul_right (negative : Bool) (scaled denominator : Nat) {factor : Nat}
    (positive : 0 < factor) :
    ofUnits? negative (scaled * factor) (denominator * factor) = ofUnits? negative scaled denominator := by
  simp only [ofUnits?, Nat.mul_div_mul_right _ _ positive, Nat.mul_right_comm denominator factor,
    roundQuotient_mul_right _ _ positive]

section Fields

variable (x : Binary64)

theorem magnitude_eq : x.magnitude = x.significand * 2 ^ (x.exponent.val - 1) := rfl

theorem significand_lt : x.significand < 2 * leadingBit := by
  have bounded := x.fraction.isLt
  unfold significand
  split <;> omega

theorem magnitude_lt {most : Nat} (few : x.exponent.val - 1 ≤ most) :
    x.magnitude < 2 * leadingBit * Nat.pow 2 most :=
  Nat.mul_lt_mul_of_lt_of_le x.significand_lt (Nat.pow_le_pow_right (by decide) few)
    (Nat.two_pow_pos most)

theorem leadingBit_le_significand {x : Binary64} (normal : x.exponent.val ≠ 0) :
    leadingBit ≤ x.significand := by
  rw [significand, if_neg normal]
  exact Nat.le_add_right _ _

theorem log2_magnitude : x.magnitude.log2 - 52 = x.exponent.val - 1 := by
  have bounded : x.fraction.val < leadingBit := x.fraction.isLt
  by_cases subnormal : x.exponent.val = 0
  next =>
    rw [magnitude_eq, subnormal, significand, if_pos subnormal, Nat.zero_sub, Nat.pow_zero, Nat.mul_one]
    by_cases none : x.fraction.val = 0
    · rw [none]
      rfl
    · have few : x.fraction.val.log2 < 52 := (Nat.log2_lt none).mpr bounded
      omega
  next =>
    have shifted : x.magnitude.log2 = 52 + (x.exponent.val - 1) := by
      have power := Nat.two_pow_pos (x.exponent.val - 1)
      have atLeast := Nat.mul_le_mul_right (2 ^ (x.exponent.val - 1)) (leadingBit_le_significand subnormal)
      have below := Nat.mul_lt_mul_of_pos_right x.significand_lt power
      rw [← magnitude_eq] at atLeast below
      have positive : 0 < leadingBit * 2 ^ (x.exponent.val - 1) := Nat.mul_pos (by decide) power
      refine (Nat.log2_eq_iff (by omega)).mpr ⟨?_, ?_⟩
      · rwa [Nat.pow_add]
      · rwa [Nat.add_right_comm, Nat.pow_add]
    omega

theorem ofWord?_fields (negative : Bool) :
    ofWord? negative ((x.exponent.val - 1) * leadingBit + x.significand) = some { x with negative } := by
  have bounded : x.fraction.val < leadingBit := x.fraction.isLt
  have word : (x.exponent.val - 1) * leadingBit + x.significand =
      x.fraction.val + leadingBit * x.exponent.val := by
    unfold significand leadingBit
    split <;> omega
  have high : (x.fraction.val + leadingBit * x.exponent.val) / leadingBit = x.exponent.val := by
    rw [Nat.add_mul_div_left _ _ (by decide), Nat.div_eq_of_lt bounded, Nat.zero_add]
  have low : (x.fraction.val + leadingBit * x.exponent.val) % leadingBit = x.fraction.val := by
    rw [Nat.add_mul_mod_self_left, Nat.mod_eq_of_lt bounded]
  simp only [ofWord?, word, high, low, x.exponent.isLt, dif_pos]

theorem eq_zero_of_magnitude {x : Binary64} (none : x.magnitude = 0) : x = zero x.negative := by
  have nothing : x.significand = 0 :=
    (Nat.mul_eq_zero.mp none).resolve_right (Nat.pos_iff_ne_zero.mp (Nat.two_pow_pos _))
  have subnormal : x.exponent.val = 0 := Decidable.byContradiction fun normal =>
    Nat.ne_of_gt (Nat.lt_of_lt_of_le (by decide) (leadingBit_le_significand normal)) nothing
  rw [significand, if_pos subnormal] at nothing
  have exponent : x.exponent = 0 := Fin.ext subnormal
  have fraction : x.fraction = 0 := Fin.ext nothing
  rw [zero, ← exponent, ← fraction]

end Fields

theorem ofUnits?_magnitude (negative : Bool) (x : Binary64) {denominator : Nat}
    (positive : 0 < denominator) :
    ofUnits? negative (x.magnitude * denominator) denominator = some { x with negative } := by
  have shifted : x.magnitude * denominator =
      x.significand * (denominator * 2 ^ (x.exponent.val - 1)) := by
    rw [magnitude_eq, Nat.mul_assoc, Nat.mul_comm (2 ^ _)]
  simp only [ofUnits?, Nat.mul_div_cancel _ positive, log2_magnitude]
  rw [shifted, roundQuotient_mul_self _ (Nat.mul_pos positive (Nat.two_pow_pos _)), ofWord?_fields]

theorem ofRatio?_of_eq {negative : Bool} {x : Binary64} {numerator denominator : Nat}
    (positive : 0 < denominator) (same : numerator * perOne = x.magnitude * denominator) :
    ofRatio? negative numerator denominator = some { x with negative } := by
  rw [ofRatio?_eq_ofUnits?, same, ofUnits?_magnitude negative x positive]

theorem ofRatio?_congr (negative : Bool) {numerator denominator other below : Nat}
    (positive : 0 < denominator) (also : 0 < below)
    (same : numerator * below = other * denominator) :
    ofRatio? negative numerator denominator = ofRatio? negative other below := by
  rw [ofRatio?_eq_ofUnits?, ofRatio?_eq_ofUnits?, ← ofUnits?_mul_right negative _ denominator also,
    ← ofUnits?_mul_right negative _ below positive, Nat.mul_right_comm, same, Nat.mul_right_comm other,
    Nat.mul_comm below]

theorem ofRatio?_negative (negative : Bool) (numerator denominator : Nat) :
    ofRatio? negative numerator denominator =
      (ofRatio? false numerator denominator).map fun x => { x with negative } := by
  simp only [ofRatio?, ofWord?]
  split <;> rfl

end SharedTable.Binary64
