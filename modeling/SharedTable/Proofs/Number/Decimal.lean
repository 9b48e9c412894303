import SharedTable.Number.Decimal
import SharedTable.Proofs.Number.Binary64

set_option autoImplicit false

namespace SharedTable.Decimal

theorem toDigits_mul_ten {n : Nat} (positive : 0 < n) :
    Nat.toDigits 10 (10 * n) = Nat.toDigits 10 n ++ ['0'] :=
  (@Nat.toDigits_append_toDigits 10 n 0 (by decide) positive (by decide)).symm

theorem toDigits_mul_pow {n : Nat} (positive : 0 < n) (zeros : Nat) :
    Nat.toDigits 10 (n * 10 ^ zeros) = Nat.toDigits 10 n ++ List.replicate zeros '0' := by
  induction zeros with
  | zero => simp
  | succ zeros ih =>
    rw [Nat.pow_succ, ← Nat.mul_assoc, Nat.mul_comm _ 10,
      toDigits_mul_ten (Nat.mul_pos positive (Nat.pow_pos (by decide))), ih, List.append_assoc,
      List.replicate_succ']

theorem leading_shift {coefficient : Nat} (positive : 0 < coefficient) (exponent : Int) (zeros : Nat) :
    leading ⟨coefficient * 10 ^ zeros, exponent - zeros⟩ = leading ⟨coefficient, exponent⟩ := by
  simp only [leading, toDigits_mul_pow positive, List.length_append, List.length_replicate]
  omega

theorem toBinary64?_shift (negative : Bool) (coefficient : Nat) (exponent : Int) (zeros : Nat) :
    toBinary64? negative ⟨coefficient * 10 ^ zeros, exponent - zeros⟩ =
      toBinary64? negative ⟨coefficient, exponent⟩ := by
  by_cases none : coefficient = 0
  next => simp [toBinary64?, none]
  next =>
    have same : coefficient * 10 ^ zeros ≠ 0 :=
      Nat.mul_ne_zero none (Nat.pos_iff_ne_zero.mp (Nat.pow_pos (by decide)))
    -- Which power is left of the two, and on which side of the ratio, depends on the exponents.
    have exponents : zeros + (exponent - zeros).toNat + (-exponent).toNat =
        exponent.toNat + (-(exponent - zeros)).toNat := by
      omega
    have ratio : coefficient * 10 ^ zeros * 10 ^ (exponent - zeros).toNat * 10 ^ (-exponent).toNat =
        coefficient * 10 ^ exponent.toNat * 10 ^ (-(exponent - zeros)).toNat := by
      simp only [Nat.mul_assoc, ← Nat.pow_add, exponents]
    simp only [toBinary64?, leading_shift (Nat.pos_of_ne_zero none), none, same, if_false, Nat.pow_eq]
    rw [Binary64.ofRatio?_congr negative (Nat.pow_pos (by decide)) (Nat.pow_pos (by decide)) ratio]

theorem toBinary64?_negative (negative : Bool) (d : Decimal) :
    d.toBinary64? negative = (d.toBinary64? false).map fun x => { x with negative } := by
  unfold toBinary64?
  split
  · rfl
  split
  · rfl
  split
  · rfl
  exact Binary64.ofRatio?_negative negative _ _

theorem le_leading {coefficient digits : Nat} (atLeast : Nat.pow 10 digits ≤ coefficient)
    (exponent : Int) : exponent + digits ≤ leading ⟨coefficient, exponent⟩ := by
  have many : digits < (Nat.toDigits 10 coefficient).length := by
    cases digits with
    | zero => exact Nat.length_toDigits_pos
    | succ digits =>
      refine Nat.lt_of_not_le fun few => ?_
      have below := (Nat.length_toDigits_le_iff (by decide) digits.succ_pos).mp few
      exact Nat.not_lt_of_le atLeast below
  simp only [leading]
  omega

theorem leading_lt {coefficient digits : Nat} (positive : 0 < digits)
    (below : coefficient < Nat.pow 10 digits) (exponent : Int) :
    leading ⟨coefficient, exponent⟩ < exponent + digits := by
  have few := (Nat.length_toDigits_le_iff (by decide) positive).mpr below
  simp only [leading]
  omega

theorem power_pos (base power : Nat) (positive : 0 < base) : 0 < Nat.pow base power := Nat.pow_pos positive

theorem fives_pos : 0 < Nat.pow 5 1074 := by decide +kernel

theorem fives_times_twos (n power : Nat) :
    n * Nat.pow 5 power * Nat.pow 10 0 * Nat.pow 2 power = n * Nat.pow 10 power := by
  simp only [Nat.pow_eq, Nat.pow_zero, Nat.mul_one, Nat.mul_assoc, ← Nat.mul_pow]

section Exact

variable {x : Binary64} (nonzero : x.magnitude ≠ 0)

include nonzero

theorem exact_leading : -330 ≤ (exact x).leading ∧ (exact x).leading ≤ 308 := by
  constructor
  · have least : Nat.pow 10 744 ≤ x.magnitude * Nat.pow 5 1074 :=
      Nat.le_trans (by decide +kernel) (Nat.le_mul_of_pos_left _ (Nat.pos_of_ne_zero nonzero))
    exact le_leading least (-1074)
  · have few : x.exponent.val - 1 ≤ 2045 := by
      have finite := x.exponent.isLt
      omega
    have most : x.magnitude * Nat.pow 5 1074 < Nat.pow 10 1383 :=
      Nat.lt_of_lt_of_le (Nat.mul_lt_mul_of_pos_right (x.magnitude_lt few) fives_pos)
        (by decide +kernel)
    exact Int.le_of_lt_add_one (leading_lt (by decide) most (-1074))

theorem toBinary64?_exact (negative : Bool) :
    (exact x).toBinary64? negative = some { x with negative } := by
  obtain ⟨low, high⟩ := exact_leading nonzero
  have digits : (exact x).coefficient ≠ 0 :=
    Nat.mul_ne_zero nonzero (Nat.pos_iff_ne_zero.mp fives_pos)
  rw [toBinary64?, if_neg digits, if_neg (Int.not_lt.mpr high), if_neg (Int.not_lt.mpr low)]
  refine Binary64.ofRatio?_of_eq (power_pos 10 _ (by decide)) ?_
  have above : (exact x).exponent.toNat = 0 := rfl
  have below : (-(exact x).exponent).toNat = 1074 := rfl
  rw [above, below]
  unfold exact Binary64.perOne
  generalize 1074 = power
  exact fives_times_twos x.magnitude power

end Exact

theorem toBinary64?_onGrid {tie : TieRule} {x : Binary64} {exponent : Int} {d : Decimal}
    (found : onGrid? tie x exponent = some d) : d.toBinary64? false = some x.abs := by
  unfold onGrid? at found
  simp only at found
  split at found
  next below above =>
    rw [beq_iff_eq] at below above
    split at found
    next => exact Option.some.inj found ▸ below
    next =>
      split at found
      next => exact Option.some.inj found ▸ above
      next => split at found <;> cases found <;> assumption
  next below _ => exact Option.some.inj found ▸ beq_iff_eq.mp below
  next _ above => exact Option.some.inj found ▸ beq_iff_eq.mp above
  next => cases found

theorem toBinary64?_shortest (tie : TieRule) {x : Binary64} (nonzero : x.magnitude ≠ 0) :
    (shortest tie x).toBinary64? x.negative = some x := by
  have reads : (shortest tie x).toBinary64? false = some x.abs := by
    rw [shortest, if_neg nonzero]
    cases found : (List.range 17).findSome? fun more : Nat => onGrid? tie x (leadingExponent x - more) with
    | none => exact toBinary64?_exact nonzero false
    | some d =>
      obtain ⟨_, _, grid⟩ := List.exists_of_findSome?_eq_some found
      exact toBinary64?_onGrid grid
  rw [toBinary64?_negative, reads]
  rfl

end SharedTable.Decimal
