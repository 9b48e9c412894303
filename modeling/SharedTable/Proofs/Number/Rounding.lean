import Mathlib.Algebra.Order.Ring.Int
import Mathlib.Order.Compare
import SharedTable.Number.Basic
import SharedTable.Proofs.Number.Binary64

/-!
Whole numbers as doubles. A whole number becomes the nearest one of 53 significant bits, so rounding keeps
the order of numbers but may make two of them one.
-/

set_option autoImplicit false

namespace SharedTable

namespace Binary64

section Quotient

theorem roundQuotient_cases (numerator denominator : Nat) :
    roundQuotient numerator denominator = numerator / denominator ∧
        2 * (numerator % denominator) ≤ denominator ∨
      roundQuotient numerator denominator = numerator / denominator + 1 ∧
        denominator ≤ 2 * (numerator % denominator) := by
  simp only [roundQuotient]
  split_ifs <;> omega

theorem roundQuotient_bounds (numerator denominator : Nat) :
    numerator / denominator ≤ roundQuotient numerator denominator ∧
      roundQuotient numerator denominator ≤ numerator / denominator + 1 := by
  have := roundQuotient_cases numerator denominator
  omega

theorem roundQuotient_mono (denominator : Nat) {less more : Nat} (order : less ≤ more) :
    roundQuotient less denominator ≤ roundQuotient more denominator := by
  have quotients : less / denominator ≤ more / denominator := Nat.div_le_div_right order
  by_cases same : less / denominator = more / denominator
  · -- With one quotient the larger number has the larger remainder.
    have low := Nat.div_add_mod less denominator
    have high := Nat.div_add_mod more denominator
    rw [same] at low
    have remainders : less % denominator ≤ more % denominator := by omega
    simp only [roundQuotient, same]
    grind
  · have below := (roundQuotient_bounds less denominator).2
    have above := (roundQuotient_bounds more denominator).1
    omega

end Quotient

def spacing (n : Nat) : Nat := 2 ^ (n.log2 - 52)

/-- The double nearest to a whole number, as a whole number; of two equally near ones the even. -/
def nearest (n : Nat) : Nat := roundQuotient n (spacing n) * spacing n

theorem spacing_pos (n : Nat) : 0 < spacing n := Nat.two_pow_pos _

theorem nearest_near (n : Nat) :
    2 * n ≤ 2 * nearest n + spacing n ∧ 2 * nearest n ≤ 2 * n + spacing n := by
  have split := Nat.div_add_mod' n (spacing n)
  have rest := Nat.mod_lt n (spacing_pos n)
  rw [nearest]
  obtain ⟨down, near⟩ | ⟨up, near⟩ := roundQuotient_cases n (spacing n)
  · rw [down]
    omega
  · rw [up, Nat.add_one_mul (n / spacing n)]
    omega

section Bits

variable {n : Nat}

theorem nearest_of_dvd (divides : spacing n ∣ n) : nearest n = n := by
  have whole := roundQuotient_mul_self (n / spacing n) (spacing_pos n)
  rw [Nat.div_mul_cancel divides] at whole
  rw [nearest, whole, Nat.div_mul_cancel divides]

theorem spacing_of_few (few : n.log2 ≤ 52) : spacing n = 1 := by
  rw [spacing, Nat.sub_eq_zero_of_le few, Nat.pow_zero]

theorem nearest_of_few (few : n.log2 ≤ 52) : nearest n = n :=
  nearest_of_dvd (spacing_of_few few ▸ Nat.one_dvd n)

theorem log2_le_of_lt (small : n < 2 ^ 53) : n.log2 ≤ 52 := by
  by_cases none : n = 0
  · rw [none]
    decide
  · exact Nat.le_of_lt_succ ((Nat.log2_lt none).mpr small)

theorem nearest_of_lt (small : n < 2 ^ 53) : nearest n = n :=
  nearest_of_few (log2_le_of_lt small)

theorem leadingBit_mul_spacing (many : 52 ≤ n.log2) : leadingBit * spacing n = 2 ^ n.log2 := by
  rw [show leadingBit = 2 ^ 52 from rfl, spacing, ← Nat.pow_add, Nat.add_sub_of_le many]

theorem roundQuotient_spacing_le (n : Nat) : roundQuotient n (spacing n) ≤ 2 * leadingBit := by
  have quotient : n / spacing n < 2 * leadingBit := by
    refine (Nat.div_lt_iff_lt_mul (spacing_pos n)).mpr ?_
    by_cases many : 52 ≤ n.log2
    · rw [Nat.mul_assoc, leadingBit_mul_spacing many, Nat.mul_comm, ← Nat.pow_succ]
      exact Nat.lt_log2_self
    · rw [spacing_of_few (by omega)]
      exact Nat.lt_of_lt_of_le Nat.lt_log2_self (Nat.pow_le_pow_right (by decide) (by omega : n.log2 + 1 ≤ 53))
  exact Nat.le_trans (roundQuotient_bounds ..).2 quotient

theorem le_roundQuotient_spacing (many : 52 ≤ n.log2) : leadingBit ≤ roundQuotient n (spacing n) := by
  have some : n ≠ 0 := by
    rintro rfl
    exact absurd many (by decide)
  refine Nat.le_trans ((Nat.le_div_iff_mul_le (spacing_pos n)).mpr ?_) (roundQuotient_bounds ..).1
  rw [leadingBit_mul_spacing many]
  exact Nat.log2_self_le some

theorem nearest_bounds (some : n ≠ 0) : 2 ^ n.log2 ≤ nearest n ∧ nearest n ≤ 2 ^ (n.log2 + 1) := by
  by_cases many : 52 ≤ n.log2
  · rw [Nat.pow_succ, Nat.mul_comm _ 2, ← leadingBit_mul_spacing many, ← Nat.mul_assoc]
    exact ⟨Nat.mul_le_mul_right _ (le_roundQuotient_spacing many),
      Nat.mul_le_mul_right _ (roundQuotient_spacing_le n)⟩
  · rw [nearest_of_few (by omega)]
    exact ⟨Nat.log2_self_le some, Nat.le_of_lt Nat.lt_log2_self⟩

theorem lt_of_nearest_lt (small : nearest n < 2 ^ 53) : n < 2 ^ 53 := by
  refine Nat.lt_of_not_ge fun large => Nat.not_le_of_lt small ?_
  have some : n ≠ 0 := by omega
  calc 2 ^ 53 ≤ 2 ^ n.log2 := Nat.pow_le_pow_right (by decide) ((Nat.le_log2 some).mpr large)
    _ ≤ nearest n := (nearest_bounds some).1

end Bits

theorem nearest_mono {less more : Nat} (order : less ≤ more) : nearest less ≤ nearest more := by
  by_cases none : less = 0
  · subst none
    exact Nat.zero_le _
  have someMore : more ≠ 0 := by omega
  by_cases same : less.log2 = more.log2
  · rw [nearest, nearest, spacing, spacing, same]
    exact Nat.mul_le_mul_right _ (roundQuotient_mono _ order)
  · -- A power of two stands between the two numbers, and between what they round to.
    have fewer : less.log2 + 1 ≤ more.log2 := by
      have below : less.log2 < more.log2 + 1 :=
        (Nat.log2_lt none).mpr (Nat.lt_of_le_of_lt order Nat.lt_log2_self)
      omega
    calc nearest less ≤ 2 ^ (less.log2 + 1) := (nearest_bounds none).2
      _ ≤ 2 ^ more.log2 := Nat.pow_le_pow_right (by decide) fewer
      _ ≤ nearest more := (nearest_bounds someMore).1

section Power

theorem log2_mul_pow {n : Nat} (some : n ≠ 0) (power : Nat) : (n * 2 ^ power).log2 = n.log2 + power := by
  have positive := Nat.two_pow_pos power
  refine (Nat.log2_eq_iff (Nat.mul_ne_zero some positive.ne')).mpr ⟨?_, ?_⟩
  · rw [Nat.pow_add]
    exact Nat.mul_le_mul_right _ (Nat.log2_self_le some)
  · rw [Nat.add_right_comm, Nat.pow_add]
    exact Nat.mul_lt_mul_of_pos_right Nat.lt_log2_self positive

theorem nearest_mul_pow (n power : Nat) : nearest (n * 2 ^ power) = nearest n * 2 ^ power := by
  by_cases none : n = 0
  · subst none
    simp [nearest_of_lt]
  by_cases many : 52 ≤ n.log2
  · have moved : spacing (n * 2 ^ power) = spacing n * 2 ^ power := by
      rw [spacing, spacing, log2_mul_pow none, ← Nat.pow_add, Nat.sub_add_comm many]
    rw [nearest, moved, roundQuotient_mul_right _ _ (Nat.two_pow_pos power), nearest, Nat.mul_assoc]
  · rw [nearest_of_few (n := n) (by omega)]
    refine nearest_of_dvd (Nat.dvd_mul_left_of_dvd (Nat.pow_dvd_pow 2 ?_) n)
    rw [log2_mul_pow none]
    omega

theorem exists_perOne : ∃ power < 1075, perOne = 2 ^ power := by
  -- The exponent stays out of the statement, or the power is worked out wherever terms are compared.
  have spelled : ∃ power < 1075, perOne = Nat.pow 2 power := by
    refine ⟨1074, by decide, ?_⟩
    unfold perOne
    rfl
  exact spelled

end Power

-- A significand that rounds up to twice the leading bit carries into the exponent field.
theorem ofWord?_shifted (negative : Bool) {shift significand : Nat} (bounded : significand ≤ 2 * leadingBit)
    (normal : shift = 0 ∨ leadingBit ≤ significand) (finite : shift + 2 < 2047) :
    ∃ x, ofWord? negative (shift * leadingBit + significand) = some x ∧ x.negative = negative ∧
      x.magnitude = significand * 2 ^ shift := by
  have fits : (shift * leadingBit + significand) / leadingBit < 2047 := by
    unfold leadingBit at *
    omega
  refine ⟨_, dif_pos fits, rfl, ?_⟩
  simp only [magnitude, Binary64.significand]
  rcases Nat.lt_or_ge significand leadingBit with subnormal | least
  · obtain rfl : shift = 0 := normal.resolve_right (by omega)
    rw [Nat.zero_mul, Nat.zero_add, Nat.div_eq_of_lt subnormal, Nat.mod_eq_of_lt subnormal, if_pos rfl]
    rfl
  · rcases Nat.lt_or_ge significand (2 * leadingBit) with below | most
    · have high : (shift * leadingBit + significand) / leadingBit = shift + 1 := by
        unfold leadingBit at *
        omega
      have low : (shift * leadingBit + significand) % leadingBit = significand - leadingBit := by
        unfold leadingBit at *
        omega
      rw [high, low, if_neg (Nat.succ_ne_zero shift), Nat.add_sub_of_le least, Nat.add_sub_cancel]
      rfl
    · obtain rfl : significand = 2 * leadingBit := Nat.le_antisymm bounded most
      rw [← Nat.add_mul, Nat.mul_div_cancel _ (by decide), Nat.mul_mod_left,
        if_neg (Nat.succ_ne_zero (shift + 1)), Nat.add_zero]
      show leadingBit * 2 ^ (shift + 1) = 2 * leadingBit * 2 ^ shift
      rw [Nat.pow_succ', ← Nat.mul_assoc, Nat.mul_comm leadingBit]

theorem ofUnits?_nearest (negative : Bool) {scaled : Nat} (finite : scaled.log2 < 2097) :
    ∃ x, ofUnits? negative scaled 1 = some x ∧ x.negative = negative ∧ x.magnitude = nearest scaled := by
  have normal : scaled.log2 - 52 = 0 ∨ leadingBit ≤ roundQuotient scaled (spacing scaled) := by
    by_cases many : 52 ≤ scaled.log2
    · exact .inr (le_roundQuotient_spacing many)
    · exact .inl (by omega)
  rw [ofUnits?, Nat.div_one, Nat.one_mul]
  exact ofWord?_shifted negative (roundQuotient_spacing_le scaled) normal (by omega)

end Binary64

namespace Integer

def nearest (n : Integer) : Int :=
  if n.val < 0 then -(Binary64.nearest n.val.natAbs : Int) else Binary64.nearest n.val.natAbs

theorem nearest_mono {m n : Integer} (order : m.val ≤ n.val) : m.nearest ≤ n.nearest := by
  unfold nearest
  split <;> split
  · have := Binary64.nearest_mono (by omega : n.val.natAbs ≤ m.val.natAbs)
    omega
  · omega
  · omega
  · have := Binary64.nearest_mono (by omega : m.val.natAbs ≤ n.val.natAbs)
    omega

theorem nearest_of_lt {n : Integer} (small : n.val.natAbs < 2 ^ 53) : n.nearest = n.val := by
  rw [nearest, Binary64.nearest_of_lt small]
  omega

/-- An integer of at most 53 bits is the only one of its double. -/
theorem eq_of_nearest {m n : Integer} (small : m.val.natAbs < 2 ^ 53) (same : m.nearest = n.nearest) :
    m.val = n.val := by
  have alike : n.nearest.natAbs = Binary64.nearest n.val.natAbs := by
    rw [nearest]
    split <;> omega
  have few : n.val.natAbs < 2 ^ 53 := by
    refine Binary64.lt_of_nearest_lt ?_
    rwa [← alike, ← same, nearest_of_lt small]
  rwa [nearest_of_lt small, nearest_of_lt few] at same

theorem units_ofInt (n : Integer) : (Binary64.ofInt n.val).units = n.nearest * Binary64.perOne := by
  obtain ⟨power, few, perOne⟩ := Binary64.exists_perOne
  have finite : (n.val.natAbs * Binary64.perOne).log2 < 2097 := by
    by_cases none : n.val.natAbs = 0
    · rw [none, Nat.zero_mul]
      decide
    · have lower := n.lower
      have upper := n.upper
      have bits : n.val.natAbs.log2 < 64 := (Nat.log2_lt none).mpr (by omega)
      rw [perOne, Binary64.log2_mul_pow none]
      omega
  obtain ⟨x, rounded, sign, magnitude⟩ := Binary64.ofUnits?_nearest (decide (n.val < 0)) finite
  rw [perOne, Binary64.nearest_mul_pow, ← perOne] at magnitude
  rw [Binary64.ofInt, Binary64.ofRatio?_eq_ofUnits?, rounded, Option.getD_some, Binary64.units, sign,
    magnitude, Int.natCast_mul, nearest, ite_mul, Int.neg_mul]
  simp only [decide_eq_true_iff]

end Integer

theorem Number.compare_integer (m n : Integer) :
    compare (Number.integer m) (Number.integer n) = compare m.nearest n.nearest := by
  have positive : (0 : Int) < Binary64.perOne := by
    obtain ⟨power, -, perOne⟩ := Binary64.exists_perOne
    rw [perOne]
    exact Int.natCast_pos.mpr (Nat.two_pow_pos power)
  calc compare (Number.integer m) (Number.integer n)
      = compare (Binary64.ofInt m.val).units (Binary64.ofInt n.val).units := rfl
    _ = compare (m.nearest * Binary64.perOne) (n.nearest * Binary64.perOne) := by
      rw [m.units_ofInt, n.units_ofInt]
    _ = compare m.nearest n.nearest := by
      rw [← cmp_eq_compare, ← cmp_eq_compare]
      exact (strictMono_mul_right_of_pos positive).cmp_map_eq ..

end SharedTable
