import Mathlib.Algebra.Group.Int.Defs
import Mathlib.Data.List.TakeWhile
import Mathlib.Data.String.Basic
import Mathlib.Order.Compare
import SharedTable.Proofs.Number.Text

set_option autoImplicit false

namespace SharedTable

def Integer.Narrow (n : Integer) : Prop := 0 ≤ n.val ∧ n.val < 10 ^ 16

namespace Number

theorem digit_bounds {c : Char} (digit : c.isDigit = true) : 48 ≤ c.toNat ∧ c.toNat ≤ 57 :=
  Char.isDigit_iff_toNat.mp digit

theorem ofDigitChars_lt_iff {xs ys : List Char} (digitsX : Digits xs) (digitsY : Digits ys)
    (same : xs.length = ys.length) (a b : Nat) :
    Nat.ofDigitChars 10 xs a < Nat.ofDigitChars 10 ys b ↔ a < b ∨ a = b ∧ xs < ys := by
  induction xs generalizing ys a b with
  | nil =>
    cases List.eq_nil_of_length_eq_zero same.symm
    simp
  | cons x xs ih =>
    obtain ⟨y, ys, rfl⟩ := List.exists_cons_of_length_eq_add_one same.symm
    obtain ⟨digitX, digitsX⟩ := List.forall_mem_cons.mp digitsX
    obtain ⟨digitY, digitsY⟩ := List.forall_mem_cons.mp digitsY
    have boundsX := digit_bounds digitX
    have boundsY := digit_bounds digitY
    have letters : x = y ↔ x.toNat = y.toNat := Char.toNat_inj.symm
    have order : x < y ↔ x.toNat < y.toNat := Iff.rfl
    have zero : '0'.toNat = 48 := rfl
    rw [Nat.ofDigitChars_cons, Nat.ofDigitChars_cons, ih digitsX digitsY (Nat.succ.inj same),
      List.cons_lt_cons_iff, letters, order, zero]
    by_cases later : xs < ys
    · simp only [later, and_true]
      omega
    · simp only [later, and_false, or_false]
      omega

theorem digits_lt_iff {xs ys : List Char} (digitsX : Digits xs) (digitsY : Digits ys)
    (same : xs.length = ys.length) : xs < ys ↔ naturalOf xs < naturalOf ys := by
  rw [naturalOf_eq, naturalOf_eq, ofDigitChars_lt_iff digitsX digitsY same]
  simp

theorem digits_leftpad (n : Nat) : Digits ((Nat.toDigits 10 n).leftpad keyWidth '0') :=
  (digits_zeros _).append (digits_toDigits n)

theorem naturalOf_leftpad (n : Nat) : naturalOf ((Nat.toDigits 10 n).leftpad keyWidth '0') = n := by
  rw [List.leftpad, naturalOf_zeros_append, naturalOf_toDigits]

theorem length_leftpad {n : Nat} (narrow : n < 10 ^ keyWidth) :
    ((Nat.toDigits 10 n).leftpad keyWidth '0').length = keyWidth := by
  rw [List.length_leftpad]
  exact Nat.max_eq_left ((Nat.length_toDigits_le_iff (by decide) (by decide)).mpr narrow)

theorem toList_padded {n : Integer} (positive : 0 ≤ n.val) :
    (padded (.integer n)).toList = (Nat.toDigits 10 n.val.natAbs).leftpad keyWidth '0' := by
  have unsigned : decide (n.val < 0) = false := by simpa using positive
  rw [padded, String.toList_ofList, write, Integer.text, unsigned]
  rfl

theorem digits_padded {n : Integer} (natural : 0 ≤ n.val) : Digits (padded (.integer n)).toList := by
  rw [toList_padded natural]
  exact digits_leftpad _

theorem naturalOf_padded {n : Integer} (natural : 0 ≤ n.val) :
    naturalOf (padded (.integer n)).toList = n.val.natAbs := by
  rw [toList_padded natural, naturalOf_leftpad]

theorem padded_lt_iff {m n : Integer} (narrowM : m.Narrow) (narrowN : n.Narrow) :
    padded (.integer m) < padded (.integer n) ↔ m.val < n.val := by
  have width {k : Integer} (narrow : k.Narrow) : k.val.natAbs < 10 ^ keyWidth := by
    unfold Integer.Narrow at narrow
    unfold keyWidth
    omega
  have same := (length_leftpad (width narrowM)).trans (length_leftpad (width narrowN)).symm
  rw [String.lt_iff_toList_lt, toList_padded narrowM.1, toList_padded narrowN.1,
    digits_lt_iff (digits_leftpad _) (digits_leftpad _) same, naturalOf_leftpad, naturalOf_leftpad]
  have positiveM := narrowM.1
  have positiveN := narrowN.1
  omega

/-- Whole numbers that fit into the width of keys are ordered by their texts. -/
theorem compare_padded {m n : Integer} (narrowM : m.Narrow) (narrowN : n.Narrow) :
    compare (padded (.integer m)) (padded (.integer n)) = compare m.val n.val := by
  rcases lt_trichotomy m.val n.val with less | same | more
  · rw [compare_lt_iff_lt.mpr less, compare_lt_iff_lt.mpr ((padded_lt_iff narrowM narrowN).mpr less)]
  · obtain ⟨m, _, _⟩ := m
    cases same
    rw [compare_eq_iff_eq.mpr rfl, compare_eq_iff_eq.mpr rfl]
  · rw [compare_gt_iff_gt.mpr more, compare_gt_iff_gt.mpr ((padded_lt_iff narrowN narrowM).mpr more)]

section Signed

theorem toList_padded_of_neg {n : Integer} (negative : n.val < 0) :
    (padded (.integer n)).toList =
      List.replicate (keyWidth - ((Nat.toDigits 10 n.val.natAbs).length + 1)) '0' ++
        '-' :: Nat.toDigits 10 n.val.natAbs := by
  rw [padded, String.toList_ofList, write, Integer.text, decide_eq_true negative]
  rfl

theorem keyWidth_le_length_padded (n : Number) : keyWidth ≤ n.padded.length := by
  rw [← String.length_toList, padded, String.toList_ofList, List.length_leftpad]
  exact Nat.le_max_left _ _

theorem isDigit_or_sign_of_mem_padded {n : Integer} {c : Char} (member : c ∈ (padded (.integer n)).toList) :
    c.isDigit = true ∨ c = '-' := by
  by_cases negative : n.val < 0
  next =>
    rw [toList_padded_of_neg negative, List.mem_append, List.mem_cons] at member
    rcases member with zero | sign | digit
    · exact .inl (digits_zeros _ c zero)
    · exact .inr sign
    · exact .inl (digits_toDigits _ c digit)
  next => exact .inl (digits_padded (Int.not_lt.mp negative) c member)

def wholeOf (text : List Char) : Int :=
  match text.dropWhile (· != '-') with
  | [] => naturalOf text
  | _ :: digits => -naturalOf digits

theorem unsigned_of_digits {text : List Char} (digits : Digits text) : ∀ c ∈ text, (c != '-') = true := by
  intro c member
  rw [bne_iff_ne]
  rintro rfl
  cases digits _ member

theorem wholeOf_digits {text : List Char} (digits : Digits text) : wholeOf text = naturalOf text := by
  have none : text.dropWhile (· != '-') = [] := List.dropWhile_eq_nil_iff.mpr (unsigned_of_digits digits)
  rw [wholeOf, none]

theorem wholeOf_sign {front : List Char} (digits : Digits front) (back : List Char) :
    wholeOf (front ++ '-' :: back) = -naturalOf back := by
  have rest : (front ++ '-' :: back).dropWhile (· != '-') = '-' :: back := by
    rw [List.dropWhile_append_of_pos (unsigned_of_digits digits)]
    rfl
  rw [wholeOf, rest]

/-- The zeros in front of an integer, and of its sign, leave it readable. -/
theorem wholeOf_padded (n : Integer) : wholeOf (padded (.integer n)).toList = n.val := by
  by_cases negative : n.val < 0
  next =>
    rw [toList_padded_of_neg negative, wholeOf_sign (digits_zeros _), naturalOf_toDigits]
    omega
  next =>
    have natural := Int.not_lt.mp negative
    rw [wholeOf_digits (digits_padded natural), naturalOf_padded natural]
    omega

theorem padded_inj {m n : Integer} : padded (.integer m) = padded (.integer n) ↔ m = n := by
  constructor
  · intro same
    have value : m.val = n.val := by
      calc m.val = wholeOf (padded (.integer m)).toList := (wholeOf_padded m).symm
        _ = wholeOf (padded (.integer n)).toList := by rw [same]
        _ = n.val := wholeOf_padded n
    cases m
    cases n
    simpa using value
  · rintro rfl
    rfl

end Signed

section Longer

theorem naturalOf_append (front back : List Char) :
    naturalOf (front ++ back) = 10 ^ back.length * naturalOf front + naturalOf back := by
  rw [naturalOf_eq, naturalOf_eq, naturalOf_eq, Nat.ofDigitChars_append,
    Nat.ofDigitChars_eq_ofDigitChars_zero]

theorem naturalOf_lt {text : List Char} (digits : Digits text) : naturalOf text < 10 ^ text.length := by
  induction text with
  | nil => exact Nat.one_pos
  | cons c text ih =>
    obtain ⟨digit, digits⟩ := List.forall_mem_cons.mp digits
    have small : naturalOf [c] ≤ 9 := by
      have bounds := digit_bounds digit
      have zero : '0'.toNat = 48 := rfl
      rw [naturalOf_eq, Nat.ofDigitChars_cons, Nat.ofDigitChars_nil, zero]
      omega
    have rest := ih digits
    rw [← List.singleton_append, naturalOf_append, List.singleton_append, List.length_cons, Nat.pow_succ]
    calc 10 ^ text.length * naturalOf [c] + naturalOf text
        < 10 ^ text.length * naturalOf [c] + 10 ^ text.length := Nat.add_lt_add_left rest _
      _ ≤ 10 ^ text.length * 10 := by
        rw [← Nat.mul_succ]
        exact Nat.mul_le_mul_left _ (Nat.succ_le_succ small)

theorem naturalOf_front {back : List Char} (digits : Digits back) (front : List Char) :
    naturalOf front = naturalOf (front ++ back) / 10 ^ back.length := by
  rw [naturalOf_append, Nat.mul_add_div (Nat.pow_pos (by decide)), Nat.div_eq_of_lt (naturalOf_lt digits),
    Nat.add_zero]

theorem lt_append_iff {xs front back : List Char} (same : xs.length = front.length) (some : back ≠ []) :
    xs < front ++ back ↔ ¬ front < xs := by
  induction xs generalizing front with
  | nil =>
    cases List.eq_nil_of_length_eq_zero same.symm
    obtain ⟨c, back, rfl⟩ := List.exists_cons_of_ne_nil some
    simp
  | cons x xs ih =>
    obtain ⟨y, front, rfl⟩ := List.exists_cons_of_length_eq_add_one same.symm
    rw [List.cons_append, List.cons_lt_cons_iff, List.cons_lt_cons_iff, ih (Nat.succ.inj same)]
    rcases lt_trichotomy x y with below | rfl | above
    · simp [below, below.not_gt, below.ne']
    · simp
    · simp [above, above.not_gt, above.ne']

theorem digits_lt_iff_of_lt {xs ys : List Char} (digitsX : Digits xs) (digitsY : Digits ys)
    (atMost : xs.length ≤ ys.length) (less : naturalOf xs < naturalOf ys) :
    xs < ys ↔ naturalOf xs ≤ naturalOf ys / 10 ^ (ys.length - xs.length) := by
  rcases Nat.eq_or_lt_of_le atMost with same | shorter
  · rw [same, Nat.sub_self, Nat.pow_zero, Nat.div_one, digits_lt_iff digitsX digitsY same]
    exact iff_of_true less less.le
  · have front : (ys.take xs.length).length = xs.length := List.length_take_of_le atMost
    have back : (ys.drop xs.length).length = ys.length - xs.length := List.length_drop
    have some : ys.drop xs.length ≠ [] := by
      rw [← List.length_pos_iff, back]
      omega
    have digitsFront : Digits (ys.take xs.length) := fun c member => digitsY c (List.mem_of_mem_take member)
    have digitsBack : Digits (ys.drop xs.length) := fun c member => digitsY c (List.mem_of_mem_drop member)
    have quotient := naturalOf_front digitsBack (ys.take xs.length)
    rw [List.take_append_drop, back] at quotient
    rw [← quotient, ← not_lt, ← digits_lt_iff digitsFront digitsX front,
      ← lt_append_iff front.symm some, List.take_append_drop]

theorem length_leftpad_mono {m n : Nat} (less : m ≤ n) :
    ((Nat.toDigits 10 m).leftpad keyWidth '0').length ≤
      ((Nat.toDigits 10 n).leftpad keyWidth '0').length := by
  have digits : (Nat.toDigits 10 m).length ≤ (Nat.toDigits 10 n).length :=
    (Nat.length_toDigits_le_iff (by decide) Nat.length_toDigits_pos).mpr <| less.trans_lt <|
      (Nat.length_toDigits_le_iff (by decide) Nat.length_toDigits_pos).mp (Nat.le_refl _)
  rw [List.length_leftpad, List.length_leftpad]
  exact max_le_max_left _ digits

variable {m n : Integer} (natural : 0 ≤ m.val) (less : m.val < n.val)

include natural less

theorem padded_lt_iff_of_lt :
    padded (.integer m) < padded (.integer n) ↔
      m.val ≤ n.val / 10 ^ ((padded (.integer n)).length - (padded (.integer m)).length) := by
  have also := natural.trans less.le
  have atMost : (padded (.integer m)).toList.length ≤ (padded (.integer n)).toList.length := by
    rw [toList_padded natural, toList_padded also]
    exact length_leftpad_mono (by omega)
  have smaller : naturalOf (padded (.integer m)).toList < naturalOf (padded (.integer n)).toList := by
    rw [naturalOf_padded natural, naturalOf_padded also]
    omega
  rw [String.lt_iff_toList_lt, digits_lt_iff_of_lt (digits_padded natural) (digits_padded also) atMost smaller,
    naturalOf_padded natural, naturalOf_padded also, String.length_toList, String.length_toList]
  generalize (padded (.integer n)).length - (padded (.integer m)).length = further
  have wholeM := Int.natAbs_of_nonneg natural
  have wholeN := Int.natAbs_of_nonneg also
  rw [← wholeM, ← wholeN]
  exact_mod_cast Iff.rfl

end Longer

end Number

end SharedTable
