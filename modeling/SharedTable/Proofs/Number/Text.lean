import SharedTable.Number.Reader
import SharedTable.Proofs.Number.Decimal

set_option autoImplicit false

namespace SharedTable.Number

def Digits (text : List Char) : Prop := ∀ c ∈ text, c.isDigit = true

theorem digits_toDigits (n : Nat) : Digits (Nat.toDigits 10 n) := fun _ digit =>
  Nat.isDigit_of_mem_toDigits (by decide) (by decide) digit

theorem digits_zeros (count : Nat) : Digits (List.replicate count '0') := fun _ digit =>
  List.eq_of_mem_replicate digit ▸ rfl

theorem Digits.append {text more : List Char} (first : Digits text) (rest : Digits more) :
    Digits (text ++ more) := fun c digit => (List.mem_append.mp digit).elim (first c) (rest c)

theorem naturalOf_eq (digits : List Char) : naturalOf digits = Nat.ofDigitChars 10 digits 0 :=
  Nat.ofDigitChars_eq_foldl.symm

@[simp] theorem naturalOf_toDigits (n : Nat) : naturalOf (Nat.toDigits 10 n) = n := by
  rw [naturalOf_eq, Nat.ofDigitChars_ten_toDigits]

@[simp] theorem naturalOf_append_zeros (digits : List Char) (zeros : Nat) :
    naturalOf (digits ++ List.replicate zeros '0') = naturalOf digits * 10 ^ zeros := by
  rw [naturalOf_eq, Nat.ofDigitChars_append, Nat.ofDigitChars_replicate_zero, Nat.mul_comm, naturalOf_eq]

@[simp] theorem naturalOf_zeros_append (zeros : Nat) (digits : List Char) :
    naturalOf (List.replicate zeros '0' ++ digits) = naturalOf digits := by
  rw [naturalOf_eq, Nat.ofDigitChars_append, Nat.ofDigitChars_replicate_zero, Nat.mul_zero, naturalOf_eq]

section Signs

variable {c : Char} {rest : List Char} (negative : Bool)

theorem splitSign_signed (digit : c.isDigit = true) :
    splitSign (Layout.signed negative (c :: rest)) = (negative, c :: rest) := by
  cases negative with
  | true => rfl
  | false =>
    change splitSign (c :: rest) = _
    unfold splitSign
    split
    next same => cases same; cases digit
    next same => cases same; cases digit
    next => rfl

theorem integerOf?_signed (digit : c.isDigit = true) :
    integerOf? (Layout.signed negative (c :: rest)) =
      if (c :: rest).all Char.isDigit then
        Integer.ofInt? (if negative then -(naturalOf (c :: rest) : Int) else naturalOf (c :: rest))
      else none := by
  rw [integerOf?, splitSign_signed negative digit]
  dsimp only
  cases (c :: rest).all Char.isDigit <;> rfl

end Signs

theorem exists_toDigits_cons (n : Nat) :
    ∃ c rest, Nat.toDigits 10 n = c :: rest ∧ c.isDigit = true := by
  cases spelled : Nat.toDigits 10 n with
  | nil => exact absurd spelled Nat.toDigits_ne_nil
  | cons c rest => exact ⟨c, rest, rfl, digits_toDigits n c (spelled ▸ List.mem_cons_self)⟩

theorem integerOf?_text (n : Integer) : integerOf? n.text = some n := by
  obtain ⟨c, rest, spelled, digit⟩ := exists_toDigits_cons n.val.natAbs
  have digits : (c :: rest).all Char.isDigit = true := by
    rw [← spelled]
    exact List.all_eq_true.mpr (digits_toDigits _)
  rw [Integer.text, spelled, integerOf?_signed _ digit, if_pos digits, ← spelled, naturalOf_toDigits]
  have value : (if decide (n.val < 0) then -(n.val.natAbs : Int) else n.val.natAbs) = n.val := by
    by_cases below : n.val < 0
    · rw [if_pos (decide_eq_true below)]
      omega
    · rw [if_neg (by simpa using below)]
      omega
  rw [value, Integer.ofInt?, dif_pos ⟨n.lower, n.upper⟩]

def Apart (tail : List Char) : Prop := ∀ c ∈ tail.head?, c.isDigit = false

theorem apart_nil : Apart [] := nofun

theorem apart_point (rest : List Char) : Apart ('.' :: rest) := by
  rintro c ⟨⟩
  rfl

section Parts

variable {whole fraction tail : List Char}

theorem takeWhile_digits (digits : Digits whole) (apart : Apart tail) :
    (whole ++ tail).takeWhile Char.isDigit = whole := by
  rw [List.takeWhile_append_of_pos digits]
  cases tail with
  | nil => simp
  | cons c _ => simp [apart c rfl]

theorem dropWhile_digits (digits : Digits whole) (apart : Apart tail) :
    (whole ++ tail).dropWhile Char.isDigit = tail := by
  rw [List.dropWhile_append_of_pos digits]
  cases tail with
  | nil => simp
  | cons c _ => simp [apart c rfl]

theorem splitSign_whole (digits : Digits whole) (some : whole ≠ []) (tail : List Char) (negative : Bool) :
    splitSign (Layout.signed negative (whole ++ tail)) = (negative, whole ++ tail) := by
  obtain _ | ⟨c, rest⟩ := whole
  · cases some rfl
  · exact splitSign_signed negative (digits c List.mem_cons_self)

theorem decimalOf?_point (digits : Digits whole) (some : whole ≠ []) (more : Digits fraction)
    (apart : Apart tail) (negative : Bool) :
    decimalOf? (Layout.signed negative (whole ++ '.' :: (fraction ++ tail))) =
      (exponentOf? tail).map fun exponent =>
        (negative, ⟨naturalOf (whole ++ fraction), exponent - fraction.length⟩) := by
  rw [decimalOf?, splitSign_whole digits some]
  simp only [takeWhile_digits digits (apart_point _), dropWhile_digits digits (apart_point _),
    splitFraction, takeWhile_digits more apart, dropWhile_digits more apart,
    List.isEmpty_eq_false_iff.mpr some, Bool.false_and, Bool.false_eq_true, if_false]
  cases exponentOf? tail <;> rfl

theorem decimalOf?_plain (digits : Digits whole) (some : whole ≠ []) (apart : Apart tail)
    (noPoint : tail.head? ≠ Option.some '.') (negative : Bool) :
    decimalOf? (Layout.signed negative (whole ++ tail)) =
      (exponentOf? tail).map fun exponent => (negative, ⟨naturalOf whole, exponent⟩) := by
  have unsplit : splitFraction tail = ([], tail) := by
    unfold splitFraction
    split
    next => cases noPoint rfl
    next => rfl
  rw [decimalOf?, splitSign_whole digits some]
  simp only [takeWhile_digits digits apart, dropWhile_digits digits apart, unsplit,
    List.isEmpty_eq_false_iff.mpr some, Bool.false_and, Bool.false_eq_true, if_false, List.append_nil]
  cases exponentOf? tail with
  | none => rfl
  | some exponent =>
    change Option.some (negative, (⟨naturalOf whole, exponent - 0⟩ : Decimal)) = _
    rw [Int.sub_zero]
    rfl

end Parts

theorem exponentOf?_toDigits (exponent : Int) :
    exponentOf? ('e' :: (if exponent < 0 then '-' else '+') :: Nat.toDigits 10 exponent.natAbs) =
      some exponent := by
  obtain ⟨c, rest, spelled, digit⟩ := exists_toDigits_cons exponent.natAbs
  have digits : (c :: rest).all Char.isDigit = true := by
    rw [← spelled]
    exact List.all_eq_true.mpr (digits_toDigits _)
  have value := naturalOf_toDigits exponent.natAbs
  rw [spelled] at value ⊢
  have read (negative : Bool) (sign : Char) (split : splitSign (sign :: c :: rest) = (negative, c :: rest)) :
      exponentOf? ('e' :: sign :: c :: rest) =
        some (if negative then -(exponent.natAbs : Int) else exponent.natAbs) := by
    simp only [exponentOf?, true_or, if_true, split, List.isEmpty_cons, digits, value, Bool.not_true,
      Bool.false_or, Bool.false_eq_true, if_false]
  by_cases below : exponent < 0
  · rw [if_pos below, read true '-' rfl, if_pos rfl]
    congr 1
    omega
  · rw [if_neg below, read false '+' rfl, if_neg Bool.false_ne_true]
    congr 1
    omega

/--
Whether a text is read as some digits in front of a power of ten, up to zeros behind the digits, and not
as an integer.
-/
structure Spells (text digits : List Char) (exponent : Int) : Prop where
  begins : ∃ c rest, text = c :: rest ∧ c.isDigit = true
  marked : ∃ c ∈ text, c.isDigit = false
  reads : ∀ negative, ∃ zeros : Nat, decimalOf? (Layout.signed negative text) =
    some (negative, ⟨naturalOf digits * 10 ^ zeros, exponent - zeros⟩)

theorem Digits.begins {whole : List Char} (digits : Digits whole) (some : whole ≠ []) (tail : List Char) :
    ∃ c rest, whole ++ tail = c :: rest ∧ c.isDigit = true := by
  obtain _ | ⟨c, rest⟩ := whole
  · cases some rfl
  · exact ⟨c, rest ++ tail, rfl, digits c List.mem_cons_self⟩

theorem Spells.point {whole fraction digits : List Char} {exponent : Int} {zeros : Nat}
    (front : Digits whole) (some : whole ≠ []) (behind : Digits fraction)
    (value : naturalOf (whole ++ fraction) = naturalOf digits * 10 ^ zeros)
    (scale : exponent = zeros - fraction.length) : Spells (whole ++ '.' :: fraction) digits exponent where
  begins := front.begins some _
  marked := ⟨'.', by simp, rfl⟩
  reads negative := by
    have read := decimalOf?_point front some behind apart_nil negative
    rw [List.append_nil] at read
    refine ⟨zeros, read.trans ?_⟩
    have exponents : (0 : Int) - fraction.length = exponent - zeros := by omega
    rw [value]
    exact congrArg (fun exponent => Option.some (negative, Decimal.mk _ exponent)) exponents

section Layout

variable {digits : List Char} (given : Digits digits) (some : digits ≠ [])

include given some

theorem spells_placePoint (leading : Int) :
    Spells (Layout.placePoint ['.', '0'] digits leading) digits (leading - digits.length + 1) := by
  unfold Layout.placePoint
  by_cases small : leading < 0
  next =>
    rw [if_pos small]
    have zeros : naturalOf (['0'] ++ (List.replicate (-leading - 1).toNat '0' ++ digits)) =
        naturalOf digits * 10 ^ 0 := by
      rw [← List.append_assoc, List.singleton_append, ← List.replicate_succ, naturalOf_zeros_append]
      exact (Nat.mul_one _).symm
    refine Spells.point (digits_zeros 1) (List.cons_ne_nil _ _) ((digits_zeros _).append given) zeros ?_
    rw [List.length_append, List.length_replicate]
    omega
  rw [if_neg small]
  by_cases few : digits.length ≤ leading.toNat + 1
  next =>
    simp only [if_pos few]
    have zeros : naturalOf (digits ++ List.replicate (leading.toNat + 1 - digits.length) '0' ++ ['0']) =
        naturalOf digits * 10 ^ (leading.toNat + 1 - digits.length + 1) := by
      rw [List.append_assoc, ← List.replicate_succ', naturalOf_append_zeros]
    refine Spells.point (given.append (digits_zeros _)) (by simp [some]) (digits_zeros 1) zeros ?_
    rw [List.length_singleton]
    omega
  next =>
    simp only [if_neg few]
    refine @Spells.point _ _ _ _ 0 (fun c digit => given c (List.mem_of_mem_take digit)) (by simp [some])
      (fun c digit => given c (List.mem_of_mem_drop digit)) ?_ ?_
    · rw [List.take_append_drop]
      exact (Nat.mul_one _).symm
    · rw [List.length_drop]
      omega

theorem spells_withExponent (leading : Int) :
    Spells (Layout.withExponent digits leading) digits (leading - digits.length + 1) := by
  have apart : Apart ('e' :: (if leading < 0 then '-' else '+') :: Nat.toDigits 10 leading.natAbs) := by
    rintro c ⟨⟩
    rfl
  obtain _ | ⟨first, rest⟩ := digits
  · cases some rfl
  unfold Layout.withExponent
  cases rest with
  | nil =>
    refine ⟨given.begins some _, ⟨'e', by simp, rfl⟩, fun negative => ⟨0, ?_⟩⟩
    have read := decimalOf?_plain given some apart (by simp) negative
    rw [exponentOf?_toDigits] at read
    refine read.trans ?_
    simp
  | cons second rest =>
    change Spells ([first] ++ '.' :: ((second :: rest) ++ _)) _ _
    have front : Digits [first] := fun c digit => given c (List.mem_of_mem_take (i := 1) digit)
    have behind : Digits (second :: rest) := fun c digit => given c (List.mem_cons_of_mem first digit)
    refine ⟨front.begins (List.cons_ne_nil _ _) _, ⟨'.', by simp, rfl⟩, fun negative => ⟨0, ?_⟩⟩
    have read := decimalOf?_point front (List.cons_ne_nil _ _) behind apart negative
    rw [exponentOf?_toDigits] at read
    refine read.trans ?_
    simp
    omega

end Layout

theorem Spells.ofText? {text digits : List Char} {exponent : Int} (spells : Spells text digits exponent)
    {negative : Bool} {x : Binary64}
    (rounded : (⟨naturalOf digits, exponent⟩ : Decimal).toBinary64? negative = some x) :
    ofText? (String.ofList (Layout.signed negative text)) = some (.float x) := by
  obtain ⟨c, rest, rfl, digit⟩ := spells.begins
  obtain ⟨mark, member, plain⟩ := spells.marked
  obtain ⟨zeros, read⟩ := spells.reads negative
  have unlike : ¬ (c :: rest).all Char.isDigit = true := fun all =>
    absurd (List.all_eq_true.mp all mark member) (by rw [plain]; decide)
  have float : floatOf? (Layout.signed negative (c :: rest)) = some x := by
    rw [floatOf?, read]
    exact (Decimal.toBinary64?_shift negative _ _ zeros).trans rounded
  rw [Number.ofText?, String.toList_ofList, integerOf?_signed negative digit, if_neg unlike, float]
  rfl

section Chosen

variable {d : Decimal} (nonzero : d.coefficient ≠ 0)

theorem toDigits_eq_digitsOf (d : Decimal) :
    ∃ zeros, Nat.toDigits 10 d.coefficient = Layout.digitsOf d ++ List.replicate zeros '0' := by
  let backward := (Nat.toDigits 10 d.coefficient).reverse
  have dropped : backward.takeWhile (· == '0') =
      List.replicate (backward.takeWhile (· == '0')).length '0' :=
    List.eq_replicate_iff.mpr ⟨rfl, fun c zero =>
      beq_iff_eq.mp (List.all_eq_true.mp List.all_takeWhile c zero)⟩
  have split := congrArg List.reverse (@List.takeWhile_append_dropWhile _ (· == '0') backward)
  rw [List.reverse_append, dropped, List.reverse_replicate, List.reverse_reverse] at split
  exact ⟨_, split.symm⟩

theorem digits_digitsOf (d : Decimal) : Digits (Layout.digitsOf d) := by
  obtain ⟨zeros, split⟩ := toDigits_eq_digitsOf d
  intro c digit
  exact digits_toDigits d.coefficient c (split ▸ List.mem_append_left _ digit)

theorem coefficient_eq {zeros : Nat}
    (split : Nat.toDigits 10 d.coefficient = Layout.digitsOf d ++ List.replicate zeros '0') :
    d.coefficient = naturalOf (Layout.digitsOf d) * 10 ^ zeros := by
  rw [← naturalOf_append_zeros, ← split, naturalOf_toDigits]

include nonzero

theorem digitsOf_ne_nil : Layout.digitsOf d ≠ [] := by
  obtain ⟨zeros, split⟩ := toDigits_eq_digitsOf d
  intro none
  rw [coefficient_eq split, none] at nonzero
  exact nonzero (Nat.zero_mul _)

omit nonzero in
theorem toBinary64?_digitsOf (d : Decimal) (negative : Bool) :
    (⟨naturalOf (Layout.digitsOf d), d.leading - (Layout.digitsOf d).length + 1⟩ : Decimal).toBinary64?
      negative = d.toBinary64? negative := by
  obtain ⟨zeros, split⟩ := toDigits_eq_digitsOf d
  have exponent : d.leading - (Layout.digitsOf d).length + 1 - zeros = d.exponent := by
    rw [Decimal.leading, split, List.length_append, List.length_replicate]
    omega
  rw [← Decimal.toBinary64?_shift negative _ _ zeros, exponent, ← coefficient_eq split]

end Chosen

theorem coefficient_ne_zero {d : Decimal} {x : Binary64} (nonzero : x.magnitude ≠ 0) {negative : Bool}
    (reads : d.toBinary64? negative = some x) : d.coefficient ≠ 0 := by
  intro none
  rw [Decimal.toBinary64?, if_pos none] at reads
  cases reads
  exact nonzero rfl

theorem ofText?_float (x : Binary64) :
    ofText? (String.ofList (Layout.value.write x)) = some (.float x) := by
  unfold Layout.write
  by_cases none : x.magnitude = 0
  next =>
    have point : Spells (['0'] ++ '.' :: ['0']) [] (-1) :=
      @Spells.point _ _ _ _ 0 (digits_zeros 1) (List.cons_ne_nil _ _) (digits_zeros 1) rfl rfl
    rw [if_pos none]
    exact point.ofText? (congrArg some (Binary64.eq_zero_of_magnitude none).symm)
  next =>
    rw [if_neg none]
    have reads := Decimal.toBinary64?_shortest Layout.value.tie none
    generalize Decimal.shortest Layout.value.tie x = chosen at reads
    have some := digitsOf_ne_nil (coefficient_ne_zero none reads)
    have rounded := (toBinary64?_digitsOf chosen x.negative).trans reads
    dsimp only
    split
    · exact (spells_placePoint (digits_digitsOf chosen) some chosen.leading).ofText? rounded
    · exact (spells_withExponent (digits_digitsOf chosen) some chosen.leading).ofText? rounded

/-- Reading the value text of a number gives the number back, of the same kind. -/
theorem ofText?_write (n : Number) : ofText? (String.ofList (n.write Layout.value)) = some n := by
  cases n with
  | integer n =>
    change ofText? (String.ofList n.text) = _
    rw [Number.ofText?, String.toList_ofList, integerOf?_text]
  | float x => exact ofText?_float x

end SharedTable.Number
