import SharedTable.Proofs.Text.Utf8
import SharedTable.Value.Text

set_option autoImplicit false

namespace SharedTable.Reader

def isVerbatim (b : UInt8) : Prop := b ≠ 34 ∧ b ≠ 92 ∧ 32 ≤ b

theorem stringFrom_verbatim {bytes : Bytes} (verbatim : ∀ b ∈ bytes, isVerbatim b) (done rest : Bytes) :
    stringFrom .plain done (bytes ++ rest) = stringFrom .plain (bytes.reverse ++ done) rest := by
  induction bytes generalizing done with
  | nil => rfl
  | cons b bytes ih =>
    obtain ⟨quote, slash, least⟩ := verbatim b List.mem_cons_self
    have control : ¬ b < 32 := UInt8.not_lt.mpr least
    rw [List.cons_append, stringFrom]
    simp only [beq_iff_eq, quote, slash, control, if_false]
    rw [ih fun other member => verbatim other (List.mem_cons_of_mem _ member)]
    simp

theorem verbatim_of_large {c : Char} (large : 128 ≤ c.toNat) :
    ∀ b ∈ String.utf8EncodeChar c, isVerbatim b := by
  intro b member
  have least := UInt8.le_iff_toNat_le.mp (Text.le_of_mem_utf8EncodeChar large member)
  change 128 ≤ b.toNat at least
  refine ⟨?_, ?_, ?_⟩
  · rintro rfl
    exact absurd least (by decide)
  · rintro rfl
    exact absurd least (by decide)
  · rw [UInt8.le_iff_toNat_le]
    exact Nat.le_trans (by decide) least

theorem verbatim_of_small {c : Char} (small : c.toNat < 128) (least : 32 ≤ c.toNat)
    (quote : c ≠ '"') (slash : c ≠ '\\') : ∀ b ∈ String.utf8EncodeChar c, isVerbatim b := by
  intro b member
  rw [Text.utf8EncodeChar_of_small small, List.mem_singleton] at member
  have code : b.toNat = c.toNat := by
    rw [member, UInt8.toNat_ofNat', Nat.mod_eq_of_lt (by omega)]
  have other (d : Char) (differs : c ≠ d) : b.toNat ≠ d.toNat :=
    code ▸ fun same => differs (Char.toNat_inj.mp same)
  refine ⟨?_, ?_, ?_⟩
  · rintro rfl
    exact other _ quote rfl
  · rintro rfl
    exact other _ slash rfl
  · rw [UInt8.le_iff_toNat_le, code]
    exact least

theorem hexEscape_control {n : Nat} (control : n < 32) :
    hexEscape none [48, 48, UInt8.ofNat (Nat.digitChar (n / 16)).toNat,
      UInt8.ofNat (Nat.digitChar (n % 16)).toNat] =
      .ok (.plain, String.utf8EncodeChar (Char.ofNat n)) := by
  have digits : ∀ n, n < 32 → hexNumber? [48, 48, UInt8.ofNat (Nat.digitChar (n / 16)).toNat,
      UInt8.ofNat (Nat.digitChar (n % 16)).toNat] = some n := by
    decide
  have low : isLowSurrogate n = false := by
    simp only [isLowSurrogate, Bool.and_eq_false_iff, decide_eq_false_iff_not]
    omega
  have high : isHighSurrogate n = false := by
    simp only [isHighSurrogate, Bool.and_eq_false_iff, decide_eq_false_iff_not]
    omega
  simp [hexEscape, digits n control, low, high, pure, Except.pure]

theorem utf8EncodeChar_digitChar {n : Nat} (digit : n < 16) :
    String.utf8EncodeChar (Nat.digitChar n) = [UInt8.ofNat (Nat.digitChar n).toNat] := by
  have small : ∀ n, n < 16 → (Nat.digitChar n).toNat < 128 := by decide
  exact Text.utf8EncodeChar_of_small (small n digit)

theorem stringFrom_control {c : Char} (control : c.toNat < 32) (done rest : Bytes) :
    stringFrom .plain done
      (('\\' :: 'u' :: '0' :: '0' :: Text.hexPair c.toNat).flatMap String.utf8EncodeChar ++ rest) =
      stringFrom .plain ((String.utf8EncodeChar c).reverse ++ done) rest := by
  have escaped : ('\\' :: 'u' :: '0' :: '0' :: Text.hexPair c.toNat).flatMap String.utf8EncodeChar =
      [92, 117, 48, 48, UInt8.ofNat (Nat.digitChar (c.toNat / 16)).toNat,
        UInt8.ofNat (Nat.digitChar (c.toNat % 16)).toNat] := by
    simp only [Text.hexPair, List.flatMap_cons, List.flatMap_nil,
      utf8EncodeChar_digitChar (show c.toNat / 16 < 16 by omega),
      utf8EncodeChar_digitChar (show c.toNat % 16 < 16 by omega)]
    rfl
  rw [escaped]
  have same := hexEscape_control control
  rw [Char.ofNat_toNat] at same
  simp [stringFrom, same, bind, Except.bind]

theorem stringFrom_short {c : Char} {letter : UInt8} (small : c.toNat < 128) (mark : letter ≠ 117)
    (short : shortEscape? letter = some (UInt8.ofNat c.toNat)) (done rest : Bytes) :
    stringFrom .plain done (92 :: letter :: rest) =
      stringFrom .plain ((String.utf8EncodeChar c).reverse ++ done) rest := by
  simp [stringFrom, mark, short, Text.utf8EncodeChar_of_small small]

theorem stringFrom_escapeChar (c : Char) (done rest : Bytes) :
    stringFrom .plain done ((Text.escapeChar c).flatMap String.utf8EncodeChar ++ rest) =
      stringFrom .plain ((String.utf8EncodeChar c).reverse ++ done) rest := by
  have short (letter : UInt8) {n : Nat} (code : c.toNat = n) (small : n < 128) (mark : letter ≠ 117)
      (read : shortEscape? letter = some (UInt8.ofNat n)) :=
    stringFrom_short (c := c) (by omega) mark (by rw [code]; exact read) done rest
  -- One case for each branch of `escapeChar`, in its order.
  unfold Text.escapeChar
  by_cases quote : c = '"'
  · subst quote
    exact short 34 rfl (by decide) (by decide) (by decide)
  by_cases slash : c = '\\'
  · subst slash
    exact short 92 rfl (by decide) (by decide) (by decide)
  simp only [quote, slash, if_false]
  by_cases backspace : c.toNat = 8
  · rw [if_pos backspace]
    exact short 98 backspace (by decide) (by decide) (by decide)
  rw [if_neg backspace]
  by_cases tab : c.toNat = 9
  · rw [if_pos tab]
    exact short 116 tab (by decide) (by decide) (by decide)
  rw [if_neg tab]
  by_cases line : c.toNat = 10
  · rw [if_pos line]
    exact short 110 line (by decide) (by decide) (by decide)
  rw [if_neg line]
  by_cases form : c.toNat = 12
  · rw [if_pos form]
    exact short 102 form (by decide) (by decide) (by decide)
  rw [if_neg form]
  by_cases carriage : c.toNat = 13
  · rw [if_pos carriage]
    exact short 114 carriage (by decide) (by decide) (by decide)
  rw [if_neg carriage]
  by_cases control : c.toNat < 32
  · rw [if_pos control]
    exact stringFrom_control control done rest
  · rw [if_neg control, List.flatMap_singleton]
    by_cases small : c.toNat < 128
    · exact stringFrom_verbatim (verbatim_of_small small (Nat.le_of_not_lt control) quote slash) done rest
    · exact stringFrom_verbatim (verbatim_of_large (Nat.le_of_not_lt small)) done rest

theorem stringFrom_escaped (chars : List Char) (done rest : Bytes) :
    stringFrom .plain done ((chars.flatMap Text.escapeChar).flatMap String.utf8EncodeChar ++ rest) =
      stringFrom .plain ((chars.flatMap String.utf8EncodeChar).reverse ++ done) rest := by
  induction chars generalizing done with
  | nil => rfl
  | cons c chars ih =>
    rw [List.flatMap_cons, List.flatMap_append, List.append_assoc, stringFrom_escapeChar, ih,
      List.flatMap_cons, List.reverse_append, List.append_assoc]

theorem stringBody_quote (s : String) (rest : Bytes) :
    stringBody ((s.toList.flatMap Text.escapeChar).flatMap String.utf8EncodeChar ++ 34 :: rest) =
      .ok (s, rest) := by
  rw [stringBody, stringFrom_escaped, List.append_nil, stringFrom]
  simp only [beq_self_eq_true, if_true, List.reverse_reverse]
  rw [← Text.bytes_eq, Text.fromUTF8?_bytes]
  rfl

end SharedTable.Reader
