import SharedTable.Value.Reader

set_option autoImplicit false

namespace SharedTable.Text

theorem bytes_ofList (chars : List Char) :
    bytes (String.ofList chars) = chars.flatMap String.utf8EncodeChar := by
  unfold bytes
  rw [String.toUTF8_eq_toByteArray, String.toByteArray_ofList, List.utf8Encode]
  simp

theorem bytes_eq (s : String) : bytes s = s.toList.flatMap String.utf8EncodeChar := by
  rw [← bytes_ofList, String.ofList_toList]

theorem fromUTF8?_bytes (s : String) : String.fromUTF8? ⟨(bytes s).toArray⟩ = some s := by
  have same : (⟨(bytes s).toArray⟩ : ByteArray) = s.toByteArray := by
    simp [bytes]
  rw [same, String.fromUTF8?, dif_pos s.isValidUTF8]
  rfl

theorem utf8EncodeChar_of_small {c : Char} (small : c.toNat < 128) :
    String.utf8EncodeChar c = [UInt8.ofNat c.toNat] :=
  if_pos (Nat.le_of_lt_succ small)

theorem le_of_mem_utf8EncodeChar {c : Char} (large : 128 ≤ c.toNat) {b : UInt8}
    (member : b ∈ String.utf8EncodeChar c) : 128 ≤ b := by
  have high (n : Nat) (least : 128 ≤ n) (most : n < 256) : 128 ≤ UInt8.ofNat n := by
    rw [UInt8.le_iff_toNat_le, UInt8.toNat_ofNat', Nat.mod_eq_of_lt most]
    exact least
  simp only [Char.toNat] at large
  simp only [String.utf8EncodeChar, show ¬ c.val.toNat ≤ 0x7f by omega, if_false] at member
  split at member
  next =>
    simp only [List.mem_cons, List.not_mem_nil, or_false] at member
    rcases member with rfl | rfl <;> exact high _ (by omega) (by omega)
  next =>
    split at member
    next =>
      simp only [List.mem_cons, List.not_mem_nil, or_false] at member
      rcases member with rfl | rfl | rfl <;> exact high _ (by omega) (by omega)
    next =>
      simp only [List.mem_cons, List.not_mem_nil, or_false] at member
      rcases member with rfl | rfl | rfl | rfl <;> exact high _ (by omega) (by omega)

theorem bytes_ofNat {bytes : List UInt8} (small : ∀ b ∈ bytes, b.toNat < 128) :
    Text.bytes (String.ofList (bytes.map fun b => Char.ofNat b.toNat)) = bytes := by
  rw [bytes_ofList]
  induction bytes with
  | nil => rfl
  | cons b rest ih =>
    have fits := small b List.mem_cons_self
    have code : (Char.ofNat b.toNat).toNat = b.toNat := by
      have each : ∀ n, n < 128 → (Char.ofNat n).toNat = n := by decide
      exact each b.toNat fits
    rw [List.map_cons, List.flatMap_cons, utf8EncodeChar_of_small (by omega), code,
      UInt8.ofNat_toNat, ih fun other member => small other (List.mem_cons_of_mem _ member)]
    rfl

end SharedTable.Text
