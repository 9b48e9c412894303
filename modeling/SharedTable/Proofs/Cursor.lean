import SharedTable.Cursor
import SharedTable.Proofs.Text.Base64
import SharedTable.Proofs.Value.TextMap

set_option autoImplicit false

namespace SharedTable

def Text.IsUrlSafe (c : Char) : Prop :=
  'A' ≤ c ∧ c ≤ 'Z' ∨ 'a' ≤ c ∧ c ≤ 'z' ∨ '0' ≤ c ∧ c ≤ '9' ∨ c = '-' ∨ c = '_'

instance (c : Char) : Decidable (Text.IsUrlSafe c) :=
  inferInstanceAs (Decidable (_ ≤ c ∧ c ≤ _ ∨ _ ≤ c ∧ c ≤ _ ∨ _ ≤ c ∧ c ≤ _ ∨ c = _ ∨ c = _))

theorem Base64.isUrlSafe_symbol {sextet : Nat} (small : sextet < 64) :
    Text.IsUrlSafe (Char.ofNat (urlSafe.symbol sextet).toNat) := by
  have each : ∀ sextet, sextet < 64 → Text.IsUrlSafe (Char.ofNat (urlSafe.symbol sextet).toNat) := by
    decide
  exact each sextet small

namespace Cursor

theorem bytes_token (lastKey : LastKey) :
    Text.bytes (encode lastKey).token =
      Base64.encode Base64.urlSafe (Text.bytes (TextMap.toValue lastKey).text) :=
  Text.bytes_ofNat fun _ => Base64.encode_urlSafe_small

theorem decode_encode (lastKey : LastKey) : (encode lastKey).decode = .ok lastKey := by
  unfold decode
  rw [bytes_token, Base64.decode_encode Base64.readable_urlSafe]
  simp only [TextMap.ofBytes_text]
  rfl

theorem isUrlSafe_of_mem_token {lastKey : LastKey} {c : Char}
    (member : c ∈ (encode lastKey).token.toList) : Text.IsUrlSafe c := by
  rw [encode, String.toList_ofList] at member
  obtain ⟨symbol, encoded, rfl⟩ := List.mem_map.mp member
  obtain ⟨sextet, small, rfl⟩ := Base64.symbol_of_mem_encode encoded
  exact Base64.isUrlSafe_symbol small

theorem encode_injective : Function.Injective encode := by
  intro lastKey other same
  have read := decode_encode lastKey
  rw [same, decode_encode] at read
  exact (Except.ok.inj read).symm

/--
Every key has a token of letters, digits, hyphens and underscores. The key is read back from it, also
when only the text of the token was kept, so keys that differ have tokens that differ.
-/
theorem token_carries_key (lastKey : LastKey) :
    (∀ c ∈ (encode lastKey).token.toList, Text.IsUrlSafe c) ∧
      (encode lastKey).decode = .ok lastKey ∧
      Cursor.decode ⟨(encode lastKey).token⟩ = .ok lastKey ∧
      ∀ other : LastKey, other ≠ lastKey → (encode other).token ≠ (encode lastKey).token := by
  refine ⟨fun _ => isUrlSafe_of_mem_token, decode_encode lastKey, decode_encode lastKey, ?_⟩
  intro other differ same
  exact differ (encode_injective (congrArg Cursor.mk same))

end Cursor

end SharedTable
