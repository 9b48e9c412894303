import SharedTable.Text.Base64

set_option autoImplicit false

namespace SharedTable.Base64

def Alphabet.Readable (alphabet : Alphabet) : Prop :=
  ∀ sextet, sextet < 64 → alphabet.sextet? (alphabet.symbol sextet) = some sextet ∧
    alphabet.symbol sextet ≠ padding

theorem readable_urlSafe : urlSafe.Readable := by
  unfold Alphabet.Readable
  decide

variable {alphabet : Alphabet}

theorem sextetAt_symbol (readable : alphabet.Readable) (offset : Nat) {sextet : Nat}
    (small : sextet < 64) : sextetAt alphabet offset (alphabet.symbol sextet) = .ok sextet := by
  simp [sextetAt, (readable sextet small).1, pure, Except.pure]

theorem lastSextets_symbols (readable : alphabet.Readable) (start position : Nat) (sextets : List Nat)
    (small : ∀ sextet ∈ sextets, sextet < 64) :
    lastSextets alphabet start position none (sextets.map alphabet.symbol) =
      .ok (sextets, false) := by
  induction sextets generalizing position with
  | nil => rfl
  | cons sextet rest ih =>
    have fits := small sextet List.mem_cons_self
    have later := ih (position + 1) fun other member => small other (List.mem_cons_of_mem _ member)
    rw [List.map_cons, lastSextets]
    simp [(readable sextet fits).2, sextetAt_symbol readable _ fits, later, bind, Except.bind, pure,
      Except.pure]

theorem decodeFrom_nil (offset : Nat) : decodeFrom alphabet offset [] = .ok [] := rfl

theorem decodeFrom_two (readable : alphabet.Readable) (offset : Nat) {a b : Nat} (fitsA : a < 64)
    (fitsB : b < 64) (spare : b % 16 = 0) :
    decodeFrom alphabet offset [alphabet.symbol a, alphabet.symbol b] =
      .ok [.ofNat (a * 4 + b / 16)] := by
  have read := lastSextets_symbols readable offset 0 [a, b] (by simp [fitsA, fitsB])
  rw [List.map_cons, List.map_cons, List.map_nil] at read
  simp [decodeFrom, decodeLast, read, spare, bind, Except.bind, pure, Except.pure]

theorem decodeFrom_three (readable : alphabet.Readable) (offset : Nat) {a b c : Nat} (fitsA : a < 64)
    (fitsB : b < 64) (fitsC : c < 64) (spare : c % 4 = 0) :
    decodeFrom alphabet offset [alphabet.symbol a, alphabet.symbol b, alphabet.symbol c] =
      .ok [.ofNat (a * 4 + b / 16), .ofNat (b % 16 * 16 + c / 4)] := by
  have read := lastSextets_symbols readable offset 0 [a, b, c]
    (by simp [fitsA, fitsB, fitsC])
  rw [List.map_cons, List.map_cons, List.map_cons, List.map_nil] at read
  simp [decodeFrom, decodeLast, read, spare, bind, Except.bind, pure, Except.pure]

theorem decodeFrom_four (readable : alphabet.Readable) {offset : Nat} {a b c d : Nat} (fitsA : a < 64)
    (fitsB : b < 64) (fitsC : c < 64) (fitsD : d < 64) {rest bytes : List UInt8}
    (decoded : decodeFrom alphabet (offset + 4) rest = .ok bytes) :
    decodeFrom alphabet offset (alphabet.symbol a :: alphabet.symbol b :: alphabet.symbol c ::
      alphabet.symbol d :: rest) =
      .ok (.ofNat (a * 4 + b / 16) :: .ofNat (b % 16 * 16 + c / 4) :: .ofNat (c % 4 * 64 + d) ::
        bytes) := by
  cases rest with
  | nil =>
    rw [decodeFrom_nil] at decoded
    cases decoded
    have read := lastSextets_symbols readable offset 0 [a, b, c, d]
      (by simp [fitsA, fitsB, fitsC, fitsD])
    rw [List.map_cons, List.map_cons, List.map_cons, List.map_cons, List.map_nil] at read
    simp [decodeFrom, decodeLast, read, bind, Except.bind, pure, Except.pure]
  | cons next rest =>
    simp [decodeFrom, sextetAt_symbol readable, fitsA, fitsB, fitsC, fitsD, decoded, bind,
      Except.bind, pure, Except.pure]

theorem ofNat_eq {x : UInt8} {n : Nat} (same : n = x.toNat) : UInt8.ofNat n = x := by
  rw [same, UInt8.ofNat_toNat]

theorem decodeFrom_encode (readable : alphabet.Readable) (offset : Nat) (bytes : List UInt8) :
    decodeFrom alphabet offset (encode alphabet bytes) = .ok bytes := by
  -- Group by group; the sextets of a group give back its bytes by arithmetic.
  fun_induction encode alphabet bytes generalizing offset with
  | case1 a b c rest bits ih =>
    have boundA := a.toNat_lt
    have boundB := b.toNat_lt
    have boundC := c.toNat_lt
    rw [decodeFrom_four readable (by omega) (by omega) (by omega) (by omega) (ih (offset + 4)),
      ofNat_eq (x := a) (by omega), ofNat_eq (x := b) (by omega), ofNat_eq (x := c) (by omega)]
  | case2 a b bits =>
    have boundA := a.toNat_lt
    have boundB := b.toNat_lt
    rw [decodeFrom_three readable offset (by omega) (by omega) (by omega) (by omega),
      ofNat_eq (x := a) (by omega), ofNat_eq (x := b) (by omega)]
  | case3 a =>
    have boundA := a.toNat_lt
    rw [decodeFrom_two readable offset (by omega) (by omega) (by omega),
      ofNat_eq (x := a) (by omega)]
  | case4 => exact decodeFrom_nil offset

theorem length_encode_mod (alphabet : Alphabet) (bytes : List UInt8) :
    (encode alphabet bytes).length % 4 ≠ 1 := by
  fun_induction encode alphabet bytes with
  | case1 a b c rest bits ih =>
    simp only [List.length_cons]
    omega
  | case2 => simp
  | case3 => simp
  | case4 => simp

theorem decode_encode (readable : alphabet.Readable) (bytes : List UInt8) :
    decode alphabet (encode alphabet bytes) = .ok bytes := by
  have single := length_encode_mod alphabet bytes
  unfold decode
  split
  next one _ => exact absurd one single
  next => exact decodeFrom_encode readable 0 bytes

theorem symbol_of_mem_encode {alphabet : Alphabet} {bytes : List UInt8} {b : UInt8}
    (member : b ∈ encode alphabet bytes) : ∃ sextet, sextet < 64 ∧ b = alphabet.symbol sextet := by
  fun_induction encode alphabet bytes with
  | case1 x y z rest bits ih =>
    have boundX := x.toNat_lt
    have boundY := y.toNat_lt
    have boundZ := z.toNat_lt
    simp only [List.mem_cons] at member
    rcases member with rfl | rfl | rfl | rfl | later
    · exact ⟨_, by omega, rfl⟩
    · exact ⟨_, by omega, rfl⟩
    · exact ⟨_, by omega, rfl⟩
    · exact ⟨_, by omega, rfl⟩
    · exact ih later
  | case2 x y bits =>
    have boundX := x.toNat_lt
    have boundY := y.toNat_lt
    simp only [List.mem_cons, List.not_mem_nil, or_false] at member
    rcases member with rfl | rfl | rfl <;> exact ⟨_, by omega, rfl⟩
  | case3 x =>
    have boundX := x.toNat_lt
    simp only [List.mem_cons, List.not_mem_nil, or_false] at member
    rcases member with rfl | rfl <;> exact ⟨_, by omega, rfl⟩
  | case4 => cases member

theorem encode_urlSafe_small {bytes : List UInt8} {b : UInt8} (member : b ∈ encode urlSafe bytes) :
    b.toNat < 128 := by
  obtain ⟨sextet, small, rfl⟩ := symbol_of_mem_encode member
  have each : ∀ sextet, sextet < 64 → (urlSafe.symbol sextet).toNat < 128 := by decide
  exact each sextet small

end SharedTable.Base64
