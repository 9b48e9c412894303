import SharedTable.Proofs.Maps
import SharedTable.Proofs.Value.Quote
import SharedTable.Value.TextMap

set_option autoImplicit false

namespace SharedTable.Reader

def closedBytes (s : String) : Bytes :=
  (s.toList.flatMap Text.escapeChar).flatMap String.utf8EncodeChar ++ [34]

theorem bytes_quote (s : String) :
    (Text.quote s).flatMap String.utf8EncodeChar = 34 :: closedBytes s := by
  rw [Text.quote, List.flatMap_cons, List.flatMap_append]
  rfl

theorem stringBody_closedBytes (s : String) (rest : Bytes) :
    stringBody (closedBytes s ++ rest) = .ok (s, rest) := by
  rw [closedBytes, List.append_assoc]
  exact stringBody_quote s rest

def memberBytes (member : String × String) : Bytes :=
  closedBytes member.1 ++ 58 :: 34 :: closedBytes member.2

def furtherBytes (members : List (String × String)) : Bytes :=
  members.flatMap fun member => 44 :: 34 :: memberBytes member

def asMember (member : String × String) : String × Value := (member.1, .string member.2)

theorem bytes_memberChars (first : String × String) (members : List (String × String)) :
    (Value.memberChars ((first :: members).map asMember)).flatMap String.utf8EncodeChar =
      34 :: memberBytes first ++ furtherBytes members := by
  have comma : String.utf8EncodeChar ',' = [44] := rfl
  have colon : String.utf8EncodeChar ':' = [58] := rfl
  induction members generalizing first with
  | nil =>
    simp only [List.map_cons, List.map_nil, asMember, Value.memberChars, Value.chars,
      List.flatMap_append, List.flatMap_cons, bytes_quote, colon]
    simp [memberBytes, furtherBytes]
  | cons next rest ih =>
    have later := ih next
    rw [List.map_cons] at later
    simp only [List.map_cons, asMember, Value.memberChars, Value.chars,
      List.flatMap_append, List.flatMap_cons, bytes_quote, comma, colon] at later ⊢
    simp [later, memberBytes, furtherBytes]

theorem memberText_closedBytes (s : String) (rest : Bytes) :
    memberText (34 :: closedBytes s ++ rest) = .ok (s, rest) := stringBody_closedBytes s rest

theorem textMembers_member (fuel : Nat) {first : Bool} (done : List (String × String))
    {bytes : Bytes} (member : String × String) (rest : Bytes)
    (front : objectFront first bytes = .ok (.member, memberBytes member ++ rest)) :
    textMembers (fuel + 1) first done bytes = textMembers fuel false (member :: done) rest := by
  have name : stringBody (memberBytes member ++ rest) =
      .ok (member.1, 58 :: 34 :: closedBytes member.2 ++ rest) := by
    rw [memberBytes, List.append_assoc, stringBody_closedBytes]
  have mark : colon (58 :: 34 :: closedBytes member.2 ++ rest) =
      .ok ((), 34 :: closedBytes member.2 ++ rest) := rfl
  simp only [textMembers, front, name, mark, memberText_closedBytes, bind, Except.bind]

theorem textMembers_further (fuel : Nat) (done members : List (String × String)) (rest : Bytes)
    (enough : members.length < fuel) :
    textMembers fuel false done (furtherBytes members ++ 125 :: rest) =
      .ok (.ofList (done.reverse ++ members), rest) := by
  -- Every member takes one unit of fuel, and one more is left for the closing brace.
  induction members generalizing fuel done with
  | nil =>
    obtain ⟨fuel, rfl⟩ := Nat.exists_eq_succ_of_ne_zero (Nat.ne_of_gt enough)
    rw [List.append_nil]
    rfl
  | cons member members ih =>
    obtain ⟨fuel, rfl⟩ := Nat.exists_eq_succ_of_ne_zero (Nat.ne_of_gt (Nat.zero_lt_of_lt enough))
    have front : objectFront false (furtherBytes (member :: members) ++ 125 :: rest) =
        .ok (.member, memberBytes member ++ (furtherBytes members ++ 125 :: rest)) := by
      rw [furtherBytes, List.flatMap_cons, List.append_assoc]
      rfl
    rw [textMembers_member fuel done member _ front, ih fuel (member :: done) (Nat.lt_of_succ_lt_succ enough)]
    simp

theorem length_le_furtherBytes (members : List (String × String)) :
    members.length ≤ (furtherBytes members).length := by
  induction members with
  | nil => exact Nat.le_refl 0
  | cons member rest ih =>
    simp only [furtherBytes, List.flatMap_cons, List.length_append, List.length_cons] at ih ⊢
    omega

theorem textMap_members (members : List (String × String)) :
    textMap ((Value.object (members.map asMember)).chars.flatMap String.utf8EncodeChar) =
      .ok (.ofList members, []) := by
  have opening : String.utf8EncodeChar '{' = [123] := rfl
  have closing : String.utf8EncodeChar '}' = [125] := rfl
  rw [Value.chars, List.flatMap_cons, List.flatMap_append, List.flatMap_singleton, opening, closing]
  cases members with
  | nil => rfl
  | cons first members =>
    rw [bytes_memberChars]
    generalize read : 34 :: memberBytes first ++ furtherBytes members ++ [125] = bytes
    change textMembers (bytes.length + 1) true [] bytes = _
    have front : objectFront true bytes =
        .ok (.member, memberBytes first ++ (furtherBytes members ++ [125])) := by
      rw [← read, List.append_assoc]
      rfl
    have enough : members.length < bytes.length := by
      have least := length_le_furtherBytes members
      simp only [← read, List.length_append, List.length_cons]
      omega
    rw [textMembers_member bytes.length [] first _ front, textMembers_further _ _ _ [] enough]
    rfl

end SharedTable.Reader

namespace SharedTable.TextMap

theorem ofBytes_text (map : TextMap) : ofBytes (Text.bytes map.toValue.text) = .ok map := by
  rw [ofBytes, Value.text, Text.bytes_ofList, toValue]
  change Reader.finish (Reader.textMap
    ((Value.object (map.toList.map Reader.asMember)).chars.flatMap String.utf8EncodeChar)) = _
  rw [Reader.textMap_members, ofList_toList]
  rfl

end SharedTable.TextMap
