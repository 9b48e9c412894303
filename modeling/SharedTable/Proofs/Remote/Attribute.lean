import SharedTable.Proofs.Except
import SharedTable.Proofs.Maps
import SharedTable.Proofs.Number.Text
import SharedTable.Remote.Attribute

set_option autoImplicit false

namespace SharedTable.Remote

namespace Attribute

theorem numberValue_write (n : Number) :
    numberValue (String.ofList (n.write Layout.value)) = .ok (.number n) := by
  rw [numberValue, Number.ofText?_write]
  rfl

mutual

theorem toValue_ofValue : ∀ value, (ofValue value).toValue = .ok value
  | .null | .bool _ | .string _ => by
    rw [ofValue, toValue]
    rfl
  | .number n => by
    rw [ofValue, toValue]
    exact numberValue_write n
  | .array items => by
    rw [ofValue, toValue, toItems_ofItems items]
    rfl
  | .object members => by
    rw [ofValue, toValue, toMembers_ofMembers members]
    rfl

theorem toItems_ofItems : ∀ items, toItems (ofItems items) = .ok items
  | [] => by
    rw [ofItems, toItems]
    rfl
  | item :: rest => by
    rw [ofItems, toItems, toValue_ofValue item, toItems_ofItems rest]
    rfl

theorem toMembers_ofMembers : ∀ members, toMembers (ofMembers members) = .ok members
  | [] => by
    rw [ofMembers, toMembers]
    rfl
  | (name, value) :: rest => by
    rw [ofMembers, toMembers, toValue_ofValue value, toMembers_ofMembers rest]
    rfl

end

def toMember (held : String × Attribute) : Except DataFault (String × Value) := do
  return (held.1, ← toValue held.2)

theorem toMembers_eq_mapM (attributes : List (String × Attribute)) :
    toMembers attributes = attributes.mapM toMember := by
  induction attributes with
  | nil => simp [toMembers]
  | cons held rest ih => simp [toMembers, toMember, ih]

end Attribute

namespace AttributeMap

variable {attributes : AttributeMap}

theorem toItem_of_perm {item : Item} (same : attributes.Perm (ofItem item)) :
    attributes.toItem = .ok item := by
  have whole := Attribute.toMembers_ofMembers item.toList
  rw [Attribute.toMembers_eq_mapM] at whole
  obtain ⟨members, read, perm⟩ := mapM_perm same.symm whole
  rw [toItem, Attribute.toMembers_eq_mapM, read]
  exact congrArg Except.ok (ofList_of_perm perm)

theorem mapM_keyText (entries : List (String × String)) :
    (entries.map fun (name, text) => (name, Attribute.string text)).mapM keyText = .ok entries := by
  induction entries with
  | nil => rfl
  | cons entry rest ih =>
    rw [List.map_cons, List.mapM_cons, ih]
    rfl

theorem toLastKey_of_perm {lastKey : LastKey} (same : attributes.Perm (ofLastKey lastKey)) :
    attributes.toLastKey = .ok lastKey := by
  obtain ⟨entries, read, perm⟩ := mapM_perm same.symm (mapM_keyText lastKey.toList)
  rw [toLastKey, read]
  exact congrArg Except.ok (ofList_of_perm perm)

end AttributeMap

/--
Turning values into attributes and back loses nothing, and neither does turning items or last keys into
maps of attributes and back, in whatever order the attributes of a map come.
-/
theorem Attribute.conversion_loses_nothing :
    (∀ value : Value, (ofValue value).toValue = .ok value) ∧
    (∀ (item : Item) (attributes : AttributeMap), attributes.Perm (AttributeMap.ofItem item) →
      attributes.toItem = .ok item) ∧
    ∀ (lastKey : LastKey) (attributes : AttributeMap), attributes.Perm (AttributeMap.ofLastKey lastKey) →
      attributes.toLastKey = .ok lastKey :=
  ⟨toValue_ofValue, fun _ _ same => AttributeMap.toItem_of_perm same,
    fun _ _ same => AttributeMap.toLastKey_of_perm same⟩

namespace Attribute

def boundaries : Value :=
  .array [.ofInt 18446744073709551615, .ofInt (-9223372036854775808), .object [("one", .ofInt 1),
    ("whole", .number (.float (.ofInt 1))), ("zero", .number (.float (.zero true)))]]

def boundaryItem : Item := .ofList [("a", boundaries), ("b", .null)]

theorem boundaries_converted :
    (ofValue boundaries).toValue = .ok boundaries ∧
      AttributeMap.toItem [("b", .null true), ("a", ofValue boundaries)] = .ok boundaryItem ∧
      AttributeMap.toLastKey [("sortKey", .string "t"), ("partitionKey", .string "p")] =
        .ok (.ofList [("partitionKey", "p"), ("sortKey", "t")]) := by
  obtain ⟨values, items, keys⟩ := conversion_loses_nothing
  exact ⟨values boundaries, items boundaryItem _ (List.Perm.swap ..), keys _ _ (List.Perm.swap ..)⟩

end Attribute

end SharedTable.Remote
