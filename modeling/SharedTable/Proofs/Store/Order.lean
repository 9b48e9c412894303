import SharedTable.Proofs.Sorting
import SharedTable.Store.Page

set_option autoImplicit false

namespace SharedTable

namespace Position

theorem isBeyond_iff {forward : Bool} {position start : Position} :
    position.isBeyond forward start = true ↔
      compare start position = if forward then .lt else .gt := by
  unfold isBeyond
  cases forward
  · simpa using Std.OrientedCmp.gt_iff_lt.symm
  · simpa using Std.OrientedCmp.gt_iff_lt

theorem isBeyond_trans {forward : Bool} {first second third : Position}
    (near : second.isBeyond forward first = true) (far : third.isBeyond forward second = true) :
    third.isBeyond forward first = true := by
  rw [isBeyond_iff] at *
  cases forward
  · exact Std.TransCmp.gt_trans near far
  · exact Std.TransCmp.lt_trans near far

theorem isBeyond_irrefl {forward : Bool} (position : Position) :
    position.isBeyond forward position = false := by
  have same : compare position position = .eq := Std.ReflCmp.compare_self
  rw [Bool.eq_false_iff, Ne, isBeyond_iff, same]
  cases forward <;> simp

theorem isBeyond_asymm {forward : Bool} {first second : Position}
    (beyond : second.isBeyond forward first = true) : first.isBeyond forward second = false := by
  rw [Bool.eq_false_iff]
  intro back
  simpa [isBeyond_irrefl] using isBeyond_trans beyond back

end Position

abbrev Ascending (forward : Bool) (placed : List (Position × Item)) : Prop :=
  placed.Pairwise fun a b => b.1.isBeyond forward a.1 = true

namespace Contents

theorem holds_iff {condition : KeyCondition} {item : Fields} :
    condition.holds item = true ↔
      item.text? condition.partitionAttr = some condition.partitionKey ∧
        ∃ sort, item.text? condition.sortAttr = some sort ∧
          ∀ wanted, condition.sort = some wanted → wanted.holds sort = true := by
  unfold KeyCondition.holds
  cases item.text? condition.partitionAttr with
  | none => simp
  | some partition =>
    cases item.text? condition.sortAttr with
    | none => simp
    | some sort => cases condition.sort <;> simp

theorem mem_selected {contents : Contents} {condition : KeyCondition} {position : Position}
    {item : Item} :
    (position, item) ∈ contents.selected condition ↔
      contents[position.key]? = some item ∧ condition.holds item = true ∧
        item.text? condition.sortAttr = some position.sort := by
  simp only [selected, List.mem_filterMap, Prod.exists, Std.ExtTreeMap.mem_toList_iff_getElem?_eq_some]
  constructor
  · rintro ⟨key, held, stored, kept⟩
    split at kept
    next meets =>
      obtain ⟨sort, read, same⟩ := Option.map_eq_some_iff.mp kept
      cases same
      exact ⟨stored, meets, read⟩
    next => cases kept
  · rintro ⟨stored, meets, read⟩
    exact ⟨position.key, item, stored, by simp [meets, read]⟩

theorem selected_distinct (contents : Contents) (condition : KeyCondition) :
    (contents.selected condition).Pairwise fun a b => a.1 ≠ b.1 := by
  have own {key : PrimaryKey} {item : Item} {placed : Position × Item}
      (kept : (if condition.holds item then
        (item.text? condition.sortAttr).map fun sort => ((⟨sort, key⟩ : Position), item)
        else none) = some placed) : placed.1.key = key := by
    split at kept
    next =>
      obtain ⟨_, _, rfl⟩ := Option.map_eq_some_iff.mp kept
      rfl
    next => cases kept
  apply List.pairwise_filterMap.mpr
  apply Std.ExtTreeMap.distinct_keys_toList.imp
  intro first second differ placed kept other held same
  apply differ
  rw [← own kept, ← own held, same]
  exact Std.ReflCmp.compare_self

theorem mem_inOrder {contents : Contents} {condition : KeyCondition} {forward : Bool}
    {placed : Position × Item} :
    placed ∈ contents.inOrder condition forward ↔ placed ∈ contents.selected condition := by
  unfold inOrder
  cases forward <;> simp

theorem length_inOrder_le (contents : Contents) (condition : KeyCondition) (forward : Bool) :
    (contents.inOrder condition forward).length ≤ contents.size := by
  have bound : (contents.selected condition).length ≤ contents.size :=
    Nat.le_trans (List.length_filterMap_le _ _) (Nat.le_of_eq Std.ExtTreeMap.length_toList)
  unfold inOrder
  cases forward <;> simpa using bound

theorem inOrder_ascending (contents : Contents) (condition : KeyCondition) (forward : Bool) :
    Ascending forward (contents.inOrder condition forward) := by
  have strict := ascendingBy_mergeSort (contents.selected_distinct condition)
  unfold inOrder Ascending
  cases forward
  · apply List.pairwise_reverse.mpr
    apply strict.imp
    intro a b less
    simpa [Position.isBeyond_iff] using Std.OrientedCmp.gt_iff_lt.mpr less
  · apply strict.imp
    intro a b less
    simpa [Position.isBeyond_iff] using less

end Contents

def Store.PlacedAt (store : Store) (table : String) (condition : KeyCondition) (position : Position)
    (item : Item) : Prop :=
  store.get? table position.key = some item ∧
    item.text? condition.partitionAttr = some condition.partitionKey ∧
    item.text? condition.sortAttr = some position.sort ∧
    ∀ wanted, condition.sort = some wanted → wanted.holds position.sort = true

theorem Store.mem_selected_iff {store : Store} {table : String} {condition : KeyCondition}
    {position : Position} {item : Item} :
    (position, item) ∈ (store.contents table).selected condition ↔
      store.PlacedAt table condition position item := by
  rw [Contents.mem_selected, Contents.holds_iff, PlacedAt, get?]
  constructor
  · rintro ⟨stored, ⟨partition, sort, read, meets⟩, own⟩
    rw [read, Option.some.injEq] at own
    subst own
    exact ⟨stored, partition, read, meets⟩
  · rintro ⟨stored, partition, read, meets⟩
    exact ⟨stored, ⟨partition, position.sort, read, meets⟩, read⟩

end SharedTable
