import SharedTable.Proofs.Maps
import SharedTable.Proofs.Memory.Reached
import SharedTable.Proofs.Sorting

set_option autoImplicit false

namespace SharedTable

namespace Store

/--
Whether a list holds one item for every stored key of some, in strictly ascending order of the keys, which
are those that the items give.
-/
def ListsInOrder (store : Store) (table : String) (wanted : PrimaryKey → Prop) (items : List Item) : Prop :=
  ∃ keys : List PrimaryKey,
    keys.Pairwise (fun a b => compare a b = .lt) ∧
    (∀ key, key ∈ keys ↔ wanted key ∧ (store.get? table key).isSome = true) ∧
    items.map some = keys.map (store.get? table) ∧
    items.map PrimaryKey.ofItem? = keys.map some

section Listing

variable {store : Store} {table : String} {keys : List PrimaryKey}

theorem map_some_filterMap (store : Store) (table : String) (keys : List PrimaryKey) :
    (keys.filterMap (store.get? table)).map some =
      (keys.filter fun key => (store.get? table key).isSome).map (store.get? table) := by
  induction keys with
  | nil => rfl
  | cons key rest ih => cases found : store.get? table key <;> simp [found, ih]

theorem Keyed.get? (keyed : store.Keyed) {key : PrimaryKey} {item : Item}
    (stored : store.get? table key = some item) : PrimaryKey.ofItem? item = some key :=
  keyed.contents table key item stored

theorem Keyed.ofItem?_filterMap (keyed : store.Keyed) (table : String) (keys : List PrimaryKey) :
    (keys.filterMap (store.get? table)).map PrimaryKey.ofItem? =
      (keys.filter fun key => (store.get? table key).isSome).map some := by
  induction keys with
  | nil => rfl
  | cons key rest ih =>
    cases found : store.get? table key with
    | none => simp [found, ih]
    | some item => simp [found, ih, keyed.get? found]

theorem Keyed.listsInOrder (keyed : store.Keyed) (ascending : keys.Pairwise fun a b => compare a b = .lt) :
    store.ListsInOrder table (· ∈ keys) (keys.filterMap (store.get? table)) :=
  ⟨keys.filter fun key => (store.get? table key).isSome, ascending.filter _, fun _ => List.mem_filter,
    map_some_filterMap store table keys, keyed.ofItem?_filterMap table keys⟩

theorem ListsInOrder.of_iff {wanted other : PrimaryKey → Prop} {items : List Item}
    (lists : store.ListsInOrder table wanted items)
    (same : ∀ key, (store.get? table key).isSome = true → (wanted key ↔ other key)) :
    store.ListsInOrder table other items := by
  obtain ⟨keys, ascending, members, stored, own⟩ := lists
  refine ⟨keys, ascending, fun key => (members key).trans ?_, stored, own⟩
  exact and_congr_left (same key)

theorem items_eq_filterMap (store : Store) (table : String) :
    store.items table = (store.contents table).keys.filterMap (store.get? table) := by
  rw [items, values_eq_map_toList, ← Std.ExtTreeMap.map_fst_toList_eq_keys, List.filterMap_map,
    ← List.filterMap_eq_map]
  apply List.filterMap_congr
  intro entry member
  exact (Std.ExtTreeMap.mem_toList_iff_getElem?_eq_some.mp member).symm

theorem Keyed.items_listed (keyed : store.Keyed) (table : String) :
    store.ListsInOrder table (fun _ => True) (store.items table) := by
  rw [items_eq_filterMap]
  apply (keyed.listsInOrder Std.ExtTreeMap.ordered_keys).of_iff
  intro key stored
  rw [Std.ExtTreeMap.mem_keys, Std.ExtTreeMap.mem_iff_isSome_getElem?]
  exact iff_of_true stored trivial

theorem Keyed.filterMap_mergeSort (keyed : store.Keyed) (table : String) (distinct : keys.Nodup) :
    (keys.mergeSort fun a b => (compare a b).isLE).filterMap (store.get? table) =
      (keys.filterMap (store.get? table)).mergeSort fun a b =>
        (compare (PrimaryKey.ofItem? a) (PrimaryKey.ofItem? b)).isLE := by
  have sorted : AscendingBy PrimaryKey.ofItem?
      ((keys.mergeSort fun a b => (compare a b).isLE).filterMap (store.get? table)) := by
    refine List.pairwise_filterMap.mpr ((ascendingBy_mergeSort (f := id) distinct).imp ?_)
    intro first second less item found other also
    rw [keyed.get? found, keyed.get? also]
    exact less
  have apart : (keys.filterMap (store.get? table)).Pairwise fun a b =>
      PrimaryKey.ofItem? a ≠ PrimaryKey.ofItem? b := by
    refine List.pairwise_filterMap.mpr (distinct.imp ?_)
    intro first second differ item found other also
    rw [keyed.get? found, keyed.get? also]
    exact fun same => differ (Option.some.inj same)
  apply sorted.eq_of_perm (ascendingBy_mergeSort apart)
  exact ((List.mergeSort_perm _ _).filterMap _).trans (List.mergeSort_perm _ _).symm

end Listing

end Store

namespace Write

/--
After any puts, deletions and batches, of which some may have failed, every item stands under the key that
it gives. The items of a table are listed by their keys, each once, and so are those that a batch of keys
within the limit asks for, as sorting what is found by its own keys would list them.
-/
theorem after_listed_by_key (limits : BatchLimits) (writes : List Write) (table : String) :
    let world := after (Memory.engine limits) (.ofState .empty) writes
    let store := world.state.store
    (∀ key item, store.get? table key = some item → PrimaryKey.ofItem? item = some key) ∧
    store.ListsInOrder table (fun _ => True) (store.items table) ∧
    ∀ keys : List PrimaryKey, keys.Nodup → keys.length ≤ limits.atLeastOne.read →
      ∃ items, ((Memory.batchGet limits table keys).run world).1 = .ok items ∧
        store.ListsInOrder table (· ∈ keys) items ∧
        items = (keys.filterMap (store.get? table)).mergeSort fun a b =>
          (compare (PrimaryKey.ofItem? a) (PrimaryKey.ofItem? b)).isLE := by
  intro world store
  have keyed : store.Keyed := after_keyed limits _ writes Store.keyed_empty
  refine ⟨fun key item => keyed.get?, keyed.items_listed table, fun keys distinct few => ?_⟩
  have answer : ((Memory.batchGet limits table keys).run world).1 =
      .ok ((keys.mergeSort fun a b => (compare a b).isLE).filterMap (store.get? table)) := by
    rw [Memory.run_batchGet]
    exact Store.batchGet_of_nodup store table few distinct
  refine ⟨_, answer, ?_, keyed.filterMap_mergeSort table distinct⟩
  apply (keyed.listsInOrder (ascendingBy_mergeSort (f := id) distinct)).of_iff
  intro key _
  exact List.mem_mergeSort

def townNamed (name : String) : Item :=
  .ofList [("partitionKey", Value.string "Town"), ("sortKey", Value.string name)]

-- The second put has no key, and the last batch names a key twice.
def townWrites : List Write :=
  [.put "towns" (townNamed "Ulm") .always, .put "towns" ∅ .always, .batch "towns" [townNamed "Bonn"] [],
    .batch "towns" [townNamed "Kiel"] [⟨"Town", "Kiel"⟩]]

theorem towns_listed_by_key :
    let world := after (Memory.engine .standard) (.ofState .empty) townWrites
    let store := world.state.store
    let keys := [⟨"Town", "Ulm"⟩, ⟨"Town", "Kiel"⟩, ⟨"Town", "Bonn"⟩]
    (store.get? "towns" ⟨"Town", "Ulm"⟩ = some (townNamed "Ulm") ∧
      PrimaryKey.ofItem? (townNamed "Ulm") = some ⟨"Town", "Ulm"⟩) ∧
    keys.Nodup ∧ keys.length ≤ BatchLimits.standard.atLeastOne.read ∧
    ∃ items, ((Memory.batchGet .standard "towns" keys).run world).1 = .ok items ∧
      store.ListsInOrder "towns" (· ∈ keys) items := by
  intro world store keys
  obtain ⟨own, _, answers⟩ := after_listed_by_key .standard townWrites "towns"
  have stored : store.get? "towns" ⟨"Town", "Ulm"⟩ = some (townNamed "Ulm") := rfl
  have distinct : keys.Nodup := by decide
  have few : keys.length ≤ BatchLimits.standard.atLeastOne.read := by decide
  obtain ⟨items, answer, listed, _⟩ := answers keys distinct few
  exact ⟨⟨stored, own _ _ stored⟩, distinct, few, items, answer, listed⟩

end Write

end SharedTable
