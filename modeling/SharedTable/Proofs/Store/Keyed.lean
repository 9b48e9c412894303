import SharedTable.Proofs.Store.Writes

/-!
The invariant of tables in memory: every item stands under the key that its own attributes give.
-/

set_option autoImplicit false

namespace SharedTable

def Contents.Keyed (contents : Contents) : Prop :=
  ∀ key item, contents[key]? = some item → PrimaryKey.ofItem? item = some key

namespace Contents

theorem keyed_empty : Keyed ∅ := by
  intro key item found
  simp at found

theorem Keyed.insert {contents : Contents} (keyed : contents.Keyed) {key : PrimaryKey} {item : Item}
    (own : PrimaryKey.ofItem? item = some key) : Keyed (contents.insert key item) := by
  intro other held found
  rw [Std.ExtTreeMap.getElem?_insert] at found
  split at found
  next same =>
    cases Std.LawfulEqCmp.eq_of_compare same
    cases found
    exact own
  next => exact keyed other held found

theorem Keyed.erase {contents : Contents} (keyed : contents.Keyed) (key : PrimaryKey) :
    Keyed (contents.erase key) := by
  intro other held found
  rw [Std.ExtTreeMap.getElem?_erase] at found
  split at found
  next => cases found
  next => exact keyed other held found

theorem Keyed.insertMany {contents : Contents} (keyed : contents.Keyed)
    {keys : List PrimaryKey} {items : List Item}
    (own : List.Forall₂ (fun item key => PrimaryKey.ofItem? item = some key) items keys) :
    Keyed (contents.insertMany (keys.zip items)) := by
  induction own generalizing contents with
  | nil => simpa using keyed
  | cons first _ ih =>
    rw [List.zip_cons_cons, Std.ExtTreeMap.insertMany_cons]
    exact ih (keyed.insert first)

theorem Keyed.foldl_erase {contents : Contents} (keyed : contents.Keyed) (keys : List PrimaryKey) :
    Keyed (keys.foldl Std.ExtTreeMap.erase contents) := by
  induction keys generalizing contents with
  | nil => exact keyed
  | cons key rest ih => exact ih (keyed.erase key)

end Contents

def Store.Keyed (store : Store) : Prop :=
  ∀ (table : String) (contents : Contents), store[table]? = some contents → contents.Keyed

namespace Store

theorem keyed_empty : Keyed ∅ := by
  intro table contents found
  simp at found

theorem Keyed.insert {store : Store} (keyed : store.Keyed) {contents : Contents}
    (own : contents.Keyed) (table : String) :
    Keyed (Std.ExtTreeMap.insert store table contents) := by
  intro other held found
  rw [Std.ExtTreeMap.getElem?_insert] at found
  split at found
  next => cases found; exact own
  next => exact keyed other held found

theorem Keyed.contents {store : Store} (keyed : store.Keyed) (table : String) :
    (store.contents table).Keyed := by
  unfold Store.contents
  rw [Std.ExtTreeMap.getD_eq_getD_getElem?]
  cases found : store[table]? with
  | none => exact Contents.keyed_empty
  | some contents => exact keyed table contents found

theorem Keyed.put {store next : Store} (keyed : store.Keyed) {table : String} {item : Item}
    {condition : PutCondition} (done : store.put table item condition = .ok next) : next.Keyed := by
  obtain ⟨key, own, _, rfl⟩ := put_eq_ok_iff.mp done
  exact keyed.insert ((keyed.contents table).insert own) table

theorem Keyed.delete {store : Store} (keyed : store.Keyed) (table : String) (key : PrimaryKey) :
    (store.delete table key).Keyed := by
  unfold Store.delete
  split
  next contents found => exact keyed.insert ((keyed table contents found).erase key) table
  next => exact keyed

theorem Keyed.batchWrite {store next : Store} (keyed : store.Keyed) {limit : Nat} {table : String}
    {puts : List Item} {deletes : List PrimaryKey}
    (done : store.batchWrite limit table puts deletes = .ok next) : next.Keyed := by
  obtain ⟨_, keys, own, _, rfl⟩ := batchWrite_eq_ok_iff.mp done
  exact keyed.insert (((keyed.contents table).insertMany own).foldl_erase deletes) table

end Store

end SharedTable
