import SharedTable.Proofs.Except
import SharedTable.Store.Basic

set_option autoImplicit false

namespace SharedTable.Store

theorem contents_insert_self (store : Store) (table : String) (contents : Contents) :
    Store.contents (Std.ExtTreeMap.insert store table contents) table = contents := by
  rw [Store.contents, Std.ExtTreeMap.getD_insert_self]

theorem delete_of_mem {store : Store} {table : String} (written : table ∈ store) (key : PrimaryKey) :
    store.delete table key = store.insert table ((store.contents table).erase key) := by
  obtain ⟨contents, found⟩ :=
    Option.isSome_iff_exists.mp (Std.ExtTreeMap.mem_iff_isSome_getElem?.mp written)
  simp only [Store.delete, Store.contents, Std.ExtTreeMap.getD_eq_getD_getElem?, found, Option.getD_some]

theorem delete_of_not_mem {store : Store} {table : String} (unwritten : table ∉ store)
    (key : PrimaryKey) : store.delete table key = store := by
  simp only [Store.delete, Std.ExtTreeMap.getElem?_eq_none unwritten]

theorem contents_of_not_mem {store : Store} {table : String} (unwritten : table ∉ store) :
    store.contents table = ∅ := by
  simp only [Store.contents, Std.ExtTreeMap.getD_eq_getD_getElem?,
    Std.ExtTreeMap.getElem?_eq_none unwritten, Option.getD_none]

theorem insert_contents {store : Store} {table : String} (written : table ∈ store) :
    Std.ExtTreeMap.insert store table (store.contents table) = store := by
  obtain ⟨contents, found⟩ :=
    Option.isSome_iff_exists.mp (Std.ExtTreeMap.mem_iff_isSome_getElem?.mp written)
  apply Std.ExtTreeMap.ext_getElem?
  intro other
  rw [Std.ExtTreeMap.getElem?_insert]
  split
  next same =>
    cases Std.LawfulEqCmp.eq_of_compare same
    simp only [Store.contents, Std.ExtTreeMap.getD_eq_getD_getElem?, found, Option.getD_some]
  next => rfl

theorem contents_delete_self (store : Store) (table : String) (key : PrimaryKey) :
    (store.delete table key).contents table = (store.contents table).erase key := by
  by_cases written : table ∈ store
  · rw [delete_of_mem written, contents_insert_self]
  · rw [delete_of_not_mem written, contents_of_not_mem written]
    simp

theorem itemKey_eq_ok_iff {item : Item} {key : PrimaryKey} :
    itemKey item = .ok key ↔ PrimaryKey.ofItem? item = some key := by
  unfold itemKey
  cases PrimaryKey.ofItem? item <;> simp

theorem put_eq_ok_iff {store next : Store} {table : String} {item : Item} {condition : PutCondition} :
    store.put table item condition = .ok next ↔
      ∃ key, PrimaryKey.ofItem? item = some key ∧
        (condition = .ifAbsent → key ∉ store.contents table) ∧
        next = store.insert table ((store.contents table).insert key item) := by
  unfold Store.put
  simp only [bind_eq_ok_iff, itemKey_eq_ok_iff]
  apply exists_congr
  intro key
  apply and_congr_right
  intro _
  by_cases taken : condition = .ifAbsent ∧ key ∈ store.contents table
  · simp [taken, throw, throwThe, MonadExceptOf.throw, bind, Except.bind]
  · have free : (decide (condition = .ifAbsent) && (store.contents table).contains key) = false := by
      rw [← Bool.not_eq_true, Bool.and_eq_true, decide_eq_true_eq, ← Std.ExtTreeMap.mem_iff_contains]
      exact taken
    have absent := not_and.mp taken
    simp only [free, Bool.false_eq_true, if_false, pure, Except.pure, Except.ok.injEq]
    exact ⟨fun same => ⟨absent, same.symm⟩, fun same => same.2.symm⟩

theorem put_of_free {store : Store} {table : String} {item : Item} {key : PrimaryKey}
    (own : PrimaryKey.ofItem? item = some key) (condition : PutCondition)
    (free : condition = .ifAbsent → key ∉ store.contents table) :
    store.put table item condition =
      .ok (store.insert table ((store.contents table).insert key item)) :=
  put_eq_ok_iff.mpr ⟨key, own, free, rfl⟩

theorem put_of_taken {store : Store} {table : String} {item : Item} {key : PrimaryKey}
    (own : PrimaryKey.ofItem? item = some key) (taken : key ∈ store.contents table) :
    store.put table item .ifAbsent = .error .conditionFailed := by
  have held : (store.contents table).contains key = true := Std.ExtTreeMap.mem_iff_contains.mp taken
  unfold Store.put
  rw [itemKey_eq_ok_iff.mpr own]
  simp [bind, Except.bind, throw, throwThe, MonadExceptOf.throw, held]

theorem repeatedKey?_eq_none_iff {seen keys : List PrimaryKey} :
    repeatedKey? seen keys = none ↔ keys.Nodup ∧ ∀ key ∈ keys, key ∉ seen := by
  induction keys generalizing seen with
  | nil => simp [repeatedKey?]
  | cons key rest ih =>
    rw [repeatedKey?, List.nodup_cons, List.forall_mem_cons]
    by_cases repeated : key ∈ seen
    · simp [repeated]
    · rw [if_neg (by simpa using repeated), ih]
      simp only [List.mem_cons, not_or]
      constructor
      · rintro ⟨distinct, unseen⟩
        exact ⟨⟨fun member => (unseen key member).1 rfl, distinct⟩, repeated,
          fun other member => (unseen other member).2⟩
      · rintro ⟨⟨absent, distinct⟩, _, unseen⟩
        refine ⟨distinct, fun other member => ⟨?_, unseen other member⟩⟩
        rintro rfl
        exact absent member

theorem refuseRepeats_eq_ok_iff {operation : Operation} {keys : List PrimaryKey} {result : Unit} :
    refuseRepeats operation keys = .ok result ↔ repeatedKey? [] keys = none := by
  unfold refuseRepeats
  cases repeatedKey? [] keys <;> simp

theorem refuseRepeats_of_nodup {operation : Operation} {keys : List PrimaryKey}
    (distinct : keys.Nodup) : refuseRepeats operation keys = .ok () :=
  refuseRepeats_eq_ok_iff.mpr
    (repeatedKey?_eq_none_iff.mpr ⟨distinct, fun _ _ => List.not_mem_nil⟩)

theorem batchGet_of_nodup (store : Store) {limit : Nat} (table : String) {keys : List PrimaryKey}
    (few : keys.length ≤ limit) (distinct : keys.Nodup) :
    store.batchGet limit table keys =
      .ok ((keys.mergeSort fun a b => (compare a b).isLE).filterMap (store.get? table)) := by
  unfold Store.batchGet
  simp only [Nat.not_lt.mpr few, if_false, refuseRepeats_of_nodup distinct]
  rfl

theorem batchWrite_eq_ok_iff {store next : Store} {limit : Nat} {table : String} {puts : List Item}
    {deletes : List PrimaryKey} :
    store.batchWrite limit table puts deletes = .ok next ↔
      puts.length + deletes.length ≤ limit ∧
        ∃ keys, List.Forall₂ (fun item key => PrimaryKey.ofItem? item = some key) puts keys ∧
          repeatedKey? [] (keys ++ deletes) = none ∧
          next = store.insert table
            (deletes.foldl Std.ExtTreeMap.erase ((store.contents table).insertMany (keys.zip puts))) := by
  unfold Store.batchWrite
  by_cases many : limit < puts.length + deletes.length
  · simp [many, Nat.not_le.mpr many, bind_eq_ok_iff]
  · simp only [many, if_false, bind_eq_ok_iff, mapM_eq_ok_iff, itemKey_eq_ok_iff,
      refuseRepeats_eq_ok_iff, exists_and_left, exists_const, pure, Except.pure, Except.ok.injEq]
    simp only [Nat.le_of_not_lt many, true_and, eq_comm]

end SharedTable.Store
