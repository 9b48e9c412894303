import SharedTable.Value.Basic

set_option autoImplicit false

namespace SharedTable

variable {α β : Type} {cmp : α → α → Ordering} [Std.TransCmp cmp]

theorem values_eq_map_toList (map : Std.ExtTreeMap α β cmp) : map.values = map.toList.map Prod.snd := by
  -- The library relates the lists of a tree, not those of the quotient, so the proof opens both.
  rcases map with ⟨⟨quotient⟩⟩
  induction quotient using Quotient.ind with
  | _ tree =>
    rcases tree with ⟨tree, _⟩
    change tree.values = (Std.DTreeMap.Internal.Impl.Const.toList tree).map Prod.snd
    rw [Std.DTreeMap.Internal.Impl.values, Std.DTreeMap.Internal.Impl.Const.foldr_eq_foldr_toList]
    exact (List.map_eq_foldr ..).symm

theorem insert_insert [Std.LawfulEqCmp cmp] (map : Std.ExtTreeMap α β cmp) (key : α) (first last : β) :
    (map.insert key first).insert key last = map.insert key last := by
  apply Std.ExtTreeMap.ext_getElem?
  intro other
  simp only [Std.ExtTreeMap.getElem?_insert]
  split <;> rfl

theorem insertMany_eq_foldl (map : Std.ExtTreeMap α β cmp) (entries : List (α × β)) :
    map.insertMany entries = entries.foldl (fun map entry => map.insert entry.1 entry.2) map := by
  induction entries generalizing map with
  | nil => rfl
  | cons entry rest ih => rw [Std.ExtTreeMap.insertMany_cons, ih, List.foldl_cons]

theorem ofList_toList [Std.LawfulEqCmp cmp] (map : Std.ExtTreeMap α β cmp) :
    Std.ExtTreeMap.ofList map.toList cmp = map := by
  classical
  apply Std.ExtTreeMap.ext_getElem?
  intro key
  cases found : map[key]? with
  | none =>
    have absent : key ∉ map := by
      simp [Std.ExtTreeMap.mem_iff_isSome_getElem?, found]
    rw [Std.ExtTreeMap.getElem?_ofList_of_contains_eq_false]
    rw [Std.ExtTreeMap.map_fst_toList_eq_keys, ← Bool.not_eq_true, List.contains_iff_mem,
      Std.ExtTreeMap.mem_keys]
    exact absent
  | some value =>
    exact Std.ExtTreeMap.getElem?_ofList_of_mem Std.ReflCmp.compare_self
      Std.ExtTreeMap.distinct_keys_toList
      (Std.ExtTreeMap.mem_toList_iff_getElem?_eq_some.mpr found)

theorem nodup_keys_toList (map : Std.ExtTreeMap α β cmp) : (map.toList.map Prod.fst).Nodup := by
  refine List.pairwise_map.mpr (Std.ExtTreeMap.distinct_keys_toList.imp fun differ same => ?_)
  exact differ (same ▸ Std.ReflCmp.compare_self)

section Entries

variable [Std.LawfulEqCmp cmp] [DecidableEq α]

theorem getElem?_insertMany_of_nodup {map : Std.ExtTreeMap α β cmp} {entries : List (α × β)}
    (distinct : (entries.map Prod.fst).Nodup) {key : α} {value : β} :
    (map.insertMany entries)[key]? = some value ↔
      (key, value) ∈ entries ∨ key ∉ entries.map Prod.fst ∧ map[key]? = some value := by
  have apart : entries.Pairwise fun a b => ¬ cmp a.1 b.1 = .eq :=
    (List.pairwise_map.mp distinct).imp fun differ same => differ (Std.LawfulEqCmp.eq_of_compare same)
  by_cases named : key ∈ entries.map Prod.fst
  · obtain ⟨⟨_, held⟩, member, rfl⟩ := List.mem_map.mp named
    have found := Std.ExtTreeMap.getElem?_insertMany_list_of_mem (t := map) Std.ReflCmp.compare_self
      apart member
    rw [found, Option.some.injEq]
    constructor
    · rintro rfl
      exact .inl member
    · rintro (also | ⟨absent, _⟩)
      · have both := Std.ExtTreeMap.getElem?_insertMany_list_of_mem (t := map)
          Std.ReflCmp.compare_self apart also
        rw [found] at both
        exact Option.some.inj both
      · exact absurd named absent
  · rw [Std.ExtTreeMap.getElem?_insertMany_list_of_contains_eq_false (by simpa using named)]
    have silent : (key, value) ∉ entries := fun member => named (List.mem_map.mpr ⟨_, member, rfl⟩)
    simp [silent, named]

theorem getElem?_insertMany_empty {entries : List (α × β)} (distinct : (entries.map Prod.fst).Nodup)
    {key : α} {value : β} :
    ((∅ : Std.ExtTreeMap α β cmp).insertMany entries)[key]? = some value ↔ (key, value) ∈ entries := by
  rw [getElem?_insertMany_of_nodup distinct]
  simp

theorem getElem?_insertMany_toList {entries others : List (α × β)}
    (distinct : ((entries ++ others).map Prod.fst).Nodup) {key : α} {value : β} :
    (((∅ : Std.ExtTreeMap α β cmp).insertMany entries).insertMany
      ((∅ : Std.ExtTreeMap α β cmp).insertMany others).toList)[key]? = some value ↔
      (key, value) ∈ entries ++ others := by
  rw [List.map_append, List.nodup_append] at distinct
  obtain ⟨one, two, apart⟩ := distinct
  have held (key : α) (value : β) :
      (key, value) ∈ ((∅ : Std.ExtTreeMap α β cmp).insertMany others).toList ↔ (key, value) ∈ others := by
    rw [Std.ExtTreeMap.mem_toList_iff_getElem?_eq_some, getElem?_insertMany_empty two]
  rw [getElem?_insertMany_of_nodup (nodup_keys_toList _), held, getElem?_insertMany_empty one,
    List.mem_append, or_comm]
  refine or_congr_left (and_iff_right_of_imp fun member named => ?_)
  obtain ⟨⟨other, another⟩, also, same⟩ := List.mem_map.mp named
  exact apart key (List.mem_map_of_mem member) other
    (List.mem_map_of_mem ((held other another).mp also)) same.symm

theorem insertMany_perm {map : Std.ExtTreeMap α β cmp} {entries others : List (α × β)}
    (same : entries.Perm others) (distinct : (entries.map Prod.fst).Nodup) :
    map.insertMany entries = map.insertMany others := by
  apply Std.ExtTreeMap.ext_getElem?
  intro key
  apply Option.ext
  intro value
  rw [getElem?_insertMany_of_nodup distinct,
    getElem?_insertMany_of_nodup ((same.map Prod.fst).nodup_iff.mp distinct), same.mem_iff,
    (same.map Prod.fst).mem_iff]

theorem ofList_of_perm {map : Std.ExtTreeMap α β cmp} {entries : List (α × β)}
    (same : map.toList.Perm entries) : Std.ExtTreeMap.ofList entries cmp = map := by
  rw [Std.ExtTreeMap.ofList_eq_insertMany_empty, ← insertMany_perm same (nodup_keys_toList map),
    ← Std.ExtTreeMap.ofList_eq_insertMany_empty, ofList_toList]

theorem getElem?_foldl_erase (map : Std.ExtTreeMap α β cmp) (keys : List α) (key : α) :
    (keys.foldl Std.ExtTreeMap.erase map)[key]? = if key ∈ keys then none else map[key]? := by
  induction keys generalizing map with
  | nil => rfl
  | cons first rest ih =>
    rw [List.foldl_cons, ih, Std.ExtTreeMap.getElem?_erase]
    by_cases later : key ∈ rest
    · simp [later]
    · by_cases same : first = key
      · simp [same, Std.ReflCmp.compare_self]
      · have apart : cmp first key ≠ .eq := fun equal => same (Std.LawfulEqCmp.eq_of_compare equal)
        simp [later, apart, Ne.symm same]

theorem foldl_erase_empty (keys : List α) :
    keys.foldl Std.ExtTreeMap.erase (∅ : Std.ExtTreeMap α β cmp) = ∅ := by
  apply Std.ExtTreeMap.ext_getElem?
  intro key
  rw [getElem?_foldl_erase]
  simp

theorem foldl_erase_congr {keys others : List α} (same : ∀ key, key ∈ keys ↔ key ∈ others)
    (map : Std.ExtTreeMap α β cmp) :
    keys.foldl Std.ExtTreeMap.erase map = others.foldl Std.ExtTreeMap.erase map := by
  apply Std.ExtTreeMap.ext_getElem?
  intro key
  rw [getElem?_foldl_erase, getElem?_foldl_erase]
  simp only [same]

end Entries

namespace Fields

variable {fields : Fields} {field : String}

theorem present?_eq_some_iff {value : Value} :
    fields.present? field = some value ↔ fields[field]? = some value ∧ value.isNull = false := by
  simp [Fields.present?, Option.filter_eq_some_iff]

theorem present?_eq_none_iff :
    fields.present? field = none ↔ fields[field]? = none ∨ fields[field]? = some .null := by
  unfold Fields.present?
  cases fields[field]? with
  | none => simp
  | some value => cases value <;> simp [Option.filter, Value.isNull]

theorem present?_isSome_iff :
    (fields.present? field).isSome = true ↔ ∃ value, fields[field]? = some value ∧ value ≠ .null := by
  unfold Fields.present?
  cases fields[field]? with
  | none => simp
  | some value => cases value <;> simp [Option.filter, Value.isNull]

theorem present?_of_text {text : String} (held : fields[field]? = some (.string text)) :
    fields.present? field = some (.string text) :=
  present?_eq_some_iff.mpr ⟨held, rfl⟩

end Fields

end SharedTable
