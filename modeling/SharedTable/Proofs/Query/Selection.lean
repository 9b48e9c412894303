import SharedTable.Proofs.Query.Drain

set_option autoImplicit false

namespace SharedTable

/--
The stored items of a table that meet a key condition, with their positions, in the order of a
direction. Strict order means that none of them occurs twice.
-/
structure Selects (store : Store) (table : String) (condition : KeyCondition) (reverse : Bool)
    (placed : List (Position × Item)) : Prop where
  complete : ∀ position item,
    (position, item) ∈ placed ↔ store.PlacedAt table condition position item
  ordered : placed.Pairwise fun a b => compare a.1 b.1 = if reverse then .gt else .lt

theorem Selects.inOrder (store : Store) (table : String) (condition : KeyCondition) (reverse : Bool) :
    Selects store table condition reverse
      ((store.contents table).inOrder condition !reverse) where
  complete position item := by
    rw [Contents.mem_inOrder, Store.mem_selected_iff]
  ordered := by
    apply ((store.contents table).inOrder_ascending condition !reverse).imp
    intro a b beyond
    rw [Position.isBeyond_iff] at beyond
    cases reverse <;> exact beyond

namespace Query

variable {α : Type} {limits : BatchLimits} {query : Query Memory α} {request : Request}
  {world : World Memory}

theorem enough_pages (served : query.table.engine = Memory.engine limits)
    (positive : request.limit ≠ some 0) (world : World Memory) {start : Option Position}
    {remaining : List (Position × Item)}
    (left : (world.state.store.contents request.table).behind request.condition request.forward
      start = remaining) :
    pageCount request.limit remaining.length ≤ query.table.engine.pageBound world.state := by
  have few := pageCount_le request.limit remaining.length positive
  have stored := Contents.length_inOrder_le (world.state.store.contents request.table)
    request.condition request.forward
  have part : remaining.length ≤ ((world.state.store.contents request.table).inOrder
      request.condition request.forward).length := left ▸ List.length_filter_le _ _
  have bound := Store.size_lt_pageBound limits world.state request.table
  rw [served]
  omega

theorem all_run (served : query.table.engine = Memory.engine limits)
    (keyed : (world.state.store.contents request.table).Keyed)
    (compiled : query.compile = .ok request)
    (fresh : request.startKey = none) {placed : List (Position × Item)}
    (selected : (world.state.store.contents request.table).inOrder request.condition
      request.forward = placed) {records : List α}
    (decoded : query.decodeAll ((placed.map Prod.snd).filter request.filter.holds) =
      .ok records) :
    query.all.run world =
      (.ok records, (world.asked .query (pageCount request.limit placed.length)).reported
        (.queryAll request.table request.condition records.length
          (pageCount request.limit placed.length))) := by
  have positive := limit_of_compile compiled
  have starts : StartsAt request.condition.sortAttr request.startKey none := by
    rw [fresh]
    exact trivial
  have left := (Contents.behind_none ..).trans selected
  obtain ⟨pages, drained, whole⟩ := drain_run served positive starts keyed left
    (enough_pages served positive world left) decoded
  rw [whole rfl] at drained
  exact all_run_records compiled drained

theorem count_run (served : query.table.engine = Memory.engine limits)
    (keyed : (world.state.store.contents request.table).Keyed)
    (compiled : query.compile = .ok request)
    (fresh : request.startKey = none) {placed : List (Position × Item)}
    (selected : (world.state.store.contents request.table).inOrder request.condition
      request.forward = placed) :
    query.count.run world =
      (.ok ((placed.map Prod.snd).filter request.filter.holds).length,
        (world.asked .count (pageCount request.limit placed.length)).reported
          (.queryCount request.table request.condition
            ((placed.map Prod.snd).filter request.filter.holds).length)) := by
  have positive := limit_of_compile compiled
  have starts : StartsAt request.condition.sortAttr request.startKey none := by
    rw [fresh]
    exact trivial
  have left := (Contents.behind_none ..).trans selected
  have drained := drainCounts_run served positive starts keyed left
    (enough_pages served positive world left)
  exact count_run_total compiled drained

theorem compile_fresh (fresh : query.cursor = none) {index : Option Index}
    (declared : query.index = .ok index) {condition : KeyCondition}
    (compiled : KeyCondition.compile query.table.schema index query.partition query.sortKey =
      .ok condition) {limit : Option Nat} (positive : limit ≠ some 0) :
    { query with limit }.compile =
      .ok ⟨query.table.name, query.slot, condition, query.filter, limit, none, !query.reverse⟩ :=
  compile_eq_ok_iff.mpr ⟨positive, index, condition, none, declared, compiled,
    startKey_of_fresh fresh, rfl⟩

theorem decodeAll_eq_ok_iff {items : List Item} {records : List α} :
    query.decodeAll items = .ok records ↔
      List.Forall₂ (fun item record => query.table.decode item = .ok record) items records :=
  mapM_eq_ok_iff

/--
A query returns the selected items that pass its post-filter, and counts them. Both take one call for
every page that the limit cuts from the selected items, however many of these the post-filter drops.
-/
theorem all_and_count_selection (served : query.table.engine = Memory.engine limits)
    (reached : world.state.store.Reached limits) (fresh : query.cursor = none)
    {index : Option Index} (declared : query.index = .ok index) {condition : KeyCondition}
    (compiled : KeyCondition.compile query.table.schema index query.partition query.sortKey =
      .ok condition) :
    ∃ placed, Selects world.state.store query.table.name condition query.reverse placed ∧
      (let passed := (placed.map Prod.snd).filter query.filter.holds
      (∀ limit, limit ≠ some 0 →
        { query with limit }.count.run world =
          (.ok passed.length, (world.asked .count (pageCount limit placed.length)).reported
            (.queryCount query.table.name condition passed.length))) ∧
      ((∀ item ∈ passed, ∃ record, query.table.decode item = .ok record) →
        ∃ records,
          List.Forall₂ (fun item record => query.table.decode item = .ok record) passed records ∧
          ∀ limit, limit ≠ some 0 →
            { query with limit }.all.run world =
              (.ok records, (world.asked .query (pageCount limit placed.length)).reported
                (.queryAll query.table.name condition records.length
                  (pageCount limit placed.length))))) := by
  refine ⟨_, .inOrder _ _ _ _, ?_, ?_⟩
  · intro limit positive
    have limited : { query with limit }.table.engine = Memory.engine limits := served
    have requested := compile_fresh fresh declared compiled positive
    exact count_run limited (reached.keyed.contents _) requested rfl rfl
  · intro readable
    obtain ⟨records, decoded⟩ := forall₂_of_forall_exists readable
    refine ⟨records, decoded, fun limit positive => ?_⟩
    have limited : { query with limit }.table.engine = Memory.engine limits := served
    have requested := compile_fresh fresh declared compiled positive
    exact all_run limited (reached.keyed.contents _) requested rfl rfl (decodeAll_eq_ok_iff.mpr decoded)

def names : Query Memory Value where
  table := ⟨⟨Memory.engine .standard, "names", 1, .byClock⟩, .untyped ["name"],
    ⟨"Name", ⟨[], ["name"]⟩, fun _ => none⟩⟩
  slot := none
  partition := ∅
  sortKey := .unbounded
  filter := []
  limit := none
  cursor := none
  reverse := true

def nameItem (name : String) : Item :=
  Item.encode names.table.schema (.ofList [("name", Value.string name)])

def namesWritten : World Memory :=
  Write.after (Memory.engine .standard) (.ofState .empty)
    [.put "names" (nameItem "Ada") .always, .put "names" (nameItem "Ben") .ifAbsent]

theorem all_and_count_names :
    ∃ placed, Selects namesWritten.state.store "names" ⟨"partitionKey", "Name", "sortKey", none⟩ true
        placed ∧
      ∃ records, List.Forall₂ (fun item record => names.table.decode item = .ok record)
        (placed.map Prod.snd) records ∧
        { names with limit := some 1 }.all.run namesWritten =
          (.ok records, (namesWritten.asked .query (pageCount (some 1) placed.length)).reported
            (.queryAll "names" ⟨"partitionKey", "Name", "sortKey", none⟩ records.length
              (pageCount (some 1) placed.length))) := by
  obtain ⟨placed, selects, -, returned⟩ := @all_and_count_selection Value .standard
    names namesWritten rfl ⟨_, rfl⟩ rfl none rfl ⟨"partitionKey", "Name", "sortKey", none⟩ rfl
  obtain ⟨records, decoded, all⟩ := returned fun item _ => ⟨_, rfl⟩
  have whole : ((placed.map Prod.snd).filter names.filter.holds) = placed.map Prod.snd :=
    List.filter_eq_self.mpr fun _ _ => rfl
  rw [whole] at decoded
  exact ⟨placed, selects, records, decoded, all (some 1) (by decide)⟩

end Query

end SharedTable
