import SharedTable.Proofs.Maps
import SharedTable.Proofs.Memory.Reached
import SharedTable.Proofs.Query.Compile
import SharedTable.Proofs.Query.Run
import SharedTable.Proofs.Store.Paging

/-!
Draining a query over tables in memory. Page by page the drain walks through the selected items in
their order, so what it returns and counts does not depend on where the limit cuts the pages.
-/

set_option autoImplicit false

namespace SharedTable

def pageCount (limit : Option Nat) (items : Nat) : Nat :=
  match limit with
  | none => 1
  | some limit => max 1 (Batch.chunkCount limit items)

theorem pageCount_pos (limit : Option Nat) (items : Nat) : 0 < pageCount limit items := by
  cases limit with
  | none => exact Nat.one_pos
  | some limit => exact Nat.lt_of_lt_of_le Nat.one_pos (Nat.le_max_left _ _)

theorem pageCount_last {limit : Option Nat} {remaining : List (Position × Item)}
    (positive : limit ≠ some 0) (last : leftOut limit remaining = []) :
    pageCount limit remaining.length = 1 := by
  cases limit with
  | none => rfl
  | some limit =>
    have fits : remaining.length ≤ limit := List.drop_eq_nil_iff.mp last
    have few : (remaining.length + limit - 1) / limit < 2 :=
      Nat.div_lt_of_lt_mul (by have : limit ≠ 0 := fun zero => positive (congrArg some zero); omega)
    simp only [pageCount, Batch.chunkCount]
    omega

theorem pageCount_more {limit : Option Nat} {remaining : List (Position × Item)}
    (positive : limit ≠ some 0) (more : leftOut limit remaining ≠ []) :
    pageCount limit remaining.length = pageCount limit (leftOut limit remaining).length + 1 := by
  cases limit with
  | none => simp [leftOut] at more
  | some limit =>
    have nonzero : limit ≠ 0 := fun zero => positive (congrArg some zero)
    have cut : limit < remaining.length := Nat.lt_of_not_le fun fits => more (List.drop_eq_nil_iff.mpr fits)
    have step : (remaining.length + limit - 1) / limit = (remaining.length - limit + limit - 1) / limit + 1 := by
      rw [← Nat.add_div_right _ (Nat.pos_of_ne_zero nonzero)]
      congr 1
      omega
    have some : 0 < (remaining.length - limit + limit - 1) / limit :=
      Nat.div_pos (by omega) (Nat.pos_of_ne_zero nonzero)
    simp only [pageCount, Batch.chunkCount, leftOut, Option.getD_some, List.length_drop, step]
    omega

theorem pageCount_le (limit : Option Nat) (items : Nat) (positive : limit ≠ some 0) :
    pageCount limit items ≤ items + 1 := by
  cases limit with
  | none => simp [pageCount]
  | some limit =>
    have nonzero : limit ≠ 0 := fun zero => positive (congrArg some zero)
    have few : (items + limit - 1) / limit < items + 1 := by
      apply Nat.div_lt_of_lt_mul
      have grow : limit * (items + 1) = limit * items + limit := Nat.mul_succ limit items
      have wide : items ≤ limit * items := Nat.le_mul_of_pos_left items (Nat.pos_of_ne_zero nonzero)
      omega
    simp only [pageCount, Batch.chunkCount]
    omega

namespace Query

variable {α : Type} {limits : BatchLimits} {query : Query Memory α} {request : Request}

/--
A drain reads what lies behind its start, and stops early only where a record cannot be read. The number
of its calls is that of the pages when it comes to the end.
-/
theorem drain_run (served : query.table.engine = Memory.engine limits)
    (positive : request.limit ≠ some 0) {bound : Nat} {startKey : Option LastKey}
    {start : Option Position} (starts : StartsAt request.condition.sortAttr startKey start)
    {world : World Memory} (keyed : (world.state.store.contents request.table).Keyed)
    {remaining : List (Position × Item)}
    (left : (world.state.store.contents request.table).behind request.condition request.forward
      start = remaining)
    (enough : pageCount request.limit remaining.length ≤ bound) {read : Except Fault (List α)}
    (decoded : query.decodeAll ((remaining.map Prod.snd).filter request.filter.holds) = read) :
    ∃ pages, (query.drain request bound startKey).run world =
        (read.map fun records => (records, pageCount request.limit remaining.length),
          world.asked .query pages) ∧
      (read.isOk = true → pages = pageCount request.limit remaining.length) := by
  -- By induction on the bound: a page that is not the last leaves a shorter rest, which is what lies
  -- behind the position that its key names.
  induction bound generalizing startKey start world remaining read with
  | zero => exact absurd enough (Nat.not_le_of_lt (pageCount_pos _ _))
  | succ bound ih =>
    have asked : (query.table.engine.query (request.resumeFrom startKey)).run world =
        (.ok (request.pageOf remaining), world.asked .query 1) := by
      rw [served, Memory.run_query, Store.page_resumeFrom _ _ starts, left]
      rfl
    rw [filter_split request.limit, decodeAll, List.mapM_append] at decoded
    change (query.decodeAll (request.pageOf remaining).items >>= _) = read at decoded
    cases first : query.decodeAll (request.pageOf remaining).items with
    | error fault =>
      rw [first] at decoded
      subst decoded
      exact ⟨1, drain_unreadable asked first, nofun⟩
    | ok records =>
      rw [first] at decoded
      rcases page_step keyed positive left with ⟨key, last⟩ | ⟨key, final, ends, more, _, next, rest⟩
      · rw [last] at decoded
        have whole : read = .ok records := decoded.symm.trans (congrArg Except.ok (List.append_nil _))
        rw [whole, pageCount_last positive last]
        exact ⟨1, drain_last asked first key, fun _ => rfl⟩
      · have fewer := pageCount_more positive more
        have counted : ((world.asked .query 1).state.store.contents request.table).Keyed := keyed
        obtain ⟨pages, drained, whole⟩ := ih next counted rest (by omega) rfl
        rw [World.asked_asked, Nat.add_comm] at drained
        refine ⟨pages + 1, ?_⟩
        rw [drain_further asked first ends, drained, fewer]
        change (Except.ok records >>= fun first => query.decodeAll _ >>= fun later =>
          pure (first ++ later)) = read at decoded
        cases later : query.decodeAll (((leftOut request.limit remaining).map Prod.snd).filter
            request.filter.holds) with
        | error fault =>
          rw [later] at decoded
          subst decoded
          exact ⟨rfl, nofun⟩
        | ok others =>
          rw [later] at decoded whole
          subst decoded
          rw [whole rfl]
          exact ⟨rfl, fun _ => rfl⟩

theorem drainCounts_run (served : query.table.engine = Memory.engine limits)
    (positive : request.limit ≠ some 0) {bound : Nat} {startKey : Option LastKey}
    {start : Option Position} (starts : StartsAt request.condition.sortAttr startKey start)
    {world : World Memory} (keyed : (world.state.store.contents request.table).Keyed)
    {remaining : List (Position × Item)}
    (left : (world.state.store.contents request.table).behind request.condition request.forward
      start = remaining)
    (enough : pageCount request.limit remaining.length ≤ bound) :
    (query.drainCounts request bound startKey).run world =
      (.ok ((remaining.map Prod.snd).filter request.filter.holds).length,
        world.asked .count (pageCount request.limit remaining.length)) := by
  induction bound generalizing startKey start world remaining with
  | zero => exact absurd enough (Nat.not_le_of_lt (pageCount_pos _ _))
  | succ bound ih =>
    have asked : (query.table.engine.count (request.resumeFrom startKey)).run world =
        (.ok ⟨(request.pageOf remaining).items.length, (request.pageOf remaining).lastKey⟩,
          world.asked .count 1) := by
      rw [served, Memory.run_count, Store.page_resumeFrom _ _ starts, left]
      rfl
    rw [filter_split request.limit, List.length_append]
    rcases page_step keyed positive left with ⟨key, last⟩ | ⟨key, final, ends, more, _, next, rest⟩
    · rw [drainCounts_last asked key, last, pageCount_last positive last]
      rfl
    · have fewer := pageCount_more positive more
      have counted : ((world.asked .count 1).state.store.contents request.table).Keyed := keyed
      have drained := ih next counted rest (by omega)
      rw [drainCounts_further asked ends, drained, World.asked_asked, Nat.add_comm 1, fewer]
      rfl

end Query

theorem Store.size_lt_pageBound (limits : BatchLimits) (memory : Memory) (table : String) :
    (memory.store.contents table).size < (Memory.engine limits).pageBound memory := by
  -- A sum over tables is at least its start, and exceeds it by the size of each table.
  have grows (tables : List Contents) (start : Nat) :
      start ≤ tables.foldl (fun sum contents => sum + contents.size) start ∧
        ∀ contents ∈ tables,
          start + contents.size ≤ tables.foldl (fun sum contents => sum + contents.size) start := by
    induction tables generalizing start with
    | nil => simp
    | cons first rest ih =>
      obtain ⟨least, each⟩ := ih (start + first.size)
      refine ⟨by simp only [List.foldl_cons]; omega, ?_⟩
      intro contents member
      simp only [List.foldl_cons]
      rcases List.mem_cons.mp member with same | later
      · subst same
        exact least
      · have bound := each contents later
        omega
  obtain ⟨least, each⟩ := grows memory.store.values 1
  change (memory.store.contents table).size <
    memory.store.values.foldl (fun sum contents => sum + contents.size) 1
  unfold Store.contents
  rw [Std.ExtTreeMap.getD_eq_getD_getElem?]
  cases found : memory.store[table]? with
  | none => exact least
  | some contents =>
    have member : contents ∈ memory.store.values := by
      rw [values_eq_map_toList]
      exact List.mem_map_of_mem (Std.ExtTreeMap.mem_toList_iff_getElem?_eq_some.mpr found)
    have bound := each contents member
    rw [Option.getD_some]
    omega

end SharedTable
