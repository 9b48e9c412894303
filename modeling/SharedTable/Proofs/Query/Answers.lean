import SharedTable.Proofs.Query.Resume
import SharedTable.Proofs.Query.Selection

set_option autoImplicit false

namespace SharedTable

variable {α β : Type}

def Action.Keeps (action : Action Memory α) : Prop :=
  ∀ world, (action.run world).2.state.store = world.state.store

namespace Action

theorem Keeps.bind {action : Action Memory α} {rest : α → Action Memory β} (first : action.Keeps)
    (later : ∀ result, (rest result).Keeps) : (action >>= rest).Keeps := by
  intro world
  have kept := first world
  rw [run_bind]
  generalize action.run world = outcome at kept ⊢
  obtain ⟨fault | result, next⟩ := outcome
  next => exact kept
  next => exact (later result next).trans kept

theorem keeps_pure (result : α) : (pure result : Action Memory α).Keeps := fun _ => rfl

theorem keeps_throw (fault : Fault) : (throw fault : Action Memory α).Keeps := fun _ => rfl

theorem keeps_ofExcept (result : Except Fault α) : (ofExcept result : Action Memory α).Keeps :=
  fun _ => rfl

theorem keeps_report (event : Event) : (report event : Action Memory Unit).Keeps := fun _ => rfl

theorem keeps_state : (state : Action Memory Memory).Keeps := fun _ => rfl

end Action

namespace Query

variable {limits : BatchLimits} {query : Query Memory α} (served : query.table.engine = Memory.engine limits)

include served

theorem keeps_query (request : Request) : (query.table.engine.query request).Keeps := by
  intro world
  rw [served, Memory.run_query, World.asked_store]

theorem keeps_count (request : Request) : (query.table.engine.count request).Keeps := by
  intro world
  rw [served, Memory.run_count, World.asked_store]

theorem execute_keeps : query.execute.Keeps :=
  (Action.keeps_ofExcept _).bind fun request => (keeps_query served request).bind fun _ =>
    (Action.keeps_report _).bind fun _ => (Action.keeps_ofExcept _).bind fun _ => Action.keeps_pure _

theorem drain_keeps (request : Request) (bound : Nat) (startKey : Option LastKey) :
    (query.drain request bound startKey).Keeps := by
  induction bound generalizing startKey with
  | zero => exact Action.keeps_throw _
  | succ bound ih =>
    refine (keeps_query served _).bind fun page => (Action.keeps_ofExcept _).bind fun records => ?_
    cases page.lastKey with
    | none => exact Action.keeps_pure _
    | some lastKey => exact (ih (some lastKey)).bind fun _ => Action.keeps_pure _

theorem all_keeps : query.all.Keeps :=
  (Action.keeps_ofExcept _).bind fun request => Action.keeps_state.bind fun memory =>
    (drain_keeps served request (query.table.engine.pageBound memory) request.startKey).bind fun _ =>
      (Action.keeps_report _).bind fun _ => Action.keeps_pure _

theorem drainCounts_keeps (request : Request) (bound : Nat) (startKey : Option LastKey) :
    (query.drainCounts request bound startKey).Keeps := by
  induction bound generalizing startKey with
  | zero => exact Action.keeps_throw _
  | succ bound ih =>
    refine (keeps_count served _).bind fun page => ?_
    cases page.lastKey with
    | none => exact Action.keeps_pure _
    | some lastKey => exact (ih (some lastKey)).bind fun _ => Action.keeps_pure _

theorem count_keeps : query.count.Keeps :=
  (Action.keeps_ofExcept _).bind fun request => Action.keeps_state.bind fun memory =>
    (drainCounts_keeps served request (query.table.engine.pageBound memory) request.startKey).bind
      fun _ => (Action.keeps_report _).bind fun _ => Action.keeps_pure _

end Query

/-- Two states of the tables have the same items for a request, and its start key is looked at in both. -/
structure Request.SeesAlike (request : Request) (a b : Store) : Prop where
  selected : (a.contents request.table).inOrder request.condition request.forward =
    (b.contents request.table).inOrder request.condition request.forward
  resumed : request.startKey = none ∨ request.table ∈ a ∧ request.table ∈ b

theorem Store.page_of_mem {store : Store} {request : Request} (written : request.table ∈ store) :
    store.page request = (store.contents request.table).page request := by
  obtain ⟨contents, found⟩ :=
    Option.isSome_iff_exists.mp (Std.ExtTreeMap.mem_iff_isSome_getElem?.mp written)
  simp only [Store.page, Store.contents, Std.ExtTreeMap.getD_eq_getD_getElem?, found, Option.getD_some]

namespace Request

variable {request : Request} {a b : Store}

theorem starts_of_fresh (fresh : request.startKey = none) :
    StartsAt request.condition.sortAttr request.startKey none := by
  rw [fresh]
  exact trivial

theorem SeesAlike.behind (alike : request.SeesAlike a b) (start : Option Position) :
    (a.contents request.table).behind request.condition request.forward start =
      (b.contents request.table).behind request.condition request.forward start := by
  rw [Contents.behind, Contents.behind, alike.selected]

theorem SeesAlike.page (alike : request.SeesAlike a b) : a.page request = b.page request := by
  rcases alike.resumed with fresh | ⟨inA, inB⟩
  next =>
    rw [Store.page_eq (starts_of_fresh fresh), Store.page_eq (starts_of_fresh fresh), alike.behind]
  next =>
    rw [Store.page_of_mem inA, Store.page_of_mem inB, Contents.page, Contents.page, Contents.remaining,
      Contents.remaining, alike.selected]

theorem SeesAlike.starts (alike : request.SeesAlike a b) {page : QueryPage}
    (found : a.page request = .ok page) :
    ∃ start, StartsAt request.condition.sortAttr request.startKey start := by
  rcases alike.resumed with fresh | ⟨inA, _⟩
  next => exact ⟨none, starts_of_fresh fresh⟩
  next =>
    rw [Store.page_of_mem inA, Contents.page, bind_eq_ok_iff] at found
    obtain ⟨remaining, left, _⟩ := found
    rw [Contents.remaining] at left
    cases given : request.startKey with
    | none => exact ⟨none, trivial⟩
    | some key =>
      simp only [given, bind_eq_ok_iff] at left
      obtain ⟨position, named, _⟩ := left
      exact ⟨some position, named⟩

end Request

namespace Query

variable {limits : BatchLimits} {query : Query Memory α} {request : Request} {a b : World Memory}

section Named

variable {start : Option Position} {remaining : List (Position × Item)}

theorem all_answer (served : query.table.engine = Memory.engine limits)
    (compiled : query.compile = .ok request)
    (starts : StartsAt request.condition.sortAttr request.startKey start)
    (keyed : (a.state.store.contents request.table).Keyed)
    (left : (a.state.store.contents request.table).behind request.condition request.forward start =
      remaining) :
    (query.all.run a).1 =
      query.decodeAll ((remaining.map Prod.snd).filter request.filter.holds) := by
  have positive := limit_of_compile compiled
  obtain ⟨pages, drained, _⟩ :=
    drain_run served positive starts keyed left (enough_pages served positive a left) rfl
  cases read : query.decodeAll ((remaining.map Prod.snd).filter request.filter.holds) with
  | error fault => rw [read] at drained; exact congrArg Prod.fst (all_run_fault compiled drained)
  | ok records => rw [read] at drained; exact congrArg Prod.fst (all_run_records compiled drained)

theorem count_answer (served : query.table.engine = Memory.engine limits)
    (compiled : query.compile = .ok request)
    (starts : StartsAt request.condition.sortAttr request.startKey start)
    (keyed : (a.state.store.contents request.table).Keyed)
    (left : (a.state.store.contents request.table).behind request.condition request.forward start =
      remaining) :
    (query.count.run a).1 = .ok ((remaining.map Prod.snd).filter request.filter.holds).length := by
  have positive := limit_of_compile compiled
  have drained :=
    drainCounts_run served positive starts keyed left (enough_pages served positive a left)
  exact congrArg Prod.fst (count_run_total compiled drained)

end Named

section Refused

variable {fault : CursorFault}

theorem execute_refused (served : query.table.engine = Memory.engine limits)
    (compiled : query.compile = .ok request) (failed : a.state.store.page request = .error fault) :
    (query.execute.run a).1 = .error (.cursor fault) := by
  have asked : (query.table.engine.query request).run a =
      (.error (.cursor fault), a.asked .query 1) := by
    rw [served, Memory.run_query, failed]
    rfl
  exact congrArg Prod.fst (execute_run_fault compiled asked)

theorem pageBound_succ (served : query.table.engine = Memory.engine limits) (memory : Memory) :
    ∃ bound, query.table.engine.pageBound memory = bound + 1 := by
  have positive := Store.size_lt_pageBound limits memory query.table.name
  rw [served]
  exact Nat.exists_eq_succ_of_ne_zero (by omega)

theorem all_refused (served : query.table.engine = Memory.engine limits)
    (compiled : query.compile = .ok request) (failed : a.state.store.page request = .error fault) :
    (query.all.run a).1 = .error (.cursor fault) := by
  have asked : (query.table.engine.query (request.resumeFrom request.startKey)).run a =
      (.error (.cursor fault), a.asked .query 1) := by
    rw [served, Memory.run_query, show request.resumeFrom request.startKey = request from rfl, failed]
    rfl
  obtain ⟨bound, some⟩ := pageBound_succ served a.state
  have drained : (query.drain request (bound + 1) request.startKey).run a =
      (.error (.cursor fault), a.asked .query 1) := drain_fault asked
  rw [← some] at drained
  exact congrArg Prod.fst (all_run_fault compiled drained)

theorem count_refused (served : query.table.engine = Memory.engine limits)
    (compiled : query.compile = .ok request) (failed : a.state.store.page request = .error fault) :
    (query.count.run a).1 = .error (.cursor fault) := by
  have asked : (query.table.engine.count (request.resumeFrom request.startKey)).run a =
      (.error (.cursor fault), a.asked .count 1) := by
    rw [served, Memory.run_count, show request.resumeFrom request.startKey = request from rfl, failed]
    rfl
  obtain ⟨bound, some⟩ := pageBound_succ served a.state
  have drained : (query.drainCounts request (bound + 1) request.startKey).run a =
      (.error (.cursor fault), a.asked .count 1) := drainCounts_fault asked
  rw [← some] at drained
  exact congrArg Prod.fst (count_run_fault compiled drained)

end Refused

section Congr

variable (served : query.table.engine = Memory.engine limits)
  (alike : ∀ request, query.compile = .ok request → request.SeesAlike a.state.store b.state.store)

include served alike

theorem execute_congr : (query.execute.run a).1 = (query.execute.run b).1 := by
  cases compiled : query.compile with
  | error fault =>
    rw [execute_uncompiled compiled, execute_uncompiled compiled]
  | ok request =>
    have pages := (alike request compiled).page
    cases found : b.state.store.page request with
    | error fault =>
      rw [execute_refused served compiled (pages.trans found), execute_refused served compiled found]
    | ok page =>
      rw [Pager.execute_run query served compiled (pages.trans found),
        Pager.execute_run query served compiled found]

theorem all_congr (keyedA : (a.state.store.contents query.table.name).Keyed)
    (keyedB : (b.state.store.contents query.table.name).Keyed) :
    (query.all.run a).1 = (query.all.run b).1 := by
  cases compiled : query.compile with
  | error fault =>
    rw [all_uncompiled compiled, all_uncompiled compiled]
  | ok request =>
    have same := alike request compiled
    rw [← table_of_compile compiled] at keyedA keyedB
    cases found : a.state.store.page request with
    | error fault =>
      rw [all_refused served compiled found, all_refused served compiled (same.page ▸ found)]
    | ok page =>
      obtain ⟨start, starts⟩ := same.starts found
      rw [all_answer served compiled starts keyedA (same.behind start),
        all_answer served compiled starts keyedB rfl]

theorem count_congr (keyedA : (a.state.store.contents query.table.name).Keyed)
    (keyedB : (b.state.store.contents query.table.name).Keyed) :
    (query.count.run a).1 = (query.count.run b).1 := by
  cases compiled : query.compile with
  | error fault =>
    rw [count_uncompiled compiled, count_uncompiled compiled]
  | ok request =>
    have same := alike request compiled
    rw [← table_of_compile compiled] at keyedA keyedB
    cases found : a.state.store.page request with
    | error fault =>
      rw [count_refused served compiled found, count_refused served compiled (same.page ▸ found)]
    | ok page =>
      obtain ⟨start, starts⟩ := same.starts found
      rw [count_answer served compiled starts keyedA (same.behind start),
        count_answer served compiled starts keyedB rfl]

end Congr

theorem written_of_cursor (served : query.table.engine = Memory.engine limits) {page : RecordPage α}
    (answered : (query.execute.run a).1 = .ok page) {cursor : Cursor}
    (left : page.cursor = some cursor) : query.table.name ∈ a.state.store := by
  by_contra unwritten
  cases compiled : query.compile with
  | error fault =>
    rw [execute_uncompiled compiled] at answered
    cases answered
  | ok request =>
    have found : a.state.store.page request = .ok ⟨[], none⟩ := by
      rw [Store.page, table_of_compile compiled, Std.ExtTreeMap.getElem?_eq_none unwritten]
      rfl
    rw [Pager.execute_run query served compiled found] at answered
    cases answered
    cases left

end Query

end SharedTable
