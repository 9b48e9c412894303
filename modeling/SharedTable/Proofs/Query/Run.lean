import SharedTable.Proofs.Action
import SharedTable.Query

set_option autoImplicit false

namespace SharedTable

namespace Query

variable {σ α : Type} {query : Query σ α} {request : Request} {fault : Fault} {world next : World σ}

theorem execute_uncompiled (failed : query.compile = .error fault) (world : World σ) :
    query.execute.run world = (.error fault, world) := by
  rw [execute, failed, Action.run_bind_error (Action.run_ofExcept _ _)]

theorem all_uncompiled (failed : query.compile = .error fault) (world : World σ) :
    query.all.run world = (.error fault, world) := by
  rw [all, failed, Action.run_bind_error (Action.run_ofExcept _ _)]

theorem count_uncompiled (failed : query.compile = .error fault) (world : World σ) :
    query.count.run world = (.error fault, world) := by
  rw [count, failed, Action.run_bind_error (Action.run_ofExcept _ _)]

theorem execute_run_fault (compiled : query.compile = .ok request)
    (asked : (query.table.engine.query request).run world = (.error fault, next)) :
    query.execute.run world = (.error fault, next) := by
  rw [execute, compiled, Action.run_bind_ok (Action.run_ofExcept _ _), Action.run_bind_error asked]

theorem execute_run_page (compiled : query.compile = .ok request) {page : QueryPage}
    (asked : (query.table.engine.query request).run world = (.ok page, next)) :
    query.execute.run world =
      ((query.decodeAll page.items).map fun records => ⟨records, page.lastKey.map Cursor.encode⟩,
        next.reported
          (.queryPage request.table request.condition page.items.length page.lastKey.isSome)) := by
  rw [execute, compiled, Action.run_bind_ok (Action.run_ofExcept _ _), Action.run_bind_ok asked,
    Action.run_bind_ok (Action.run_report _ _), Action.run_bind, Action.run_ofExcept]
  cases query.decodeAll page.items <;> rfl

section Step

variable {bound : Nat} {startKey : Option LastKey} {page : QueryPage} {records : List α}

theorem drain_fault
    (asked : (query.table.engine.query (request.resumeFrom startKey)).run world = (.error fault, next)) :
    (query.drain request (bound + 1) startKey).run world = (.error fault, next) :=
  Action.run_bind_error asked

variable (asked : (query.table.engine.query (request.resumeFrom startKey)).run world = (.ok page, next))

include asked

theorem drain_unreadable (failed : query.decodeAll page.items = .error fault) :
    (query.drain request (bound + 1) startKey).run world = (.error fault, next) := by
  rw [drain, Action.run_bind_ok asked, failed, Action.run_bind_error (Action.run_ofExcept _ _)]

theorem drain_last (decoded : query.decodeAll page.items = .ok records) (last : page.lastKey = none) :
    (query.drain request (bound + 1) startKey).run world = (.ok (records, 1), next) := by
  rw [drain, Action.run_bind_ok asked, decoded, Action.run_bind_ok (Action.run_ofExcept _ _), last]
  rfl

theorem drain_further (decoded : query.decodeAll page.items = .ok records) {lastKey : LastKey}
    (goesOn : page.lastKey = some lastKey) :
    (query.drain request (bound + 1) startKey).run world =
      (((query.drain request bound (some lastKey)).run next).1.map fun later =>
          (records ++ later.1, later.2 + 1),
        ((query.drain request bound (some lastKey)).run next).2) := by
  rw [drain, Action.run_bind_ok asked, decoded, Action.run_bind_ok (Action.run_ofExcept _ _), goesOn]
  dsimp only
  rw [Action.run_bind]
  rcases (query.drain request bound (some lastKey)).run next with ⟨_ | _, _⟩ <;> rfl

end Step

section CountStep

variable {bound : Nat} {startKey : Option LastKey} {page : CountPage}

theorem drainCounts_fault
    (asked : (query.table.engine.count (request.resumeFrom startKey)).run world = (.error fault, next)) :
    (query.drainCounts request (bound + 1) startKey).run world = (.error fault, next) :=
  Action.run_bind_error asked

variable (asked : (query.table.engine.count (request.resumeFrom startKey)).run world = (.ok page, next))

include asked

theorem drainCounts_last (last : page.lastKey = none) :
    (query.drainCounts request (bound + 1) startKey).run world = (.ok page.count, next) := by
  rw [drainCounts, Action.run_bind_ok asked, last]
  rfl

theorem drainCounts_further {lastKey : LastKey} (goesOn : page.lastKey = some lastKey) :
    (query.drainCounts request (bound + 1) startKey).run world =
      (((query.drainCounts request bound (some lastKey)).run next).1.map (page.count + ·),
        ((query.drainCounts request bound (some lastKey)).run next).2) := by
  rw [drainCounts, Action.run_bind_ok asked, goesOn]
  dsimp only
  rw [Action.run_bind]
  rcases (query.drainCounts request bound (some lastKey)).run next with ⟨_ | _, _⟩ <;> rfl

end CountStep

section Drained

variable (compiled : query.compile = .ok request)

include compiled

theorem all_run_fault
    (drained : (query.drain request (query.table.engine.pageBound world.state)
      request.startKey).run world = (.error fault, next)) :
    query.all.run world = (.error fault, next) := by
  rw [all, compiled, Action.run_bind_ok (Action.run_ofExcept _ _),
    Action.run_bind_ok (Action.run_state _), Action.run_bind_error drained]

theorem all_run_records {records : List α} {pages : Nat}
    (drained : (query.drain request (query.table.engine.pageBound world.state)
      request.startKey).run world = (.ok (records, pages), next)) :
    query.all.run world =
      (.ok records,
        next.reported (.queryAll request.table request.condition records.length pages)) := by
  rw [all, compiled, Action.run_bind_ok (Action.run_ofExcept _ _),
    Action.run_bind_ok (Action.run_state _), Action.run_bind_ok drained]
  rfl

theorem count_run_fault
    (drained : (query.drainCounts request (query.table.engine.pageBound world.state)
      request.startKey).run world = (.error fault, next)) :
    query.count.run world = (.error fault, next) := by
  rw [count, compiled, Action.run_bind_ok (Action.run_ofExcept _ _),
    Action.run_bind_ok (Action.run_state _), Action.run_bind_error drained]

theorem count_run_total {total : Nat}
    (drained : (query.drainCounts request (query.table.engine.pageBound world.state)
      request.startKey).run world = (.ok total, next)) :
    query.count.run world =
      (.ok total, next.reported (.queryCount request.table request.condition total)) := by
  rw [count, compiled, Action.run_bind_ok (Action.run_ofExcept _ _),
    Action.run_bind_ok (Action.run_state _), Action.run_bind_ok drained]
  rfl

end Drained

end Query

end SharedTable
