import SharedTable.Proofs.Cursor
import SharedTable.Proofs.Item
import SharedTable.Proofs.Query.Compile
import SharedTable.Proofs.Query.Run

set_option autoImplicit false

namespace SharedTable

structure Portion where
  items : List Item
  count : Nat

/--
A finite sequence of answers: pages that carry a last key, and behind them a page that carries none, or
a fault.
-/
structure Script where
  further : List (Portion × LastKey)
  final : Except Fault Portion

structure Tape where
  script : Script
  asked : List Request

namespace Script

variable {σ α : Type}

def answer (script : Script) : Except Fault (Portion × Option LastKey) :=
  match script.further with
  | [] => script.final.map fun portion => (portion, none)
  | (portion, lastKey) :: _ => .ok (portion, some lastKey)

def readable (query : Query σ α) (script : Script) : List (Portion × LastKey) :=
  script.further.takeWhile fun page => (query.decodeAll page.1.items).isOk

def records (query : Query σ α) (script : Script) : Except Fault (List α) := do
  let parts ← script.further.mapM fun page => query.decodeAll page.1.items
  let final ← script.final
  let last ← query.decodeAll final.items
  return parts.flatten ++ last

def total (script : Script) : Except Fault Nat :=
  script.final.map fun final => script.further.foldr (fun page sum => page.1.count + sum) final.count

theorem records_nil (query : Query σ α) (final : Portion) :
    records query ⟨[], .ok final⟩ = query.decodeAll final.items := by
  change (query.decodeAll final.items >>= fun last => pure ([].flatten ++ last)) = _
  cases query.decodeAll final.items <;> rfl

section Cons

variable {query : Query σ α} {portion : Portion} {lastKey : LastKey}
  {further : List (Portion × LastKey)} {final : Except Fault Portion}

theorem records_cons_error {fault : Fault} (failed : query.decodeAll portion.items = .error fault) :
    records query ⟨(portion, lastKey) :: further, final⟩ = .error fault := by
  simp only [records, List.mapM_cons, failed]
  rfl

theorem records_cons_ok {read : List α} (decoded : query.decodeAll portion.items = .ok read) :
    records query ⟨(portion, lastKey) :: further, final⟩ =
      (records query ⟨further, final⟩).map (read ++ ·) := by
  simp only [records, List.mapM_cons, decoded]
  cases further.mapM fun page => query.decodeAll page.1.items with
  | error fault => rfl
  | ok parts =>
    cases final with
    | error fault => rfl
    | ok final =>
      simp only [bind, Except.bind]
      cases query.decodeAll final.items with
      | error fault => rfl
      | ok last => simp [pure, Except.pure, Except.map]

theorem readable_cons_error {fault : Fault} (failed : query.decodeAll portion.items = .error fault) :
    readable query ⟨(portion, lastKey) :: further, final⟩ = [] := by
  simp [readable, failed, Except.isOk, Except.toBool]

theorem readable_cons_ok {read : List α} (decoded : query.decodeAll portion.items = .ok read) :
    readable query ⟨(portion, lastKey) :: further, final⟩ =
      (portion, lastKey) :: readable query ⟨further, final⟩ := by
  simp [readable, decoded, Except.isOk, Except.toBool]

theorem total_cons :
    total ⟨(portion, lastKey) :: further, final⟩ =
      (total ⟨further, final⟩).map (portion.count + ·) := by
  cases final with
  | error fault => rfl
  | ok final => rfl

end Cons

end Script

def Tape.after (tape : Tape) (requests : List Request) : Tape :=
  ⟨⟨tape.script.further.drop requests.length, tape.script.final⟩, tape.asked ++ requests⟩

def Request.resumedBy (request : Request) : List (Portion × LastKey) → List Request
  | [] => [request]
  | page :: later => request :: (request.resumeFrom (some page.2)).resumedBy later

theorem Tape.after_resumedBy_cons (request : Request) (startKey : Option LastKey) (portion : Portion)
    (lastKey : LastKey) (further readable : List (Portion × LastKey)) (final : Except Fault Portion)
    (asked : List Request) :
    (Tape.mk ⟨further, final⟩ (asked ++ [request.resumeFrom startKey])).after
        ((request.resumeFrom (some lastKey)).resumedBy readable) =
      (Tape.mk ⟨(portion, lastKey) :: further, final⟩ asked).after
        ((request.resumeFrom startKey).resumedBy ((portion, lastKey) :: readable)) := by
  simp only [after, Request.resumedBy, List.length_cons, List.drop_succ_cons, List.append_assoc,
    List.cons_append, List.nil_append]
  rfl

/-- An engine whose answers are on a tape that its state holds, whatever it is asked. -/
structure Engine.Plays {σ : Type} (engine : Engine σ) (tape : σ → Tape) : Prop where
  query_run : ∀ (request : Request) (world : World σ), ∃ next,
    (engine.query request).run world =
        ((tape world.state).script.answer.map fun page => ⟨page.1.items, page.2⟩, next) ∧
      tape next.state = (tape world.state).after [request]
  count_run : ∀ (request : Request) (world : World σ), ∃ next,
    (engine.count request).run world =
        ((tape world.state).script.answer.map fun page => ⟨page.1.count, page.2⟩, next) ∧
      tape next.state = (tape world.state).after [request]
  bounded : ∀ state, (tape state).script.further.length < engine.pageBound state

namespace Query

variable {σ α : Type}

/--
What a caller meets who runs a query, and as long as a page comes with a cursor runs it again with that
cursor: the records of all pages, or the first fault.
-/
inductive Follows : Query σ α → World σ → Except Fault (List α) → World σ → Prop
  | fault {query : Query σ α} {world next : World σ} {fault : Fault}
    (ran : query.execute.run world = (.error fault, next)) :
    Follows query world (.error fault) next
  | last {query : Query σ α} {world next : World σ} {records : List α}
    (ran : query.execute.run world = (.ok ⟨records, none⟩, next)) :
    Follows query world (.ok records) next
  | further {query : Query σ α} {world next final : World σ} {records : List α} {cursor : Cursor}
    {result : Except Fault (List α)}
    (ran : query.execute.run world = (.ok ⟨records, some cursor⟩, next))
    (rest : Follows { query with cursor := some cursor } next result final) :
    Follows query world (result.map (records ++ ·)) final

theorem Follows.unique {query : Query σ α} {world next last : World σ}
    {result other : Except Fault (List α)} (one : query.Follows world result next)
    (two : query.Follows world other last) : other = result ∧ last = next := by
  induction one generalizing other last with
  | fault ran =>
    cases two with
    | fault also => cases ran.symm.trans also; exact ⟨rfl, rfl⟩
    | last also => cases ran.symm.trans also
    | further also => cases ran.symm.trans also
  | last ran =>
    cases two with
    | fault also => cases ran.symm.trans also
    | last also => cases ran.symm.trans also; exact ⟨rfl, rfl⟩
    | further also => cases ran.symm.trans also
  | further ran _ ih =>
    cases two with
    | fault also => cases ran.symm.trans also
    | last also => cases ran.symm.trans also
    | further also rest =>
      cases ran.symm.trans also
      obtain ⟨rfl, rfl⟩ := ih rest
      exact ⟨rfl, rfl⟩

theorem Follows.iff {query : Query σ α} {world next : World σ} {result : Except Fault (List α)}
    (follows : query.Follows world result next) (other : Except Fault (List α)) (last : World σ) :
    query.Follows world other last ↔ other = result ∧ last = next := by
  constructor
  · exact follows.unique
  · rintro ⟨rfl, rfl⟩
    exact follows

variable {query : Query σ α} {tape : σ → Tape} {request : Request} {world : World σ}
  {further : List (Portion × LastKey)} {final : Except Fault Portion} {asked : List Request}

theorem drain_played (plays : query.table.engine.Plays tape) (request : Request) {bound : Nat}
    (startKey : Option LastKey) (held : tape world.state = ⟨⟨further, final⟩, asked⟩)
    (enough : further.length < bound) :
    ∃ pages next, (query.drain request bound startKey).run world =
        ((Script.records query ⟨further, final⟩).map fun records => (records, pages), next) ∧
      tape next.state = (Tape.mk ⟨further, final⟩ asked).after
        ((request.resumeFrom startKey).resumedBy (Script.readable query ⟨further, final⟩)) := by
  -- Each request takes one answer; the induction is on the pages that are still ahead.
  induction further generalizing bound startKey world asked with
  | nil =>
    obtain ⟨bound, rfl⟩ := Nat.exists_eq_succ_of_ne_zero (Nat.ne_of_gt enough)
    obtain ⟨next, ran, taken⟩ := plays.query_run (request.resumeFrom startKey) world
    rw [held] at ran taken
    cases final with
    | error fault => exact ⟨0, next, drain_fault ran, taken⟩
    | ok final =>
      rw [Script.records_nil]
      cases decoded : query.decodeAll final.items with
      | error fault => exact ⟨0, next, drain_unreadable ran decoded, taken⟩
      | ok records => exact ⟨1, next, drain_last ran decoded rfl, taken⟩
  | cons page rest ih =>
    obtain ⟨portion, lastKey⟩ := page
    obtain ⟨bound, rfl⟩ := Nat.exists_eq_succ_of_ne_zero (Nat.ne_of_gt (Nat.zero_lt_of_lt enough))
    obtain ⟨next, ran, taken⟩ := plays.query_run (request.resumeFrom startKey) world
    rw [held] at ran taken
    cases decoded : query.decodeAll portion.items with
    | error fault =>
      rw [Script.records_cons_error decoded, Script.readable_cons_error decoded]
      exact ⟨0, next, drain_unreadable ran decoded, taken⟩
    | ok records =>
      rw [Script.records_cons_ok decoded, Script.readable_cons_ok decoded]
      obtain ⟨pages, last, drained, behind⟩ :=
        ih (some lastKey) taken (Nat.lt_of_succ_lt_succ enough)
      refine ⟨pages + 1, last, ?_, behind.trans (Tape.after_resumedBy_cons ..)⟩
      rw [drain_further ran decoded rfl, drained]
      cases Script.records query ⟨rest, final⟩ <;> rfl

theorem drainCounts_played (plays : query.table.engine.Plays tape) (request : Request) {bound : Nat}
    (startKey : Option LastKey) (held : tape world.state = ⟨⟨further, final⟩, asked⟩)
    (enough : further.length < bound) :
    ∃ next, (query.drainCounts request bound startKey).run world =
        (Script.total ⟨further, final⟩, next) ∧
      tape next.state = (Tape.mk ⟨further, final⟩ asked).after
        ((request.resumeFrom startKey).resumedBy further) := by
  induction further generalizing bound startKey world asked with
  | nil =>
    obtain ⟨bound, rfl⟩ := Nat.exists_eq_succ_of_ne_zero (Nat.ne_of_gt enough)
    obtain ⟨next, ran, taken⟩ := plays.count_run (request.resumeFrom startKey) world
    rw [held] at ran taken
    cases final with
    | error fault => exact ⟨next, drainCounts_fault ran, taken⟩
    | ok final =>
      refine ⟨next, (drainCounts_last ran rfl).trans ?_, taken⟩
      simp [Script.total, Except.map]
  | cons page rest ih =>
    obtain ⟨portion, lastKey⟩ := page
    obtain ⟨bound, rfl⟩ := Nat.exists_eq_succ_of_ne_zero (Nat.ne_of_gt (Nat.zero_lt_of_lt enough))
    obtain ⟨next, ran, taken⟩ := plays.count_run (request.resumeFrom startKey) world
    rw [held] at ran taken
    obtain ⟨last, drained, behind⟩ :=
      ih (some lastKey) taken (Nat.lt_of_succ_lt_succ enough)
    refine ⟨last, ?_, behind.trans (Tape.after_resumedBy_cons ..)⟩
    rw [drainCounts_further ran rfl, drained, Script.total_cons]

theorem follows_played (query : Query σ α) (world : World σ) (plays : query.table.engine.Plays tape)
    (compiled : query.compile = .ok request) (held : tape world.state = ⟨⟨further, final⟩, asked⟩) :
    ∃ paged, query.Follows world (Script.records query ⟨further, final⟩) paged ∧
      tape paged.state = (Tape.mk ⟨further, final⟩ asked).after
        (request.resumedBy (Script.readable query ⟨further, final⟩)) := by
  -- The cursor of a page is the code of its last key, so the query with that cursor compiles to the
  -- request that a drain makes next.
  induction further generalizing query request world asked with
  | nil =>
    obtain ⟨next, ran, taken⟩ := plays.query_run request world
    rw [held] at ran taken
    cases final with
    | error fault => exact ⟨next, .fault (execute_run_fault compiled ran), taken⟩
    | ok final =>
      rw [Script.records_nil]
      have executed := execute_run_page compiled ran
      dsimp only [Option.map_none] at executed
      cases decoded : query.decodeAll final.items with
      | error fault =>
        rw [decoded] at executed
        exact ⟨_, .fault executed, taken⟩
      | ok records =>
        rw [decoded] at executed
        exact ⟨_, .last executed, taken⟩
  | cons page rest ih =>
    obtain ⟨portion, lastKey⟩ := page
    obtain ⟨next, ran, taken⟩ := plays.query_run request world
    rw [held] at ran taken
    have executed := execute_run_page compiled ran
    dsimp only [Option.map_some] at executed
    cases decoded : query.decodeAll portion.items with
    | error fault =>
      rw [decoded] at executed
      rw [Script.records_cons_error decoded, Script.readable_cons_error decoded]
      exact ⟨_, .fault executed, taken⟩
    | ok records =>
      rw [decoded] at executed
      rw [Script.records_cons_ok decoded, Script.readable_cons_ok decoded]
      have resumed := compile_resumed compiled (.some (Cursor.decode_encode lastKey))
      obtain ⟨paged, follows, behind⟩ :=
        ih { query with cursor := some (Cursor.encode lastKey) } (next.reported _) plays resumed taken
      exact ⟨paged, .further executed follows, behind.trans (Tape.after_resumedBy_cons ..)⟩

/--
Paging by hand and draining make the same requests, one for every page up to the first that cannot be
read, and end in the same records or the same fault. Counting makes a request for every page and adds
up what the engine counts. A query that does not compile asks nothing.
-/
theorem paging_eq_draining (plays : query.table.engine.Plays tape) (world : World σ) :
    (∀ fault, query.compile = .error fault →
      (∀ result next, query.Follows world result next ↔ result = .error fault ∧ next = world) ∧
        query.all.run world = (.error fault, world) ∧
        query.count.run world = (.error fault, world)) ∧
    ∀ request, query.compile = .ok request →
      ∃ paged drained counted,
        (∀ result next, query.Follows world result next ↔
          result = (tape world.state).script.records query ∧ next = paged) ∧
        query.all.run world = ((tape world.state).script.records query, drained) ∧
        query.count.run world = ((tape world.state).script.total, counted) ∧
        tape paged.state = (tape world.state).after
          (request.resumedBy ((tape world.state).script.readable query)) ∧
        tape drained.state = tape paged.state ∧
        tape counted.state = (tape world.state).after
          (request.resumedBy (tape world.state).script.further) := by
  refine ⟨fun fault failed => ⟨?_, all_uncompiled failed world, count_uncompiled failed world⟩, ?_⟩
  · exact (Follows.fault (execute_uncompiled failed world)).iff
  intro request compiled
  have enough := plays.bounded world.state
  generalize held : tape world.state = played at enough ⊢
  obtain ⟨⟨further, final⟩, asked⟩ := played
  obtain ⟨paged, follows, pagedTape⟩ := follows_played query world plays compiled held
  obtain ⟨pages, drained, drainRan, drainedTape⟩ :=
    drain_played plays request request.startKey held enough
  obtain ⟨counted, countRan, countedTape⟩ :=
    drainCounts_played plays request request.startKey held enough
  have all : ∃ last, query.all.run world = (Script.records query ⟨further, final⟩, last) ∧
      last.state = drained.state := by
    cases read : Script.records query ⟨further, final⟩ with
    | error fault => rw [read] at drainRan; exact ⟨_, all_run_fault compiled drainRan, rfl⟩
    | ok records => rw [read] at drainRan; exact ⟨_, all_run_records compiled drainRan, rfl⟩
  have count : ∃ last, query.count.run world = (Script.total ⟨further, final⟩, last) ∧
      last.state = counted.state := by
    cases sum : Script.total ⟨further, final⟩ with
    | error fault => rw [sum] at countRan; exact ⟨_, count_run_fault compiled countRan, rfl⟩
    | ok total => rw [sum] at countRan; exact ⟨_, count_run_total compiled countRan, rfl⟩
  obtain ⟨afterAll, allRan, allState⟩ := all
  obtain ⟨afterCount, countRan, countState⟩ := count
  exact ⟨paged, afterAll, afterCount, follows.iff, allRan, countRan, pagedTape,
    (congrArg tape allState).trans (drainedTape.trans pagedTape.symm),
    (congrArg tape countState).trans countedTape⟩

end Query

namespace Tape

def play {β : Type} (read : Portion × Option LastKey → β) (request : Request) : Action Tape β := do
  let tape ← Action.state
  Action.setState (tape.after [request])
  Action.ofExcept (tape.script.answer.map read)

theorem play_run {β : Type} (read : Portion × Option LastKey → β) (request : Request)
    (world : World Tape) :
    (play read request).run world =
      (world.state.script.answer.map read, { world with state := world.state.after [request] }) := rfl

def engine : Engine Tape where
  readLimit := 1
  writeLimit := 1
  pageBound tape := tape.script.further.length + 1
  pauses := 0
  query := play fun page => ⟨page.1.items, page.2⟩
  count := play fun page => ⟨page.1.count, page.2⟩
  get _ _ := throw (.connection .dispatch)
  put _ _ _ := throw (.connection .dispatch)
  delete _ _ := throw (.connection .dispatch)
  batchGet _ _ := .fail (.connection .dispatch)
  batchWrite _ _ _ := .fail (.connection .dispatch)

theorem engine_plays : engine.Plays id where
  query_run request world := ⟨_, play_run _ request world, rfl⟩
  count_run request world := ⟨_, play_run _ request world, rfl⟩
  bounded _ := Nat.lt_succ_self _

end Tape

namespace Query

def notes : Query Tape Value where
  table := ⟨⟨Tape.engine, "notes", 1, .byClock⟩, .untyped ["id"], ⟨"Note", ⟨["id"], []⟩, fun _ => none⟩⟩
  slot := none
  partition := .ofList [("id", Value.string "a")]
  sortKey := .unbounded
  filter := []
  limit := some 1
  cursor := none
  reverse := false

def notesRequest : Request :=
  ⟨"notes", none, ⟨"partitionKey", "Note#id#a", "sortKey", some (.equals "Note")⟩, [], some 1, none, true⟩

def notesTape : Tape :=
  ⟨⟨[(⟨[], 2⟩, .ofList [("sort\"Key", "\\\n")])], .ok ⟨[.ofList [("id", Value.string "a")]], 3⟩⟩, []⟩

theorem decode_note : notes.table.decode (.ofList [("id", Value.string "a")]) =
    .ok (.object [("id", .string "a")]) := by
  have unreserved : Item.Unreserved (.ofList [("id", Value.string "a")]) := by
    have apart : ∀ attr ∈ reservedAttrs, attr ∉ ["id"] := by decide
    intro attr reserved
    apply Std.ExtTreeMap.getElem?_ofList_of_contains_eq_false
    simpa using apart attr reserved
  rw [Table.decode, Item.decode, Item.strip_of_unreserved unreserved]
  rfl

theorem notes_paging_eq_draining :
    Tape.engine.Plays id ∧ ∃ paged drained,
      notes.Follows (.ofState notesTape) (.ok [.object [("id", .string "a")]]) paged ∧
      notes.all.run (.ofState notesTape) = (.ok [.object [("id", .string "a")]], drained) ∧
      drained.state = paged.state ∧
      paged.state.asked = [notesRequest, notesRequest.resumeFrom (some (.ofList [("sort\"Key", "\\\n")]))] ∧
      (notes.count.run (.ofState notesTape)).1 = .ok 5 := by
  have compiled : notes.compile = .ok notesRequest := rfl
  have read : notesTape.script.records notes = .ok [.object [("id", .string "a")]] := by
    have first : notes.decodeAll [] = .ok [] := rfl
    have last : notes.decodeAll [.ofList [("id", Value.string "a")]] =
        .ok [.object [("id", .string "a")]] := by
      rw [decodeAll, List.mapM_cons, decode_note]
      rfl
    rw [notesTape, Script.records_cons_ok first, Script.records_nil, last]
    rfl
  have plays : notes.table.engine.Plays id := Tape.engine_plays
  obtain ⟨paged, drained, counted, follows, all, count, asked, same, -⟩ :=
    (paging_eq_draining plays (.ofState notesTape)).2 notesRequest compiled
  refine ⟨Tape.engine_plays, paged, drained, (follows _ _).mpr ⟨read.symm, rfl⟩, all.trans ?_, same,
    congrArg Tape.asked asked, ?_⟩
  · exact congrArg (·, drained) read
  rw [count]
  rfl

end Query

end SharedTable
