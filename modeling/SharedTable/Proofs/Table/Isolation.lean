import SharedTable.Proofs.Table.Sharing

set_option autoImplicit false

namespace SharedTable

variable {σ α β : Type}

inductive TableCall (table : Table σ α) where
  | record (call : RecordCall α)
  | page (query : Query σ α) (own : query.table = table)
  | all (query : Query σ α) (own : query.table = table)
  | count (query : Query σ α) (own : query.table = table)

inductive TableAnswer (α : Type) where
  | record (answer : RecordAnswer α)
  | page (page : RecordPage α)
  | all (records : List α)
  | count (count : Nat)

structure Exchange (table : Table σ α) where
  call : TableCall table
  answer : Except Fault (TableAnswer α)

def Exchange.EndsWith {table : Table σ α} (exchange : Exchange table) (cursor : Cursor) : Prop :=
  ∃ page, exchange.answer = .ok (.page page) ∧ page.cursor = some cursor

namespace TableCall

variable {table : Table σ α}

def act : TableCall table → Action σ (TableAnswer α)
  | .record call => .record <$> call.act table
  | .page query _ => .page <$> query.execute
  | .all query _ => .all <$> query.all
  | .count query _ => .count <$> query.count

def records : TableCall table → List α
  | .record call => call.records
  | _ => []

def query? : TableCall table → Option (Query σ α)
  | .record _ => none
  | .page query _ => some query
  | .all query _ => some query
  | .count query _ => some query

/-- A call without a cursor, or with one that an earlier page of the same query ended with. -/
def Resumes (past : List (Exchange table)) (call : TableCall table) : Prop :=
  ∀ query cursor, call.query? = some query → query.cursor = some cursor →
    ∃ former own answer, ⟨.page former own, answer⟩ ∈ past ∧
      { query with cursor := former.cursor } = former ∧
      Exchange.EndsWith (⟨.page former own, answer⟩ : Exchange table) cursor

end TableCall

def Resuming {table : Table σ α} (past : List (Exchange table)) : List (Exchange table) → Prop
  | [] => True
  | exchange :: later => exchange.call.Resumes past ∧ Resuming (past ++ [exchange]) later

def transcript (first : Table σ α) (second : Table σ β) :
    World σ → List (TableCall first ⊕ TableCall second) → List (Exchange first)
  | _, [] => []
  | world, .inl call :: rest =>
    ⟨call, (call.act.run world).1⟩ :: transcript first second (call.act.run world).2 rest
  | world, .inr call :: rest => transcript first second (call.act.run world).2 rest

namespace TableCall

variable {table : Table Memory α}

def edits (contents : Contents) : TableCall table → List Edit
  | .record call => Effect.editsOf (call.outcome table contents)
  | _ => []

variable {limits : BatchLimits} (served : table.engine = Memory.engine limits)

include served

theorem edited {world : World Memory} (keyed : (world.state.store.contents table.name).Keyed)
    (call : TableCall table) :
    Store.Edited table.name (call.edits (world.state.store.contents table.name)) world.state.store
      (call.act.run world).2.state.store := by
  cases call with
  | record call =>
    obtain ⟨next, ran, edited⟩ := call.describes served world keyed
    rw [act, Action.run_map, ran]
    exact edited
  | page query own =>
    cases own
    rw [act, Action.run_map, Query.execute_keeps served world]
    exact Store.edited_nil
  | all query own =>
    cases own
    rw [act, Action.run_map, Query.all_keeps served world]
    exact Store.edited_nil
  | count query own =>
    cases own
    rw [act, Action.run_map, Query.count_keeps served world]
    exact Store.edited_nil

theorem answer_congr (plain : Key.Plain table.typeName) {a b : World Memory}
    (apart : Apart table.typeName (a.state.store.contents table.name)
      (b.state.store.contents table.name)) (call : TableCall table)
    (resumed : ∀ query cursor, call.query? = some query → query.cursor = some cursor →
      table.name ∈ a.state.store ∧ table.name ∈ b.state.store) :
    (call.act.run a).1 = (call.act.run b).1 := by
  -- A query that resumes looks at a start key only where both have written the table.
  have begun (query : Query Memory α) (asked : call.query? = some query) :
      query.cursor = none ∨ table.name ∈ a.state.store ∧ table.name ∈ b.state.store := by
    cases given : query.cursor with
    | none => exact .inl rfl
    | some cursor => exact .inr (resumed query cursor asked given)
  cases call with
  | record call =>
    obtain ⟨_, ranA, _⟩ := call.describes served a apart.keyed
    obtain ⟨_, ranB, _⟩ := call.describes served b apart.aloneKeyed
    have same := RecordCall.outcome_congr plain (fun key own => apart.getElem?_eq own) call
    rw [act, Action.run_map, Action.run_map, ranA, ranB, same]
  | page query own =>
    cases own
    have same := Query.execute_congr served fun _ => Query.seesAlike plain apart (begun query rfl)
    rw [act, Action.run_map, Action.run_map, same]
  | all query own =>
    cases own
    have same := Query.all_congr served (fun _ => Query.seesAlike plain apart (begun query rfl))
      apart.keyed apart.aloneKeyed
    rw [act, Action.run_map, Action.run_map, same]
  | count query own =>
    cases own
    have same := Query.count_congr served (fun _ => Query.seesAlike plain apart (begun query rfl))
      apart.keyed apart.aloneKeyed
    rw [act, Action.run_map, Action.run_map, same]

theorem written_of_endsWith {world : World Memory} {call : TableCall table} {cursor : Cursor}
    (ends : Exchange.EndsWith ⟨call, (call.act.run world).1⟩ cursor) :
    table.name ∈ world.state.store := by
  obtain ⟨page, answered, left⟩ := ends
  cases call with
  | page query own =>
    cases own
    rw [act, Action.run_map] at answered
    cases answer : (query.execute.run world).1 with
    | error fault =>
      rw [answer] at answered
      cases answered
    | ok found =>
      rw [answer] at answered
      cases answered
      exact Query.written_of_cursor served answer left
  | record call =>
    rw [act, Action.run_map] at answered
    cases answer : ((call.act table).run world).1 <;> rw [answer] at answered <;> cases answered
  | all query own =>
    rw [act, Action.run_map] at answered
    cases answer : (query.all.run world).1 <;> rw [answer] at answered <;> cases answered
  | count query own =>
    rw [act, Action.run_map] at answered
    cases answer : (query.count.run world).1 <;> rw [answer] at answered <;> cases answered

omit served in
theorem edits_own (plain : Key.Plain table.typeName) {contents : Contents} (call : TableCall table) :
    ∀ edit ∈ call.edits contents, edit.Keyed ∧ edit.1.isOf table.typeName = true := by
  intro edit member
  cases call with
  | record call =>
    obtain ⟨write, rfl, made⟩ := RecordCall.write_of_mem_edits member
    exact RecordWrite.edits_own plain made
  | page query own => cases member
  | all query own => cases member
  | count query own => cases member

omit served in
theorem edits_congr (plain : Key.Plain table.typeName) {shared alone : Contents}
    (apart : Apart table.typeName shared alone) (call : TableCall table) :
    call.edits shared = call.edits alone := by
  cases call with
  | record call =>
    exact congrArg Effect.editsOf
      (RecordCall.outcome_congr plain (fun key own => apart.getElem?_eq own) call)
  | page query own => rfl
  | all query own => rfl
  | count query own => rfl

omit served in
theorem edits_other (plain : Key.Plain table.typeName) {typeName : String}
    (differ : table.typeName ≠ typeName) {contents : Contents} {call : TableCall table}
    (unreserved : ∀ record ∈ call.records, table.Unreserved record) :
    ∀ edit ∈ call.edits contents, edit.Keyed ∧ edit.1.isOf typeName = false ∧
      ∀ item : Item, edit.2 = some item → item.HiddenFrom typeName := by
  intro edit member
  obtain ⟨keyed, own⟩ := edits_own plain call edit member
  refine ⟨keyed, PrimaryKey.isOf_eq_false own differ, ?_⟩
  cases call with
  | record call =>
    obtain ⟨write, rfl, made⟩ := RecordCall.write_of_mem_edits member
    exact RecordWrite.edits_hidden plain unreserved differ made
  | page query own => cases member
  | all query own => cases member
  | count query own => cases member

end TableCall

/--
The tables of a run on which both tables are called and of one on which only the first is. A cursor has
been answered only where the first table was written in both.
-/
structure Alongside (table : Table Memory α) (past : List (Exchange table)) (a b : Store) : Prop where
  apart : Apart table.typeName (a.contents table.name) (b.contents table.name)
  begun : ∀ exchange ∈ past, ∀ cursor, exchange.EndsWith cursor → table.name ∈ a ∧ table.name ∈ b

namespace Alongside

variable {limits : BatchLimits} {first : Table Memory α} {second : Table Memory β}
  {past : List (Exchange first)} {a b : World Memory}

theorem own_call (served : first.engine = Memory.engine limits) (plain : Key.Plain first.typeName)
    (alongside : Alongside first past a.state.store b.state.store) {call : TableCall first}
    (resumes : call.Resumes past) :
    (call.act.run a).1 = (call.act.run b).1 ∧
      Alongside first (past ++ [⟨call, (call.act.run a).1⟩]) (call.act.run a).2.state.store
        (call.act.run b).2.state.store := by
  have same := call.answer_congr served plain alongside.apart fun query cursor asked given => by
    obtain ⟨former, own, answer, earlier, _, ends⟩ := resumes query cursor asked given
    exact alongside.begun _ earlier cursor ends
  have leftA := call.edited served alongside.apart.keyed
  have leftB := call.edited served alongside.apart.aloneKeyed
  refine ⟨same, ?_, ?_⟩
  · have edits := TableCall.edits_congr plain alongside.apart call
    rw [leftA.contents, leftB.contents, ← edits]
    exact alongside.apart.edited_own (TableCall.edits_own plain call)
  · intro exchange member cursor ends
    rcases List.mem_append.mp member with earlier | last
    next =>
      obtain ⟨inA, inB⟩ := alongside.begun exchange earlier cursor ends
      exact ⟨leftA.kept inA, leftB.kept inB⟩
    next =>
      cases List.mem_singleton.mp last
      exact ⟨leftA.kept (TableCall.written_of_endsWith served ends),
        leftB.kept (TableCall.written_of_endsWith served (same ▸ ends))⟩

theorem other_call (served : first.engine = Memory.engine limits) (plain : Key.Plain second.typeName)
    (shared : second.client = first.client) (differ : first.typeName ≠ second.typeName)
    (alongside : Alongside first past a.state.store b.state.store) {call : TableCall second}
    (unreserved : ∀ record ∈ call.records, second.Unreserved record) :
    Alongside first past (call.act.run a).2.state.store b.state.store := by
  have name : second.name = first.name := congrArg Client.tableName shared
  have alike : second.engine = Memory.engine limits := (congrArg Client.engine shared).trans served
  have keyed := alongside.apart.keyed
  rw [← name] at keyed
  have left := call.edited alike keyed
  rw [name] at left
  refine ⟨?_, fun exchange earlier cursor ends => ?_⟩
  · rw [left.contents]
    exact alongside.apart.edited_other (TableCall.edits_other plain differ.symm unreserved)
  · obtain ⟨inA, inB⟩ := alongside.begun exchange earlier cursor ends
    exact ⟨left.kept inA, inB⟩

end Alongside

theorem transcript_eq_filter {limits : BatchLimits} {first : Table Memory α} {second : Table Memory β}
    (served : first.engine = Memory.engine limits) (shared : second.client = first.client)
    (plainFirst : Key.Plain first.typeName) (plainSecond : Key.Plain second.typeName)
    (differ : first.typeName ≠ second.typeName) {past : List (Exchange first)} {a b : World Memory}
    (alongside : Alongside first past a.state.store b.state.store)
    (calls : List (TableCall first ⊕ TableCall second))
    (unreserved : ∀ call, .inr call ∈ calls → ∀ record ∈ call.records, second.Unreserved record)
    (resuming : Resuming past (transcript first second a calls)) :
    transcript first second a calls = transcript first second b (calls.filter Sum.isLeft) := by
  induction calls generalizing past a b with
  | nil => rfl
  | cons call rest ih =>
    cases call with
    | inl call =>
      obtain ⟨resumes, later⟩ := resuming
      obtain ⟨same, further⟩ := alongside.own_call served plainFirst resumes
      have tail := ih further (fun other member => unreserved other (List.mem_cons_of_mem _ member)) later
      change _ :: _ = _ :: _
      rw [tail, same]
    | inr call =>
      have further := alongside.other_call served plainSecond shared differ
        (unreserved call List.mem_cons_self)
      exact ih further (fun other member => unreserved other (List.mem_cons_of_mem _ member)) resuming

/--
What is observed through a table is what would be observed if all calls of a table of another type on the
same client were taken away.
-/
theorem transcript_undisturbed {limits : BatchLimits} {first : Table Memory α} {second : Table Memory β}
    (served : first.engine = Memory.engine limits) (shared : second.client = first.client)
    (plainFirst : Key.Plain first.typeName) (plainSecond : Key.Plain second.typeName)
    (differ : first.typeName ≠ second.typeName) {world : World Memory}
    (empty : world.state.store.contents first.name = ∅)
    (calls : List (TableCall first ⊕ TableCall second))
    (unreserved : ∀ call, .inr call ∈ calls → ∀ record ∈ call.records, second.Unreserved record)
    (resuming : Resuming [] (transcript first second world calls)) :
    transcript first second world calls = transcript first second world (calls.filter Sum.isLeft) := by
  have together : Alongside first [] world.state.store world.state.store := by
    constructor
    next =>
      rw [empty]
      exact .empty
    next =>
      intro exchange none
      cases none
  exact transcript_eq_filter served shared plainFirst plainSecond differ together calls unreserved resuming

def registry : Client Memory := ⟨Memory.engine .standard, "registry", 1, .byClock⟩

def registered (typeName : String) : Table Memory Value where
  client := registry
  type := .untyped ["name", "city"]
  schema := ⟨typeName, ⟨[], ["name"]⟩, fun slot =>
    if slot = .gsi1 then some ⟨"byCity", ⟨["city"], []⟩⟩ else none⟩

def people : Table Memory Value := registered "Person"

def firms : Table Memory Value := registered "Firm"

def entry (name city : String) : Value := .object [("name", .string name), ("city", .string city)]

def inOslo : Query Memory Value where
  table := people
  slot := some .gsi1
  partition := .ofList [("city", Value.string "Oslo")]
  sortKey := .unbounded
  filter := []
  limit := some 1
  cursor := none
  reverse := false

def addFirm : TableCall firms := .record (.write (.put (entry "Ada" "Oslo")))

def addPeople : TableCall people :=
  .record (.write (.batchPut [entry "Ada" "Oslo", entry "Ben" "Oslo"]))

def askOslo : TableCall people := .page inOslo rfl

def osloCursor : Option Cursor :=
  match (askOslo.act.run (addPeople.act.run (addFirm.act.run (.ofState .empty)).2).2).1 with
  | .ok (.page page) => page.cursor
  | _ => none

def registryCalls : List (TableCall people ⊕ TableCall firms) :=
  [.inr addFirm, .inl addPeople, .inl askOslo,
    .inr (.record (.write (.delete (entry "Ada" "Oslo")))),
    .inl (.page { inOslo with cursor := osloCursor } rfl)]

theorem entry_unreserved (name city : String) : firms.Unreserved (entry name city) := by
  intro fields shown
  cases shown
  intro attr reserved
  have apart : ∀ attr ∈ reservedAttrs, attr ∉ ["name", "city"] := by decide
  apply Std.ExtTreeMap.getElem?_ofList_of_contains_eq_false
  simpa using apart attr reserved

theorem registryCalls_resuming :
    Resuming [] (transcript people firms (.ofState .empty) registryCalls) := by
  refine ⟨?_, ?_, ?_, trivial⟩
  · intro query cursor asked
    cases asked
  · intro query cursor asked given
    cases asked
    cases given
  · intro query cursor asked given
    cases asked
    change osloCursor = some cursor at given
    unfold osloCursor at given
    split at given
    next page answered =>
      refine ⟨inOslo, rfl, _, ?_, rfl, page, answered, given⟩
      exact List.mem_append_right _ (List.mem_singleton_self _)
    next => cases given

theorem people_undisturbed :
    transcript people firms (.ofState .empty) registryCalls =
      transcript people firms (.ofState .empty)
        [.inl addPeople, .inl askOslo, .inl (.page { inOslo with cursor := osloCursor } rfl)] := by
  refine @transcript_undisturbed Value Value .standard people firms rfl rfl (by unfold Key.Plain; decide)
    (by unfold Key.Plain; decide) (by decide) (.ofState .empty) rfl registryCalls ?_ registryCalls_resuming
  intro call member record inCall
  simp only [registryCalls, List.mem_cons, reduceCtorEq, Sum.inr.injEq, false_or, List.not_mem_nil,
    or_false] at member
  rcases member with rfl | rfl
  · cases List.mem_singleton.mp inCall
    exact entry_unreserved "Ada" "Oslo"
  · cases inCall

end SharedTable
