import SharedTable.Proofs.Batch.Sequence
import SharedTable.Proofs.Table.Batches

/-!
Batches that fail on the way. The chunks of a batch start in their order and stop at the first failure;
what has completed by then stays. Written one chunk at a time, exactly the chunks before the failing one
are in the table.
-/

set_option autoImplicit false

namespace SharedTable

def Store.putAll (store : Store) (table : String) (items : List Item) : Except Fault Store :=
  items.foldlM (fun store item => store.put table item .always) store

theorem Store.putAll_cons {store : Store} {table : String} {item : Item} {key : PrimaryKey}
    (own : PrimaryKey.ofItem? item = some key) (items : List Item) :
    store.putAll table (item :: items) =
      Store.putAll (store.insert table ((store.contents table).insert key item)) table items := by
  rw [putAll, List.foldlM_cons, put_of_free own .always PutCondition.noConfusion]
  rfl

theorem Store.putAll_eq {table : String} {items : List Item}
    (own : ∀ item ∈ items, (PrimaryKey.ofItem? item).isSome = true) (some : items ≠ []) (store : Store) :
    store.putAll table items =
      .ok (store.insert table ((store.contents table).insertMany (Batch.keyed items))) := by
  induction items generalizing store with
  | nil => cases some rfl
  | cons item rest ih =>
    rw [List.forall_mem_cons] at own
    obtain ⟨key, first⟩ := Option.isSome_iff_exists.mp own.1
    have keyed : Batch.keyed (item :: rest) = (key, item) :: Batch.keyed rest := by
      rw [Batch.keyed, List.filterMap_cons, first]
      rfl
    rw [putAll_cons first, keyed, Std.ExtTreeMap.insertMany_cons]
    cases rest with
    | nil => rfl
    | cons => rw [ih own.2 (List.cons_ne_nil _ _), contents_insert_self, insert_insert]

/-! An engine some of whose writes fail without an effect, as told by their number. -/

structure Lapsing (σ : Type) where
  inner : σ
  writes : Nat

namespace Lapsing

variable {σ : Type}

def reach {α : Type} (action : Action σ α) : Action (Lapsing σ) α :=
  action.within inner fun lapsing inner => { lapsing with inner }

def attempt (faults : Nat → Option Fault) : Action (Lapsing σ) Unit := do
  let lapsing ← Action.state
  Action.setState { lapsing with writes := lapsing.writes + 1 }
  match faults lapsing.writes with
  | some fault => throw fault
  | none => return ()

def engine (faults : Nat → Option Fault) (behind : Engine σ) : Engine (Lapsing σ) where
  readLimit := behind.readLimit
  writeLimit := behind.writeLimit
  pageBound lapsing := behind.pageBound lapsing.inner
  pauses := behind.pauses
  query request := reach (behind.query request)
  count request := reach (behind.count request)
  get table key := reach (behind.get table key)
  put table item condition := do
    attempt faults
    reach (behind.put table item condition)
  delete table key := do
    attempt faults
    reach (behind.delete table key)
  batchGet table keys := (behind.batchGet table keys).through reach
  batchWrite table puts deletes :=
    ((behind.batchWrite table puts deletes).through reach).after (attempt faults)

def putChunk (faults : Nat → Option Fault) (limits : BatchLimits) (table : String) (chunk : List Item) :
    Task (Lapsing Memory) Unit 0 :=
  (engine faults (Memory.engine limits)).batchWrite table chunk []

variable {faults : Nat → Option Fault} (limits : BatchLimits) (table : String)
  {world : World (Lapsing Memory)}

theorem run_reach {σ α : Type} (action : Action σ α) (world : World (Lapsing σ)) :
    (reach action).run world =
      let ran := action.run ⟨world.state.inner, world.events, world.clock⟩
      (ran.1, ⟨⟨ran.2.state, world.state.writes⟩, ran.2.events, ran.2.clock⟩) := rfl

theorem run_attempt (world : World (Lapsing σ)) :
    (attempt faults).run world =
      ((faults world.state.writes).elim (.ok ()) .error,
        { world with state := ⟨world.state.inner, world.state.writes + 1⟩ }) := by
  rw [attempt, Action.run_bind_ok (Action.run_state world),
    Action.run_bind_ok (Action.run_setState _ world)]
  cases faults world.state.writes <;> rfl

def refused (world : World (Lapsing Memory)) : World (Lapsing Memory) :=
  { world with state := ⟨world.state.inner, world.state.writes + 1⟩ }

def wrote (store : Store) (world : World (Lapsing Memory)) : World (Lapsing Memory) :=
  { world with state := ⟨⟨store, world.state.inner.calls.plus .batchWrite 1⟩, world.state.writes + 1⟩ }

theorem run_putChunk_fault {fault : Fault} (failing : faults world.state.writes = some fault)
    (chunk : List Item) :
    (putChunk faults limits table chunk).run.run world = (.error fault, refused world) := by
  have attempted := @run_attempt _ faults world
  rw [failing] at attempted
  exact Action.run_bind_error attempted

theorem run_putChunk {store : Store} {chunk : List Item} (healthy : faults world.state.writes = none)
    (written : world.state.inner.store.batchWrite limits.atLeastOne.write table chunk [] = .ok store) :
    (putChunk faults limits table chunk).run.run world = (.ok (), wrote store world) := by
  have attempted := @run_attempt _ faults world
  rw [healthy] at attempted
  refine (Action.run_bind_ok attempted).trans ?_
  have done := Memory.run_batchWrite limits ⟨world.state.inner, world.events, world.clock⟩ table chunk []
  rw [written] at done
  refine (run_reach (Memory.batchWrite limits table chunk []) _).trans ?_
  rw [done]
  rfl

theorem run_putChunks {pieces : List (List Item)} {before : Nat} (some : before < pieces.length)
    (healthy : ∀ call, call < before → faults (world.state.writes + call) = none) {fault : Fault}
    (failing : faults (world.state.writes + before) = Option.some fault)
    (written : ∀ chunk ∈ pieces, ∀ store : Store, ∃ left,
      store.batchWrite limits.atLeastOne.write table chunk [] = .ok left ∧
        store.putAll table chunk = .ok left) :
    ∃ next : World (Lapsing Memory),
      (pieces.mapM fun chunk => (putChunk faults limits table chunk).run).run world =
        (.error fault, next) ∧
      next.state.writes = world.state.writes + before + 1 ∧
      next.state.inner.calls = world.state.inner.calls.plus .batchWrite before ∧
      world.state.inner.store.putAll table (pieces.take before).flatten =
        .ok next.state.inner.store := by
  induction before generalizing pieces world with
  | zero =>
    obtain _ | ⟨chunk, rest⟩ := pieces
    · cases some
    · rw [List.mapM_cons, Action.run_bind_error (run_putChunk_fault limits table failing chunk)]
      exact ⟨_, rfl, rfl, rfl, rfl⟩
  | succ before ih =>
    obtain _ | ⟨chunk, rest⟩ := pieces
    · cases some
    · rw [List.forall_mem_cons] at written
      obtain ⟨left, first, puts⟩ := written.1 world.state.inner.store
      have counted (call : Nat) :
          (wrote left world).state.writes + call = world.state.writes + (call + 1) := by
        change world.state.writes + 1 + call = _
        omega
      obtain ⟨next, ran, writes, calls, later⟩ := @ih (wrote left world) rest (Nat.lt_of_succ_lt_succ some)
        (fun call few => by rw [counted]; exact healthy _ (Nat.succ_lt_succ few))
        (by rw [counted]; exact failing) written.2
      refine ⟨next, ?_, ?_, ?_, ?_⟩
      · rw [List.mapM_cons,
          Action.run_bind_ok (run_putChunk limits table (healthy 0 before.succ_pos) first)]
        exact Action.run_bind_error ran
      · rw [writes, counted]
      · rw [calls, Nat.add_comm]
        exact CallCounts.plus_plus _ .batchWrite 1 before
      · rw [List.take_succ_cons, List.flatten_cons, Store.putAll, List.foldlM_append]
        exact (congrArg (· >>= _) puts).trans later

end Lapsing

namespace Table

variable {α : Type} {faults : Nat → Option Fault} {limits : BatchLimits} {table : Table (Lapsing Memory) α}

theorem forEachChunk_lapsing (served : table.engine = Lapsing.engine faults (Memory.engine limits))
    (items : List Item) :
    (table.forEachChunk items table.engine.writeLimit fun chunk =>
        table.engine.batchWrite table.name chunk []) =
      Batch.forEachChunk table.client.schedule items limits.atLeastOne.write table.client.batchConcurrency
        (Lapsing.putChunk faults limits table.name) := by
  obtain ⟨⟨engine, _, _, _⟩, _, _⟩ := table
  change engine = _ at served
  subst served
  rfl

/--
If one write of a batch fails without an effect and those before it go through, then the batch, one chunk
at a time, fails with that fault. Exactly the items of the chunks before are put, and no later chunk is
written.
-/
theorem batchPut_interrupted (served : table.engine = Lapsing.engine faults (Memory.engine limits))
    (narrow : table.client.batchConcurrency ≤ 1) {records : List α} {entries : List (PrimaryKey × Item)}
    (encoded : records.mapM table.encode = .ok entries) {world : World (Lapsing Memory)} {before : Nat}
    (some : before < Batch.chunkCount limits.atLeastOne.write (Batch.latestItems entries).length)
    (healthy : ∀ call, call < before → faults (world.state.writes + call) = none) {fault : Fault}
    (failing : faults (world.state.writes + before) = Option.some fault) :
    ∃ next, (table.batchPut records).run world = (.error fault, next) ∧
      next.state.writes = world.state.writes + before + 1 ∧
      next.state.inner.calls = world.state.inner.calls.plus .batchWrite before ∧
      world.state.inner.store.putAll table.name
          ((Batch.latestItems entries).take (before * limits.atLeastOne.write)) =
        .ok next.state.inner.store := by
  have positive := limits.atLeastOne_write_pos
  have own := own_of_encoded encoded
  have named (item : Item) := @Batch.isSome_of_mem_latestItems _ own item
  have written : ∀ chunk ∈ Batch.chunks limits.atLeastOne.write (Batch.latestItems entries),
      ∀ store : Store, ∃ left,
        store.batchWrite limits.atLeastOne.write table.name chunk [] = .ok left ∧
          store.putAll table.name chunk = .ok left := fun chunk member store =>
    ⟨_, Memory.batchWrite_puts limits table.name named (Batch.keyed_latestItems_nodup own) member store,
      Store.putAll_eq (fun item held => named item ((Batch.sublist_of_mem_chunks member).subset held))
        (Batch.ne_nil_of_mem_chunks member) store⟩
  rw [← Batch.length_chunks positive] at some
  let count := Batch.chunkCount table.engine.writeLimit (Batch.latestItems entries).length
  obtain ⟨next, ran, left⟩ := @Lapsing.run_putChunks _ limits table.name
    (world.reported (.batchPut table.name table.typeName (Batch.latestItems entries).length count)) _ _
    some healthy _ failing written
  rw [Batch.flatten_take_chunks positive] at left
  refine ⟨next, ?_, left⟩
  have empty : Batch.latestItems entries ≠ [] := by
    rintro none
    simp [none, Batch.chunks] at some
  unfold batchPut
  rw [encoded, Action.run_bind_ok (Action.run_ofExcept _ _)]
  simp only [List.isEmpty_iff, empty, if_false, forEachChunk_lapsing served]
  refine (Action.run_bind_ok (Action.run_report _ _)).trans (Action.run_bind_error ?_)
  exact (Batch.forEachChunk_narrow narrow _ _).trans ran

end Table

/--
What a batch can do, whatever the schedule: its chunks start in their order, so many at a time and no
more; it answers once all have completed, or with the first failure, and then goes no further. What has
completed stays applied. One chunk at a time, exactly the chunks before the failing one are applied.
-/
theorem Batch.chunks_run_in_order {σ ε β : Type} {pauses : Nat} (operation : List ε → Task σ β pauses)
    (entries : List ε) (size width : Nat) (world : World σ) :
    (∀ outcome, (∃ schedule, (forEachChunk schedule entries size width operation).run world = outcome) ↔
      ∃ occurrences,
        Course (max width 1) operation (.ofChunks world (chunks size entries)) occurrences outcome) ∧
    (∀ occurrences outcome,
      Course (max width 1) operation (.ofChunks world (chunks size entries)) occurrences outcome →
      Orderly (chunks size entries).length (max width 1) occurrences outcome.1 ∧
      ∀ applied : Nat → β → σ → Prop,
        (∀ held ∈ (chunks size entries).zipIdx, (operation held.1).Obeys (Lasting applied held.2)) →
        ∀ done ∈ completions occurrences, applied done.1 done.2 outcome.2.state) ∧
    (width ≤ 1 →
      (∀ occurrences fault final,
        Course (max width 1) operation (.ofChunks world (chunks size entries)) occurrences
          (.error fault, final) →
        ∃ past number, occurrences = past ++ [.failed number fault] ∧
          starts occurrences = List.range (number + 1) ∧
          (completions occurrences).map Prod.fst = List.range number) ∧
      ∀ number chunk results middle fault final, (chunks size entries)[number]? = some chunk →
        (((chunks size entries).take number).mapM fun chunk => (operation chunk).run).run world =
          (.ok results, middle) →
        (operation chunk).run.run middle = (.error fault, final) →
        ∀ schedule, (forEachChunk schedule entries size width operation).run world =
          (.error fault, final)) ∧
    ∀ (α : Type) (table : Table (Lapsing Memory) α) (faults : Nat → Option Fault) (limits : BatchLimits)
      (records : List α) (entries : List (PrimaryKey × Item)) (world : World (Lapsing Memory))
      (before : Nat) (fault : Fault),
      table.engine = Lapsing.engine faults (Memory.engine limits) → table.client.batchConcurrency ≤ 1 →
      records.mapM table.encode = .ok entries →
      before < chunkCount limits.atLeastOne.write (latestItems entries).length →
      (∀ call, call < before → faults (world.state.writes + call) = none) →
      faults (world.state.writes + before) = some fault →
      ∃ next, (table.batchPut records).run world = (.error fault, next) ∧
        next.state.writes = world.state.writes + before + 1 ∧
        next.state.inner.calls = world.state.inner.calls.plus .batchWrite before ∧
        world.state.inner.store.putAll table.name
            ((latestItems entries).take (before * limits.atLeastOne.write)) =
          .ok next.state.inner.store := by
  refine ⟨fun outcome => exists_schedule_iff, ?courses, ?narrow, ?puts⟩
  case courses =>
    intro occurrences outcome course
    refine ⟨course.orderly, fun applied lasting => (course.stays ?_ lasting nofun).2⟩
    rw [Stage.numbers_ofChunks]
    exact List.nodup_range
  case narrow =>
    intro narrow
    refine ⟨fun occurrences fault final course => course.failed_in_turn (max_le narrow Nat.le.refl), ?_⟩
    exact fun _ _ _ _ _ _ chosen before failing => forEachChunk_of_failing narrow chosen before failing
  case puts =>
    exact fun _ _ _ _ _ _ _ _ _ served narrow encoded some healthy failing =>
      Table.batchPut_interrupted served narrow encoded some healthy failing

def Batch.noteChunk (chunk : List Nat) : Task (List Nat) Nat 0 := show Action (List Nat) Nat from do
  if chunk = [2] then throw (.engine .batchWriteItem .unavailable)
  Action.setState ((← Action.state) ++ chunk)
  return chunk.length

theorem Batch.noteChunk_obeys (number : Nat) :
    (noteChunk [number + 1]).Obeys (Lasting (fun number _ log => number + 1 ∈ log) number) := by
  intro world
  by_cases two : [number + 1] = [2]
  · have failed : ExceptT.run (noteChunk [number + 1] : Action (List Nat) Nat) world =
        (.error (.engine .batchWriteItem .unavailable), world) := by
      rw [two]
      rfl
    rw [failed]
    exact ⟨nofun, fun _ _ _ held => held⟩
  · have done : ExceptT.run (noteChunk [number + 1] : Action (List Nat) Nat) world =
        (.ok 1, { world with state := world.state ++ [number + 1] }) := by
      unfold noteChunk
      rw [if_neg two]
      rfl
    rw [done]
    exact ⟨fun _ _ => List.mem_concat_self, fun _ _ _ held => List.mem_append_left _ held⟩

def Table.lapsingInbox : Table (Lapsing Memory) Value where
  client := ⟨Lapsing.engine (fun call => if call = 1 then some .conditionFailed else none)
    (Memory.engine ⟨1, 1⟩), "inbox", 1, .byClock⟩
  type := inbox.type
  schema := inbox.schema

theorem Batch.three_chunks_in_order :
    (∃ occurrences, Course 2 noteChunk (.ofChunks (.ofState []) [[1], [2], [3]]) occurrences
        ((forEachChunk .byClock [1, 2, 3] 1 2 noteChunk).run (.ofState [])) ∧
      Orderly 3 2 occurrences
        ((forEachChunk .byClock [1, 2, 3] 1 2 noteChunk).run (.ofState [])).1 ∧
      ∀ done ∈ completions occurrences, done.1 + 1 ∈
        ((forEachChunk .byClock [1, 2, 3] 1 2 noteChunk).run (.ofState [])).2.state) ∧
    ((forEachChunk .byClock [1, 2, 3] 1 1 noteChunk).run (.ofState [])) =
      (.error (.engine .batchWriteItem .unavailable), .ofState [1]) ∧
    (∃ occurrences number, Course 1 noteChunk (.ofChunks (.ofState []) [[1], [2], [3]]) occurrences
        (.error (.engine .batchWriteItem .unavailable), .ofState [1]) ∧
      starts occurrences = List.range (number + 1) ∧
      (completions occurrences).map Prod.fst = List.range number) ∧
    ∃ next, (Table.lapsingInbox.batchPut [Table.note "a" "", Table.note "b" "", Table.note "c" ""]).run
        (.ofState ⟨.empty, 0⟩) = (.error .conditionFailed, next) ∧
      next.state.writes = 2 ∧
      Store.putAll ∅ "inbox" [(Table.noteEntry "a" "").2] = .ok next.state.inner.store := by
  have chunked : chunks 1 [1, 2, 3] = [[1], [2], [3]] := by simp [chunks]
  obtain ⟨every, courses, _, puts⟩ := chunks_run_in_order noteChunk [1, 2, 3] 1 2 (.ofState [])
  obtain ⟨single, _, narrow, _⟩ := chunks_run_in_order noteChunk [1, 2, 3] 1 1 (.ofState [])
  rw [chunked] at every courses single narrow
  have stopped := (narrow Nat.le.refl).2 1 [2] [1] (.ofState [1]) _ _ rfl rfl rfl .byClock
  refine ⟨?_, stopped, ?_, ?_⟩
  · obtain ⟨occurrences, course⟩ := (every _).mp ⟨.byClock, rfl⟩
    obtain ⟨orderly, lasting⟩ := courses occurrences _ course
    refine ⟨occurrences, course, orderly, lasting (fun number _ log => number + 1 ∈ log) ?_⟩
    simp only [List.zipIdx_cons, List.zipIdx_nil, List.forall_mem_cons]
    exact ⟨noteChunk_obeys 0, noteChunk_obeys 1, noteChunk_obeys 2, List.forall_mem_nil _⟩
  · obtain ⟨occurrences, course⟩ := (single _).mp ⟨.byClock, stopped⟩
    obtain ⟨_, number, _, started, completed⟩ := (narrow Nat.le.refl).1 occurrences _ _ course
    exact ⟨occurrences, number, course, started, completed⟩
  · obtain ⟨next, ran, writes, _, put⟩ := puts Value Table.lapsingInbox _ ⟨1, 1⟩
      [Table.note "a" "", Table.note "b" "", Table.note "c" ""]
      [Table.noteEntry "a" "", Table.noteEntry "b" "", Table.noteEntry "c" ""] (.ofState ⟨.empty, 0⟩) 1
      .conditionFailed rfl Nat.le.refl rfl (by decide) (by decide) rfl
    exact ⟨next, ran, writes, put⟩

end SharedTable
