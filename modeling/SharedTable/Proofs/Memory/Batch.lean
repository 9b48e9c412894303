import SharedTable.Proofs.Batch.Dispatch
import SharedTable.Proofs.Memory.Calls
import SharedTable.Proofs.Store.Writes

set_option autoImplicit false

namespace SharedTable

namespace Batch

theorem forall₂_keyed {items : List Item}
    (own : ∀ item ∈ items, (PrimaryKey.ofItem? item).isSome = true) :
    List.Forall₂ (fun item key => PrimaryKey.ofItem? item = some key) items
        ((keyed items).map Prod.fst) ∧
      ((keyed items).map Prod.fst).zip items = keyed items := by
  induction items with
  | nil => exact ⟨.nil, rfl⟩
  | cons item rest ih =>
    rw [List.forall_mem_cons] at own
    obtain ⟨key, first⟩ := Option.isSome_iff_exists.mp own.1
    obtain ⟨later, zipped⟩ := ih own.2
    have split : keyed (item :: rest) = (key, item) :: keyed rest := by
      rw [keyed, List.filterMap_cons, first]
      rfl
    rw [split, List.map_cons, List.zip_cons_cons, zipped]
    exact ⟨.cons first later, rfl⟩

theorem insertMany_keyed_flatten (contents : Contents) (pieces : List (List Item)) :
    pieces.foldl (fun contents chunk => contents.insertMany (keyed chunk)) contents =
      contents.insertMany (keyed pieces.flatten) := by
  induction pieces generalizing contents with
  | nil => rfl
  | cons chunk rest ih =>
    rw [List.foldl_cons, ih, List.flatten_cons, keyed, keyed, keyed, List.filterMap_append,
      Std.ExtTreeMap.insertMany_append]

end Batch

namespace BatchLimits

theorem atLeastOne_read_pos (limits : BatchLimits) : 0 < limits.atLeastOne.read := by
  simp only [atLeastOne]
  omega

theorem atLeastOne_write_pos (limits : BatchLimits) : 0 < limits.atLeastOne.write := by
  simp only [atLeastOne]
  omega

end BatchLimits

namespace Memory

variable {ε : Type} (limits : BatchLimits) (table : String)

def wrote (change : Contents → Contents) (memory : Memory) : Memory :=
  ⟨memory.store.insert table (change (memory.store.contents table)), memory.calls.plus .batchWrite 1⟩

def batchWritten (batches : Nat) (contents : Contents) (memory : Memory) : Memory :=
  ⟨if batches = 0 then memory.store else memory.store.insert table contents,
    memory.calls.plus .batchWrite batches⟩

theorem foldl_wrote (change : List ε → Contents → Contents) (pieces : List (List ε)) (memory : Memory) :
    pieces.foldl (fun memory chunk => memory.wrote table (change chunk)) memory =
      memory.batchWritten table pieces.length
        (pieces.foldl (fun contents chunk => change chunk contents) (memory.store.contents table)) := by
  induction pieces generalizing memory with
  | nil => rfl
  | cons chunk rest ih =>
    rw [List.foldl_cons, ih, List.foldl_cons, wrote, batchWritten, batchWritten,
      Store.contents_insert_self, CallCounts.plus_plus, Nat.add_comm 1, List.length_cons]
    -- Of two contents that a table is given in turn only the last ones remain.
    cases rest with
    | nil => rfl
    | cons _ _ => simp [insert_insert]

theorem mapM_wrote (change : List ε → Contents → Contents) (pieces : List (List ε)) (memory : Memory) :
    ((pieces.mapM fun chunk => (modify (wrote table (change chunk)) : StateM Memory Unit)).run
      memory).2 = pieces.foldl (fun memory chunk => memory.wrote table (change chunk)) memory := by
  induction pieces generalizing memory with
  | nil => rfl
  | cons chunk rest ih =>
    rw [List.mapM_cons, List.foldl_cons, ← ih]
    rfl

theorem forEachChunk_wrote {operation : List ε → Task Memory Unit 0}
    {change : List ε → Contents → Contents} {entries : List ε} {size : Nat} (positive : 0 < size)
    (steady : ∀ chunk ∈ Batch.chunks size entries,
      Batch.Steady operation (fun chunk => modify (wrote table (change chunk))) chunk)
    (schedule : Batch.Schedule) (width : Nat) (world : World Memory) :
    ∃ (done : List (List ε)) (results : List Unit) (next : World Memory),
      done.Perm (Batch.chunks size entries) ∧
      (Batch.forEachChunk schedule entries size width operation).run world = (.ok results, next) ∧
      next.state = world.state.batchWritten table (Batch.chunkCount size entries.length)
        (done.foldl (fun contents chunk => change chunk contents)
          (world.state.store.contents table)) := by
  -- A batch amounts to its steps in some order, and each step is a change of the contents.
  obtain ⟨done, results, next, all, ran, steps⟩ :=
    Batch.forEachChunk_steady steady schedule width world
  refine ⟨done, results, next, all, ran, ?_⟩
  rw [← Batch.length_chunks positive, ← all.length_eq, ← foldl_wrote, ← mapM_wrote, steps]

theorem few_of_mem_chunks {size : Nat} (positive : 0 < size) {entries chunk : List ε}
    (member : chunk ∈ Batch.chunks size entries) : chunk.length ≤ size := by
  have few := Batch.length_le_of_mem_chunks member
  omega

theorem flatten_perm {size : Nat} {entries : List ε} {done : List (List ε)}
    (all : done.Perm (Batch.chunks size entries)) : done.flatten.Perm entries := by
  have whole := all.flatten
  rwa [Batch.chunks_flatten] at whole

def putChunk (chunk : List Item) : Task Memory Unit 0 := batchWrite limits table chunk []

def deleteChunk (chunk : List PrimaryKey) : Task Memory Unit 0 := batchWrite limits table [] chunk

def getChunk (chunk : List PrimaryKey) : Task Memory (List Item) 0 := batchGet limits table chunk

section Puts

variable {items : List Item} (own : ∀ item ∈ items, (PrimaryKey.ofItem? item).isSome = true)
  (distinct : ((Batch.keyed items).map Prod.fst).Nodup)

include own distinct

theorem batchWrite_puts {chunk : List Item}
    (member : chunk ∈ Batch.chunks limits.atLeastOne.write items) (store : Store) :
    store.batchWrite limits.atLeastOne.write table chunk [] =
      .ok (store.insert table ((store.contents table).insertMany (Batch.keyed chunk))) := by
  have inItems := Batch.sublist_of_mem_chunks member
  obtain ⟨keys, zipped⟩ := Batch.forall₂_keyed fun item inChunk => own item (inItems.subset inChunk)
  have few := few_of_mem_chunks limits.atLeastOne_write_pos member
  refine Store.batchWrite_eq_ok_iff.mpr ⟨by simpa using few, _, keys, ?_, by rw [zipped]; rfl⟩
  rw [List.append_nil, Store.repeatedKey?_eq_none_iff]
  exact ⟨distinct.sublist ((inItems.filterMap _).map Prod.fst), fun _ _ => List.not_mem_nil⟩

theorem steady_puts {chunk : List Item}
    (member : chunk ∈ Batch.chunks limits.atLeastOne.write items) :
    Batch.Steady (putChunk limits table)
      (fun chunk => modify (wrote table (·.insertMany (Batch.keyed chunk)))) chunk := by
  intro world
  have done := batchWrite_puts limits table own distinct member world.state.store
  exact ⟨_, (run_batchWrite limits world table chunk []).trans (by rw [done]), rfl⟩

/-- Items with different keys are written as if at once, in whatever order their chunks complete. -/
theorem putChunks_run (schedule : Batch.Schedule) (width : Nat) (world : World Memory) :
    ∃ (results : List Unit) (next : World Memory),
      (Batch.forEachChunk schedule items limits.atLeastOne.write width (putChunk limits table)).run
        world = (.ok results, next) ∧
      next.state = world.state.batchWritten table
        (Batch.chunkCount limits.atLeastOne.write items.length)
        ((world.state.store.contents table).insertMany (Batch.keyed items)) := by
  obtain ⟨done, results, next, all, ran, left⟩ :=
    forEachChunk_wrote table limits.atLeastOne_write_pos
      (fun chunk member => steady_puts limits table own distinct member) schedule width world
  -- Together the chunks hold every item once, in an order that plays no part as the keys differ.
  have same : (Batch.keyed done.flatten).Perm (Batch.keyed items) := (flatten_perm all).filterMap _
  refine ⟨results, next, ran, ?_⟩
  rw [left, Batch.insertMany_keyed_flatten,
    insertMany_perm same ((same.map Prod.fst).nodup_iff.mpr distinct)]

end Puts

section Keys

variable {keys : List PrimaryKey} (distinct : keys.Nodup)

include distinct

theorem batchWrite_deletes {chunk : List PrimaryKey}
    (member : chunk ∈ Batch.chunks limits.atLeastOne.write keys) (store : Store) :
    store.batchWrite limits.atLeastOne.write table [] chunk =
      .ok (store.insert table (chunk.foldl Std.ExtTreeMap.erase (store.contents table))) := by
  have few := few_of_mem_chunks limits.atLeastOne_write_pos member
  refine Store.batchWrite_eq_ok_iff.mpr ⟨by simpa using few, [], .nil, ?_, rfl⟩
  rw [List.nil_append, Store.repeatedKey?_eq_none_iff]
  exact ⟨distinct.sublist (Batch.sublist_of_mem_chunks member), fun _ _ => List.not_mem_nil⟩

theorem steady_deletes {chunk : List PrimaryKey}
    (member : chunk ∈ Batch.chunks limits.atLeastOne.write keys) :
    Batch.Steady (deleteChunk limits table)
      (fun chunk => modify (wrote table (chunk.foldl Std.ExtTreeMap.erase ·))) chunk := by
  intro world
  have done := batchWrite_deletes limits table distinct member world.state.store
  exact ⟨_, (run_batchWrite limits world table [] chunk).trans (by rw [done]), rfl⟩

theorem deleteChunks_run (schedule : Batch.Schedule) (width : Nat) (world : World Memory) :
    ∃ (results : List Unit) (next : World Memory),
      (Batch.forEachChunk schedule keys limits.atLeastOne.write width (deleteChunk limits table)).run
        world = (.ok results, next) ∧
      next.state = world.state.batchWritten table
        (Batch.chunkCount limits.atLeastOne.write keys.length)
        (keys.foldl Std.ExtTreeMap.erase (world.state.store.contents table)) := by
  obtain ⟨done, results, next, all, ran, left⟩ :=
    forEachChunk_wrote table limits.atLeastOne_write_pos
      (fun chunk member => steady_deletes limits table distinct member) schedule width world
  refine ⟨results, next, ran, ?_⟩
  rw [left, ← List.foldl_flatten, foldl_erase_congr fun key => (flatten_perm all).mem_iff]

def fetched (store : Store) (chunk : List PrimaryKey) : List Item :=
  (chunk.mergeSort fun a b => (compare a b).isLE).filterMap (store.get? table)

def fetch (chunk : List PrimaryKey) : StateM Memory (List Item) := fun memory =>
  (fetched table memory.store chunk, ⟨memory.store, memory.calls.plus .batchGet 1⟩)

omit distinct in
theorem mapM_fetch (pieces : List (List PrimaryKey)) (memory : Memory) :
    (pieces.mapM (fetch table)).run memory =
      (pieces.map (fetched table memory.store),
        ⟨memory.store, memory.calls.plus .batchGet pieces.length⟩) := by
  induction pieces generalizing memory with
  | nil => rfl
  | cons chunk rest ih =>
    have later := ih ⟨memory.store, memory.calls.plus .batchGet 1⟩
    rw [CallCounts.plus_plus, Nat.add_comm] at later
    rw [List.mapM_cons]
    change (fun following => ((fetched table memory.store chunk :: following.1 : List (List Item)),
      following.2)) ((rest.mapM (fetch table)).run ⟨memory.store, memory.calls.plus .batchGet 1⟩) = _
    rw [later]
    rfl

theorem batchGet_keys {chunk : List PrimaryKey}
    (member : chunk ∈ Batch.chunks limits.atLeastOne.read keys) (store : Store) :
    store.batchGet limits.atLeastOne.read table chunk = .ok (fetched table store chunk) :=
  Store.batchGet_of_nodup store table (few_of_mem_chunks limits.atLeastOne_read_pos member)
    (distinct.sublist (Batch.sublist_of_mem_chunks member))

theorem steady_gets {chunk : List PrimaryKey}
    (member : chunk ∈ Batch.chunks limits.atLeastOne.read keys) :
    Batch.Steady (getChunk limits table) (fetch table) chunk := by
  intro world
  have done := batchGet_keys limits table distinct member world.state.store
  exact ⟨_, (run_batchGet limits world table chunk).trans (by rw [done]; rfl), rfl⟩

theorem getChunks_run (schedule : Batch.Schedule) (width : Nat) (world : World Memory) :
    ∃ (results : List (List Item)) (next : World Memory),
      (Batch.forEachChunk schedule keys limits.atLeastOne.read width (getChunk limits table)).run
        world = (.ok results, next) ∧
      results.flatten.Perm (keys.filterMap (world.state.store.get? table)) ∧
      next.state = ⟨world.state.store, world.state.calls.plus .batchGet
        (Batch.chunkCount limits.atLeastOne.read keys.length)⟩ := by
  obtain ⟨done, results, next, all, ran, steps⟩ := Batch.forEachChunk_steady
    (fun chunk member => steady_gets limits table distinct member) schedule width world
  rw [mapM_fetch, all.length_eq, Batch.length_chunks limits.atLeastOne_read_pos, Prod.mk.injEq] at steps
  obtain ⟨answers, left⟩ := steps
  refine ⟨results, next, ran, ?_, left.symm⟩
  have sorted : (done.flatMap (fetched table world.state.store)).Perm
      (done.flatMap (List.filterMap (world.state.store.get? table))) :=
    List.Perm.flatMap_left _ fun chunk _ => (List.mergeSort_perm _ _).filterMap _
  rw [← answers, ← List.flatMap_def]
  refine sorted.trans ?_
  rw [List.flatMap_def, ← List.filterMap_flatten]
  exact (flatten_perm all).filterMap _

end Keys

end Memory

end SharedTable
