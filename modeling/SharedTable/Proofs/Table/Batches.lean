import SharedTable.Proofs.Memory.Reached
import SharedTable.Proofs.Table.Ledger
import SharedTable.Proofs.Table.Reads

set_option autoImplicit false

namespace SharedTable

theorem Memory.batchWritten_store {batches : Nat} {table : String} {contents : Contents}
    {memory : Memory} {entries : Nat} (same : batches = 0 ↔ entries = 0) :
    (memory.batchWritten table batches contents).store =
      if entries = 0 then memory.store else memory.store.insert table contents := by
  simp only [batchWritten, same]

namespace Table

variable {α : Type} {limits : BatchLimits} {table : Table Memory α}

section Writes

variable (served : table.engine = Memory.engine limits) (world : World Memory)

include served

theorem after_puts {records : List α} {entries : List (PrimaryKey × Item)}
    (encoded : List.Forall₂ (fun record entry => table.encode record = .ok entry) records entries) :
    (RecordWrite.after table world (records.map .put)).state.store =
      if entries.length = 0 then world.state.store
      else world.state.store.insert table.name
        ((world.state.store.contents table.name).insertMany entries) := by
  induction encoded generalizing world with
  | nil => rfl
  | @cons record entry records entries first _ ih =>
    have put := put_run served world first
    have later := ih ((table.put record).run world).2
    rw [put, World.stored_store, Store.contents_insert_self] at later
    change (RecordWrite.after table ((table.put record).run world).2 (records.map .put)).state.store = _
    rw [put, later, Std.ExtTreeMap.insertMany_cons]
    cases entries with
    | nil => rfl
    | cons _ _ => simp [insert_insert]

theorem after_deletes {values : List Value} {keys : List PrimaryKey}
    (composed : List.Forall₂ (fun value key => table.primaryKey value = .ok key) values keys) :
    (RecordWrite.after table world (values.map .delete)).state.store =
      if table.name ∈ world.state.store then
        world.state.store.insert table.name
          (keys.foldl Std.ExtTreeMap.erase (world.state.store.contents table.name))
      else world.state.store := by
  induction composed generalizing world with
  | nil =>
    change world.state.store = _
    split
    next written => exact (Store.insert_contents written).symm
    next => rfl
  | @cons value key values keys first _ ih =>
    have deleted := delete_run served world first
    have later := ih ((table.delete value).run world).2
    rw [deleted, World.stored_store] at later
    change (RecordWrite.after table ((table.delete value).run world).2
      (values.map .delete)).state.store = _
    rw [deleted, later]
    by_cases written : table.name ∈ world.state.store
    · simp [Store.delete_of_mem written, Store.contents_insert_self, insert_insert, written]
    · simp [Store.delete_of_not_mem written, written]

/--
A batch succeeds over records that can be encoded, or keys that can be composed, and none of its chunks
is refused. It leaves the tables that single writes in the order of the list leave, but for one thing: a
batch of deletes brings a table that was never written into being, and single deletes do not. A batch
with a record or a key that fails calls nothing.
-/
theorem batch_writes_as_single_writes :
    (∀ records entries,
      List.Forall₂ (fun record entry => table.encode record = .ok entry) records entries →
      ∃ next, (table.batchPut records).run world = (.ok (), next) ∧
        next.state.store = (RecordWrite.after table world (records.map .put)).state.store ∧
        next.state.calls = world.state.calls.plus .batchWrite
          (Batch.chunkCount limits.atLeastOne.write (entries.map Prod.fst).toFinset.card) ∧
        ∀ chunk ∈ Batch.chunks limits.atLeastOne.write (Batch.latestItems entries), ∀ store : Store,
          ∃ left, store.batchWrite limits.atLeastOne.write table.name chunk [] = .ok left) ∧
    (∀ records : List α, (∃ record ∈ records, ∃ fault, table.encode record = .error fault) →
      ∃ fault, (table.batchPut records).run world = (.error fault, world)) ∧
    (∀ values keys,
      List.Forall₂ (fun value key => table.primaryKey value = .ok key) values keys →
      ∃ next, (table.batchDelete values).run world = (.ok (), next) ∧
        next.state.store =
          (let single := (RecordWrite.after table world (values.map .delete)).state.store
          if table.name ∈ world.state.store ∨ keys = [] then single
          else single.insert table.name ∅) ∧
        next.state.calls = world.state.calls.plus .batchWrite
          (Batch.chunkCount limits.atLeastOne.write keys.toFinset.card) ∧
        ∀ chunk ∈ Batch.chunks limits.atLeastOne.write keys.eraseDups, ∀ store : Store,
          ∃ left, store.batchWrite limits.atLeastOne.write table.name [] chunk = .ok left) ∧
    ∀ values : List Value, (∃ value ∈ values, ∃ fault, table.primaryKey value = .error fault) →
      ∃ fault, (table.batchDelete values).run world = (.error fault, world) := by
  refine ⟨?puts, ?unencoded, ?deletes, ?uncomposed⟩
  case puts =>
    intro records entries encoded
    have whole := mapM_eq_ok_iff.mpr encoded
    have own := own_of_encoded whole
    obtain ⟨next, ran, left⟩ := batchPut_run served world whole
    refine ⟨next, ran, ?_, ?_, ?_⟩
    · rw [left, after_puts served world encoded]
      apply Memory.batchWritten_store
      rw [Batch.chunkCount_card_eq_zero_iff limits.atLeastOne_write_pos, List.map_eq_nil_iff,
        List.length_eq_zero_iff]
    · rw [left]
      rfl
    · exact fun chunk member store => ⟨_, Memory.batchWrite_puts limits table.name
        (fun item => Batch.isSome_of_mem_latestItems own) (Batch.keyed_latestItems_nodup own)
        member store⟩
  case unencoded =>
    intro records failing
    obtain ⟨fault, failed⟩ := mapM_error_of_mem failing
    exact ⟨fault, batchPut_run_unencoded world failed⟩
  case deletes =>
    intro values keys composed
    obtain ⟨next, ran, left⟩ := batchDelete_run served world (mapM_eq_ok_iff.mpr composed)
    refine ⟨next, ran, ?_, ?_, ?_⟩
    · have written := @Memory.batchWritten_store _ table.name
        (keys.foldl Std.ExtTreeMap.erase (world.state.store.contents table.name)) world.state keys.length
        ((Batch.chunkCount_card_eq_zero_iff limits.atLeastOne_write_pos keys).trans
          List.length_eq_zero_iff.symm)
      rw [left, written, after_deletes served world composed]
      by_cases none : keys = []
      · subst none
        cases composed
        simp only [List.length_nil, if_true, or_true, List.foldl_nil]
        split
        next stored => exact (Store.insert_contents stored).symm
        next => rfl
      · by_cases stored : table.name ∈ world.state.store
        · simp [none, stored]
        · simp [none, stored, Store.contents_of_not_mem stored, foldl_erase_empty]
    · rw [left]
      rfl
    · exact fun chunk member store =>
        ⟨_, Memory.batchWrite_deletes limits table.name (Batch.distinctKeys_nodup keys) member store⟩
  case uncomposed =>
    intro values failing
    obtain ⟨fault, failed⟩ := mapM_error_of_mem failing
    exact ⟨fault, batchDelete_run_uncomposed world failed⟩

end Writes

def inbox : Table Memory Value where
  client := ⟨Memory.engine ⟨1, 1⟩, "inbox", 2, .byClock⟩
  type := .untyped ["id", "text"]
  schema := ⟨"Note", ⟨["id"], []⟩, fun _ => none⟩

def note (id text : String) : Value := .object [("id", .string id), ("text", .string text)]

def noteKey (id : String) : PrimaryKey := ⟨"Note#id#" ++ id, "Note"⟩

def noteFields (id text : String) : Fields :=
  .ofList [("id", Value.string id), ("text", .string text)]

def noteEntry (id text : String) : PrimaryKey × Item :=
  (noteKey id, Item.encode inbox.schema (noteFields id text))

theorem inbox_batch_writes :
    (∃ next, (inbox.batchPut [note "a" "first", note "b" "only", note "a" "last"]).run
        (.ofState .empty) = (.ok (), next) ∧
      next.state.store = (RecordWrite.after inbox (.ofState .empty)
        [.put (note "a" "first"), .put (note "b" "only"), .put (note "a" "last")]).state.store ∧
      next.state.calls = CallCounts.zero.plus .batchWrite 2) ∧
    ∃ next, (inbox.batchDelete [note "a" "", note "a" "other"]).run (.ofState .empty) = (.ok (), next) ∧
      next.state.store = (RecordWrite.after inbox (.ofState .empty)
        [.delete (note "a" ""), .delete (note "a" "other")]).state.store.insert "inbox" ∅ ∧
      next.state.calls = CallCounts.zero.plus .batchWrite 1 := by
  obtain ⟨puts, _, deletes, _⟩ :=
    batch_writes_as_single_writes (show inbox.engine = Memory.engine ⟨1, 1⟩ from rfl) (.ofState .empty)
  constructor
  · obtain ⟨next, ran, left, calls, _⟩ := puts [note "a" "first", note "b" "only", note "a" "last"]
      [noteEntry "a" "first", noteEntry "b" "only", noteEntry "a" "last"]
      (.cons rfl (.cons rfl (.cons rfl .nil)))
    exact ⟨next, ran, left, calls.trans (by decide)⟩
  · obtain ⟨next, ran, left, calls, _⟩ := deletes [note "a" "", note "a" "other"]
      [noteKey "a", noteKey "a"] (.cons rfl (.cons rfl .nil))
    exact ⟨next, ran, left.trans (if_neg (by decide)), calls.trans (by decide)⟩

theorem batchDelete_creates_table :
    ((inbox.batchDelete [note "a" ""]).run (.ofState .empty)).2.state.store ≠
      (RecordWrite.after inbox (.ofState .empty) [.delete (note "a" "")]).state.store := by
  obtain ⟨next, ran, left⟩ := batchDelete_run (show inbox.engine = Memory.engine ⟨1, 1⟩ from rfl)
    (.ofState .empty) (show [note "a" ""].mapM inbox.primaryKey = .ok [noteKey "a"] from rfl)
  rw [ran, left]
  intro same
  exact absurd (congrArg (Std.ExtTreeMap.contains · "inbox") same) (by decide)

/--
A batch of gets answers as the gets of its distinct keys do, each key at its first place and absent
records left out. No chunk of it is refused.
-/
theorem batchGet_as_gets (served : table.engine = Memory.engine limits) {world : World Memory}
    (reached : world.state.store.Reached limits) (values : List Value) :
    (∀ keys, values.mapM table.primaryKey = .ok keys →
      ∃ (firsts : List Value) (next : World Memory), firsts.Sublist values ∧
        firsts.mapM table.primaryKey = .ok keys.eraseDups ∧
        (table.batchGet values).run world =
          (((firsts.mapM table.get).run world).1.map List.reduceOption, next) ∧
        next.state = ⟨world.state.store, world.state.calls.plus .batchGet
          (Batch.chunkCount limits.atLeastOne.read keys.toFinset.card)⟩ ∧
        ∀ chunk ∈ Batch.chunks limits.atLeastOne.read keys.eraseDups, ∀ store : Store,
          ∃ items, store.batchGet limits.atLeastOne.read table.name chunk = .ok items) ∧
    ∀ fault, values.mapM table.primaryKey = .error fault →
      (table.batchGet values).run world = (.error fault, world) := by
  refine ⟨?_, fun fault failed => batchGet_run_uncomposed world failed⟩
  intro keys composed
  obtain ⟨firsts, within, firstKeys⟩ :=
    exists_sublist_forall₂ (mapM_eq_ok_iff.mp composed) (Batch.eraseDups_sublist keys)
  obtain ⟨next, ran, left⟩ := batchGet_run served world (reached.keyed.contents table.name) composed
  refine ⟨firsts, next, within, mapM_eq_ok_iff.mpr firstKeys, ?_, left, ?_⟩
  · rw [ran, mapM_get_run served world firstKeys, mapM_reduceOption]
  · exact fun chunk member store =>
      ⟨_, Memory.batchGet_keys limits table.name (Batch.distinctKeys_nodup keys) member store⟩

def inboxWritten : World Memory :=
  Write.after (Memory.engine ⟨1, 1⟩) (.ofState .empty)
    [.put "inbox" (noteEntry "a" "first").2 .always, .delete "inbox" (noteKey "b")]

theorem decode_noteEntry : inbox.decode (noteEntry "a" "first").2 = .ok (note "a" "first") := by
  have unreserved : Item.Unreserved (noteFields "a" "first") := by
    unfold Item.Unreserved
    decide
  rw [noteEntry, decode, Item.decode, Item.strip_encode, Item.strip_of_unreserved unreserved]
  rfl

theorem inbox_batchGet :
    ∃ (firsts : List Value) (next : World Memory),
      firsts.mapM inbox.primaryKey = .ok [noteKey "b", noteKey "a"] ∧
      (inbox.batchGet [note "b" "", note "a" "", note "b" "again"]).run inboxWritten =
        (.ok [note "a" "first"], next) ∧
      ((firsts.mapM inbox.get).run inboxWritten).1.map List.reduceOption = .ok [note "a" "first"] ∧
      next.state = ⟨inboxWritten.state.store, inboxWritten.state.calls.plus .batchGet 2⟩ := by
  obtain ⟨answered, _⟩ := batchGet_as_gets (show inbox.engine = Memory.engine ⟨1, 1⟩ from rfl)
    (show inboxWritten.state.store.Reached ⟨1, 1⟩ from ⟨_, rfl⟩)
    [note "b" "", note "a" "", note "b" "again"]
  obtain ⟨firsts, next, _, composed, ran, left, _⟩ :=
    answered [noteKey "b", noteKey "a", noteKey "b"] rfl
  have distinct : [noteKey "b", noteKey "a", noteKey "b"].eraseDups = [noteKey "b", noteKey "a"] := by
    decide
  rw [distinct] at composed
  have found : ((firsts.mapM inbox.get).run inboxWritten).1.map List.reduceOption =
      .ok [note "a" "first"] := by
    have missing : (inboxWritten.state.store.contents inbox.name)[noteKey "b"]? = none := rfl
    have stored : (inboxWritten.state.store.contents inbox.name)[noteKey "a"]? =
      some (noteEntry "a" "first").2 := rfl
    rw [mapM_get_run rfl inboxWritten (mapM_eq_ok_iff.mp composed), List.mapM_cons, List.mapM_cons,
      missing, stored, Option.mapM_some, decode_noteEntry]
    rfl
  exact ⟨firsts, next, composed, ran.trans (congrArg (·, next) found), found, left⟩

end Table

end SharedTable
