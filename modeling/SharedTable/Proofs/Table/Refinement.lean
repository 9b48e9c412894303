import SharedTable.Proofs.Table.Index

set_option autoImplicit false

namespace SharedTable

variable {σ α : Type}

namespace RecordCall

def answer (table : Table σ α) (ledger : Ledger α) : RecordCall α → Except Fault (RecordAnswer α)
  | .get key => do
    let key ← table.primaryKey key
    return .found ledger[key]?
  | .batchGet keys => do
    let keys ← keys.mapM table.primaryKey
    return .batch (keys.eraseDups.filterMap fun key => ledger[key]?)
  | .write (.put record) => do
    let _ ← table.recordKey record
    return .stored record
  | .write (.putIfAbsent record) => do
    let key ← table.recordKey record
    return .created (key ∉ ledger)
  | .write (.delete key) => do
    let _ ← table.primaryKey key
    return .done
  | .write (.batchPut records) => do
    let _ ← records.mapM table.recordKey
    return .done
  | .write (.batchDelete keys) => do
    let _ ← keys.mapM table.primaryKey
    return .done

end RecordCall

namespace Mirrors

variable {table : Table σ α} {fits : α → Prop} {ledger : Ledger α} {contents : Contents}

theorem getElem?_decode (mirrors : Mirrors table fits ledger contents)
    (reads : ∀ record key item, fits record → table.encode record = .ok (key, item) →
      table.decode item = .ok record) (key : PrimaryKey) :
    contents[key]?.mapM table.decode = .ok ledger[key]? := by
  have related := mirrors key
  generalize ledger[key]? = held at related ⊢
  generalize contents[key]? = stored at related ⊢
  cases related with
  | none => rfl
  | some related =>
    have read (item : Item) : (some item).mapM table.decode = some <$> table.decode item := rfl
    rw [read, reads _ _ _ related.1 related.2]
    rfl

theorem answer_eq (mirrors : Mirrors table fits ledger contents)
    (reads : ∀ record key item, fits record → table.encode record = .ok (key, item) →
      table.decode item = .ok record) (call : RecordCall α) :
    (call.outcome table contents).map Effect.answer = call.answer table ledger := by
  have decoded := mirrors.getElem?_decode reads
  cases call with
  | get key =>
    rw [RecordCall.outcome, RecordCall.answer]
    cases table.primaryKey key with
    | error fault => rfl
    | ok key =>
      simp only [bind, Except.bind, decoded]
      rfl
  | batchGet keys =>
    rw [RecordCall.outcome, RecordCall.answer]
    cases keys.mapM table.primaryKey with
    | error fault => rfl
    | ok keys =>
      have found : (keys.eraseDups.filterMap fun key => contents[key]?).mapM table.decode =
          .ok (keys.eraseDups.filterMap fun key => ledger[key]?) := by
        have each : keys.eraseDups.mapM (fun key => contents[key]?.mapM table.decode) =
            .ok (keys.eraseDups.map fun key => ledger[key]?) :=
          mapM_eq_ok_iff.mpr (List.forall₂_map_right_iff.mpr
            (List.forall₂_same.mpr fun key _ => decoded key))
        rw [← mapM_reduceOption, each, Except.map, List.reduceOption, List.filterMap_map]
        rfl
      simp only [bind, Except.bind, found]
      rfl
  | write update =>
    rw [RecordCall.outcome]
    cases update with
    | put record =>
      rw [RecordWrite.outcome, RecordCall.answer, Table.recordKey_eq]
      cases table.encode record <;> rfl
    | putIfAbsent record =>
      rw [RecordWrite.outcome, RecordCall.answer, Table.recordKey_eq]
      cases table.encode record with
      | error fault => rfl
      | ok entry =>
        by_cases taken : entry.1 ∈ contents
        · have held := (mirrors.mem_iff entry.1).mpr taken
          simp [bind, Except.bind, Except.map, pure, Except.pure, held, taken]
        · have unheld := mt (mirrors.mem_iff entry.1).mp taken
          simp [bind, Except.bind, Except.map, pure, Except.pure, unheld, taken]
    | delete key =>
      rw [RecordWrite.outcome, RecordCall.answer]
      cases table.primaryKey key <;> rfl
    | batchPut records =>
      rw [RecordWrite.outcome, RecordCall.answer, Table.mapM_recordKey]
      cases records.mapM table.encode <;> rfl
    | batchDelete keys =>
      rw [RecordWrite.outcome, RecordCall.answer]
      cases keys.mapM table.primaryKey <;> rfl

end Mirrors

namespace Table

theorem decode_of_encode {table : Table σ α} (trips : table.type.RoundTrips) {record : α}
    {key : PrimaryKey} {item : Item} (unreserved : table.Unreserved record)
    (encoded : table.encode record = .ok (key, item)) : table.decode item = .ok record := by
  obtain ⟨fields, shown, _, rfl⟩ := encode_eq_ok_iff.mp encoded
  exact Item.decode_encode trips shown (unreserved fields shown) table.schema table.schema

/--
A table holds the records of a ledger and answers as the ledger does. No call changes what is stored under
other keys than its own, and a refused record changes nothing.
-/
structure Refines (table : Table Memory α) (world : World Memory) (ledger : Ledger α) : Prop where
  mirrors : Mirrors table table.Unreserved ledger (world.state.store.contents table.name)
  answers : ∀ call : RecordCall α, ((call.act table).run world).1 = call.answer table ledger
  others : ∀ (call : RecordCall α) key,
    (∀ update keys, call = .write update → update.keys table = .ok keys → key ∉ keys) →
      (call.perform table world).state.store.get? table.name key =
        world.state.store.get? table.name key
  refused : ∀ record, ((table.putIfAbsent record).run world).1 = .ok false →
    ((table.putIfAbsent record).run world).2.state.store = world.state.store

end Table

section Served

variable {limits : BatchLimits} {table : Table Memory α} (served : table.engine = Memory.engine limits)
  {world : World Memory} {ledger : Ledger α}

include served

namespace Table

theorem refines_of_mirrors (trips : table.type.RoundTrips)
    (mirrors : Mirrors table table.Unreserved ledger (world.state.store.contents table.name)) :
    table.Refines world ledger where
  mirrors := mirrors
  answers call := by
    obtain ⟨next, ran, _⟩ := call.describes served world mirrors.keyed
    rw [ran]
    exact mirrors.answer_eq (fun _ _ _ => decode_of_encode trips) call
  others call key apart := by
    obtain ⟨next, ran, edited⟩ := call.describes served world mirrors.keyed
    rw [Store.get?, Store.get?, RecordCall.perform, ran, edited.contents]
    apply Contents.getElem?_edited_of_not_mem
    intro named
    obtain ⟨edit, member, rfl⟩ := List.mem_map.mp named
    obtain ⟨write, rfl, edits⟩ := RecordCall.write_of_mem_edits member
    obtain ⟨⟨keys, composed, inKeys⟩, _⟩ := RecordWrite.mem_edits edits
    exact apart write keys rfl composed inKeys
  refused record answered := by
    cases encoded : table.encode record with
    | error fault =>
      rw [putIfAbsent_run_unencoded world encoded] at answered
      cases answered
    | ok entry =>
      by_cases taken : entry.1 ∈ world.state.store.contents table.name
      · rw [putIfAbsent_run_taken served world encoded taken]
        rfl
      · rw [putIfAbsent_run_free served world encoded taken] at answered
        cases answered

/--
Over memory that holds none of its records yet, a table refines the map from keys to records: whatever
calls have been made, it answers every further call as the ledger of their writes does.
-/
theorem refines_ledger (trips : table.type.RoundTrips)
    (empty : world.state.store.contents table.name = ∅) (calls : List (RecordCall α))
    (fit : ∀ call ∈ calls, ∀ record ∈ call.records, table.Unreserved record) :
    table.Refines (RecordCall.after table world calls) (RecordCall.ledger table calls) :=
  refines_of_mirrors served trips (RecordCall.after_mirrors served empty calls fit)

end Table

end Served

namespace Table

open Query

def ticketCalls : List (RecordCall Fields) :=
  .get (.ofFields (ticket "t1" "ana" "open")) :: ticketWrites.map .write

theorem tickets_refine_ledger :
    tickets.Refines (RecordCall.after tickets (.ofState .empty) ticketCalls)
      (RecordCall.ledger tickets ticketCalls) := by
  refine refines_ledger rfl tickets_roundTrips rfl ticketCalls ?_
  intro call inCalls record inCall fields shown
  rcases List.mem_cons.mp inCalls with rfl | inWrites
  · cases inCall
  · obtain ⟨write, member, rfl⟩ := List.mem_map.mp inWrites
    exact (ticketWrites_fit write member record inCall fields shown).unreserved

end Table

end SharedTable
