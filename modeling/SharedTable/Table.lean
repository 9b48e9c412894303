import SharedTable.Batch.Dispatch
import SharedTable.Engine
import SharedTable.Settings

/-!
Tables: the records of one type on an engine. Keys may be any values with the key fields, records
included; all keys of a batch are composed before the engine is called.
-/

set_option autoImplicit false

namespace SharedTable

structure Client (σ : Type) where
  engine : Engine σ
  tableName : String
  batchConcurrency : Nat
  schedule : Batch.Schedule

namespace Client

variable {σ : Type}

def ofSettings (engine : Engine σ) (settings : Settings) : Client σ where
  engine := engine
  tableName := settings.tableName
  batchConcurrency := max settings.batchConcurrency 1
  schedule := Batch.Schedule.byClock

-- The client as messages show it; what it holds beside its settings is left out.
def shown (client : Client σ) : String :=
  "Client \x7b table_name: " ++ Text.quoted client.tableName ++ ", batch_concurrency: " ++
    toString client.batchConcurrency ++ ", .. \x7d"

end Client

structure Table (σ α : Type) where
  client : Client σ
  type : RecordType α
  schema : Schema

namespace Table

variable {σ α : Type}

def declaration (table : Table σ α) : Event :=
  .declared table.client.tableName table.schema.typeName table.schema.indexes.length

def engine (table : Table σ α) : Engine σ := table.client.engine

def name (table : Table σ α) : String := table.client.tableName

def typeName (table : Table σ α) : String := table.schema.typeName

def index (table : Table σ α) (name : String) : Except Fault Index :=
  match table.schema.index? name with
  | some index => return index
  | none => throw (.unknownIndex name)

def primaryKey (table : Table σ α) (key : Value) : Except Fault PrimaryKey := do
  return table.schema.primaryKey (← key.fields)

def encode (table : Table σ α) (record : α) : Except Fault (PrimaryKey × Item) := do
  let fields ← (table.type.toValue record).fields
  return (table.schema.primaryKey fields, Item.encode table.schema fields)

def decode (table : Table σ α) (item : Item) : Except Fault α :=
  Item.decode table.type table.schema item

def get (table : Table σ α) (key : Value) : Action σ (Option α) := do
  let key ← Action.ofExcept (table.primaryKey key)
  Action.report (.get table.name table.typeName key)
  match ← table.engine.get table.name key with
  | some item => return some (← Action.ofExcept (table.decode item))
  | none => return none

def put (table : Table σ α) (record : α) : Action σ α := do
  let (key, item) ← Action.ofExcept (table.encode record)
  Action.report (.put table.name table.typeName key)
  table.engine.put table.name item .always
  return record

def putIfAbsent (table : Table σ α) (record : α) : Action σ Bool := do
  let (key, item) ← Action.ofExcept (table.encode record)
  try
    table.engine.put table.name item .ifAbsent
    Action.report (.created table.name key)
    return true
  catch
    | .conditionFailed =>
      Action.report (.keyTaken table.name key)
      return false
    | fault => throw fault

def delete (table : Table σ α) (key : Value) : Action σ Unit := do
  let key ← Action.ofExcept (table.primaryKey key)
  Action.report (.delete table.name key)
  table.engine.delete table.name key

def forEachChunk {ε β : Type} (table : Table σ α) (entries : List ε) (limit : Nat)
    (operation : List ε → Task σ β table.engine.pauses) : Action σ (List β) :=
  Batch.forEachChunk table.client.schedule entries limit table.client.batchConcurrency operation

def batchGet (table : Table σ α) (keys : List Value) : Action σ (List α) := do
  let composed ← Action.ofExcept (keys.mapM table.primaryKey)
  let keys := Batch.distinctKeys composed
  if keys.isEmpty then return []
  let pages ← table.forEachChunk keys table.engine.readLimit (table.engine.batchGet table.name)
  let found : Contents := .ofList <| pages.flatten.filterMap fun item =>
    (PrimaryKey.ofItem? item).map fun key => (key, item)
  Action.report (.batchGet table.name table.typeName keys.length found.size)
  Action.ofExcept ((keys.filterMap fun key => found[key]?).mapM table.decode)

def batchPut (table : Table σ α) (records : List α) : Action σ Unit := do
  let entries ← Action.ofExcept (records.mapM table.encode)
  let items := Batch.latestItems entries
  if items.isEmpty then return ()
  let limit := table.engine.writeLimit
  Action.report
    (.batchPut table.name table.typeName items.length (Batch.chunkCount limit items.length))
  let _ ← table.forEachChunk items limit fun chunk => table.engine.batchWrite table.name chunk []

def batchDelete (table : Table σ α) (keys : List Value) : Action σ Unit := do
  let composed ← Action.ofExcept (keys.mapM table.primaryKey)
  let keys := Batch.distinctKeys composed
  if keys.isEmpty then return ()
  let limit := table.engine.writeLimit
  Action.report
    (.batchDelete table.name table.typeName keys.length (Batch.chunkCount limit keys.length))
  let _ ← table.forEachChunk keys limit fun chunk => table.engine.batchWrite table.name [] chunk

end Table

end SharedTable
