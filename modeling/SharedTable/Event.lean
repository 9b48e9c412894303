import SharedTable.Condition.Key
import SharedTable.Fault

set_option autoImplicit false

namespace SharedTable

inductive Level where
  | trace
  | debug
  | warn
  deriving DecidableEq, Repr

def Level.name : Level → String
  | .trace => "TRACE"
  | .debug => "DEBUG"
  | .warn => "WARN"

inductive BatchUnit where
  | keys
  | entries
  deriving DecidableEq, Repr

def BatchUnit.name : BatchUnit → String
  | .keys => "keys"
  | .entries => "entries"

inductive Event where
  | declared (table typeName : String) (indexes : Nat)
  | get (table typeName : String) (key : PrimaryKey)
  | put (table typeName : String) (key : PrimaryKey)
  | created (table : String) (key : PrimaryKey)
  | keyTaken (table : String) (key : PrimaryKey)
  | delete (table : String) (key : PrimaryKey)
  | batchGet (table typeName : String) (requested found : Nat)
  | batchPut (table typeName : String) (items chunks : Nat)
  | batchDelete (table typeName : String) (keys chunks : Nat)
  | queryPage (table : String) (condition : KeyCondition) (items : Nat) (more : Bool)
  | queryAll (table : String) (condition : KeyCondition) (items pages : Nat)
  | queryCount (table : String) (condition : KeyCondition) (total : Nat)
  | sendingQuery (table : String) (slot : Option IndexSlot) (condition : KeyCondition)
  | sendingCount (table : String) (slot : Option IndexSlot) (condition : KeyCondition)
  | resubmitting (what : BatchUnit) (table : String) (attempt remaining : Nat)
  | throughputExceeded (operation : Operation)
  deriving DecidableEq, Repr

namespace Event

def level : Event → Level
  | .get .. | .batchGet .. | .queryPage .. | .queryAll .. | .queryCount .. | .sendingQuery ..
  | .sendingCount .. => .trace
  | .resubmitting .. | .throughputExceeded .. => .warn
  | _ => .debug

def message : Event → String
  | .declared .. => "Declared table schema"
  | .get .. => "Get"
  | .put .. => "Put"
  | .created .. => "Put if not exists: created"
  | .keyTaken .. => "Put if not exists: key taken"
  | .delete .. => "Delete"
  | .batchGet .. => "Batch get"
  | .batchPut .. => "Batch put"
  | .batchDelete .. => "Batch delete"
  | .queryPage .. => "Query page"
  | .queryAll .. => "Query all"
  | .queryCount .. => "Query count"
  | .sendingQuery .. => "Query"
  | .sendingCount .. => "Count"
  | .resubmitting what .. => "Resubmitting unprocessed " ++ what.name
  | .throughputExceeded _ => "DynamoDB throughput exceeded"

def tableField (table : String) : String × Value := ("table", .string table)

def typeField (typeName : String) : String × Value := ("type_name", .string typeName)

def conditionField (condition : KeyCondition) : String × Value :=
  ("condition", .string condition.shown)

def keyFields (key : PrimaryKey) : List (String × Value) :=
  [("partition_key", .string key.partition), ("sort_key", .string key.sort)]

def shownSlot : Option IndexSlot → String
  | none => "None"
  | some slot => "Some(G" ++ (slot.name.drop 1).toString ++ ")"

def fields : Event → List (String × Value)
  | .declared table typeName indexes =>
    [tableField table, typeField typeName, ("indexes", .ofNat indexes)]
  | .get table typeName key | .put table typeName key =>
    [tableField table, typeField typeName] ++ keyFields key
  | .created table key | .keyTaken table key | .delete table key => tableField table :: keyFields key
  | .batchGet table typeName requested found =>
    [tableField table, typeField typeName, ("requested", .ofNat requested), ("found", .ofNat found)]
  | .batchPut table typeName items chunks =>
    [tableField table, typeField typeName, ("items", .ofNat items), ("chunks", .ofNat chunks)]
  | .batchDelete table typeName keys chunks =>
    [tableField table, typeField typeName, ("keys", .ofNat keys), ("chunks", .ofNat chunks)]
  | .queryPage table condition items more =>
    [tableField table, conditionField condition, ("items", .ofNat items), ("more", .bool more)]
  | .queryAll table condition items pages =>
    [tableField table, conditionField condition, ("items", .ofNat items), ("pages", .ofNat pages)]
  | .queryCount table condition total =>
    [tableField table, conditionField condition, ("total", .ofNat total)]
  | .sendingQuery table slot condition | .sendingCount table slot condition =>
    [tableField table, ("index", .string (shownSlot slot)), conditionField condition]
  | .resubmitting _ table attempt remaining =>
    [tableField table, ("attempt", .ofNat attempt), ("remaining", .ofNat remaining)]
  | .throughputExceeded operation => [("operation", .string operation.name)]

end Event

end SharedTable
