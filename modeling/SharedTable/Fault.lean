import SharedTable.Record.Basic
import SharedTable.Text.Base64
import SharedTable.Value.Reader
import SharedTable.Key.Basic

set_option autoImplicit false

namespace SharedTable

inductive Operation where
  | query
  | getItem
  | putItem
  | deleteItem
  | batchGetItem
  | batchWriteItem
  deriving DecidableEq, Repr

def Operation.name : Operation → String
  | .query => "Query"
  | .getItem => "GetItem"
  | .putItem => "PutItem"
  | .deleteItem => "DeleteItem"
  | .batchGetItem => "BatchGetItem"
  | .batchWriteItem => "BatchWriteItem"

inductive FilterFault where
  | noSortFields (typeName : String)
  | undeclared (field : String)
  | repeated (field : String)
  | gap (field last : String)
  | misplacedOperator (field : String)
  | operatorInBound
  | boundSkips (field before : String)
  | boundEmpty (first : String)
  | zeroLimit
  deriving DecidableEq, Repr

def FilterFault.message : FilterFault → String
  | .noSortFields typeName => typeName ++ " declares no sort key fields"
  | .undeclared field => "'" ++ field ++ "' is not a sort key field"
  | .repeated field => "sort key field '" ++ field ++ "' given more than once"
  | .gap field last => "sort key field '" ++ field ++ "' must be given before '" ++ last ++ "'"
  | .misplacedOperator field =>
    "operator on '" ++ field ++ "' must be on the last sort key field given"
  | .operatorInBound => "between bounds take plain values, not operators"
  | .boundSkips field before => "between bound skips '" ++ field ++ "' before '" ++ before ++ "'"
  | .boundEmpty first => "between bound must give '" ++ first ++ "'"
  | .zeroLimit => "limit must be at least 1"

inductive CursorFault where
  | symbols (fault : Base64.Fault)
  | text (fault : TextFault)
  | missing (attr : String)
  deriving DecidableEq, Repr

def CursorFault.message : CursorFault → String
  | .symbols fault => fault.message
  | .text fault => fault.message
  | .missing attr => "start key is missing '" ++ attr ++ "'"

inductive DataFault where
  | record (typeName : String) (fault : RecordFault)
  | keyless
  | number (text : String)
  | unsupportedAttribute (shown : String)
  | keyAttribute (name shown : String)

def DataFault.message : DataFault → String
  | .record typeName fault => typeName ++ ": " ++ fault.message
  | .keyless => "item is missing '" ++ partitionAttr ++ "' or '" ++ sortAttr ++ "'"
  | .number text => "Invalid number: " ++ text
  | .unsupportedAttribute shown => "Unsupported attribute value: " ++ shown
  | .keyAttribute name shown => "Key attribute '" ++ name ++ "' is not a string: " ++ shown

inductive EngineFault where
  | tooManyKeys (count limit : Nat)
  | tooManyEntries (count limit : Nat)
  | duplicateKey (key : PrimaryKey)
  | unprocessedKeys (remaining attempts : Nat)
  | unprocessedEntries (remaining attempts : Nat)
  | unavailable
  | endless
  | service (code : String) (message : Option String)
  -- An error of the service that is not known for the operation, or an answer that makes no sense.
  | unhandled (code : Option String)
  deriving DecidableEq, Repr

def PrimaryKey.shown (key : PrimaryKey) : String :=
  "PrimaryKey \x7b partition_key: " ++ Text.quoted key.partition ++ ", sort_key: " ++
    Text.quoted key.sort ++ " \x7d"

def EngineFault.message : EngineFault → String
  | .tooManyKeys count limit =>
    toString count ++ " keys exceed the limit of " ++ toString limit
  | .tooManyEntries count limit =>
    toString count ++ " entries exceed the limit of " ++ toString limit
  | .duplicateKey key => "duplicate key in batch: " ++ key.shown
  | .unprocessedKeys remaining attempts =>
    toString remaining ++ " keys still unprocessed after " ++ toString attempts ++ " attempts"
  | .unprocessedEntries remaining attempts =>
    toString remaining ++ " entries still unprocessed after " ++ toString attempts ++ " attempts"
  | .unavailable => "service unavailable"
  | .endless => "more pages than the engine can hold"
  | .service code none => code
  | .service code (some message) => code ++ ": " ++ message
  | .unhandled none => "unhandled error"
  | .unhandled (some code) => "unhandled error (" ++ code ++ ")"

inductive ConnectionFault where
  | timedOut
  | dispatch
  deriving DecidableEq, Repr

def ConnectionFault.message : ConnectionFault → String
  | .timedOut => "Request timed out"
  | .dispatch => "request could not be sent"

inductive Fault where
  | conditionFailed
  | engine (operation : Operation) (fault : EngineFault)
  | connection (fault : ConnectionFault)
  | serialization (got : Value)
  | data (fault : DataFault)
  | filter (fault : FilterFault)
  | cursor (fault : CursorFault)
  | unknownIndex (name : String)

def Fault.message : Fault → String
  | .conditionFailed => "Condition check failed"
  | .engine operation fault => operation.name ++ " failed: " ++ fault.message
  | .connection fault => "Connection failed: " ++ fault.message
  | .serialization got =>
    "Serialization error: expected an object with named fields, got " ++ got.text
  | .data fault => "Invalid data: " ++ fault.message
  | .filter fault => "Invalid filter: " ++ fault.message
  | .cursor fault => "Invalid cursor: " ++ fault.message
  | .unknownIndex name => "Unknown index: " ++ name

def Value.fields (value : Value) : Except Fault Fields :=
  match value.fields? with
  | some fields => return fields
  | none => throw (.serialization value)

end SharedTable
