import SharedTable.Text.Characters

set_option autoImplicit false

namespace SharedTable

structure Settings where
  tableName : String
  endpoint : Option String
  region : String
  batchConcurrency : Nat
  deriving DecidableEq, Repr

namespace Settings

def wordOf? (text : String) : Option Nat :=
  let digits := match text.toList with
    | '+' :: rest => rest
    | all => all
  if digits.isEmpty || !digits.all Char.isDigit then none
  else
    let n := digits.foldl (fun n c => 10 * n + (c.toNat - 48)) 0
    if n < 18446744073709551616 then some n else none

-- An empty endpoint counts as none; what is no number of chunks counts as one chunk.
def ofEnvironment (value? : String → Option String) : Settings where
  tableName := (value? "DYNAMODB_TABLE_NAME").getD "singletable"
  endpoint := (value? "AWS_ENDPOINT_URL").filter fun url => !url.isEmpty
  region := (value? "AWS_REGION").getD "us-east-1"
  batchConcurrency := max (((value? "BATCH_CONCURRENCY").bind wordOf?).getD 1) 1

def withTableName (settings : Settings) (tableName : String) : Settings :=
  { settings with tableName }

def withBatchConcurrency (settings : Settings) (batchConcurrency : Nat) : Settings :=
  { settings with batchConcurrency := max batchConcurrency 1 }

end Settings

end SharedTable
