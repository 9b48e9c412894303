import SharedTable.Engine
import SharedTable.Remote.Reply
import SharedTable.Remote.ServiceError

/-!
The engine over the remote service. A batch that comes back in part is sent again with what was left
unprocessed, a limited number of times and after growing delays.
-/

set_option autoImplicit false

namespace SharedTable.Remote

/-- The service as a script of replies, with the calls sent to it. -/
structure Peer where
  replies : List Reply
  sent : List Call

namespace Peer

def ofReplies (replies : List Reply) : Peer := ⟨replies, []⟩

def exchange (call : Call) : Action Peer Reply := do
  if !call.canBeMade then throw (.engine call.operation (.unhandled none))
  let peer ← Action.state
  Action.setState { peer with replies := peer.replies.tail, sent := peer.sent ++ [call] }
  return peer.replies.headD .broken

end Peer

def patience : Nat := 1000

def refusal (operation : Operation) (error : EngineFault) : Action Peer Fault := do
  if operation = .putItem && ServiceError.isRefusal error then return .conditionFailed
  if ServiceError.isThroughput error then Action.report (.throughputExceeded operation)
  return .engine operation error

def receive {α : Type} (operation : Operation) (read : Document.Reading α) :
    Reply → Action Peer α
  | .timeout => throw (.connection .timedOut)
  | .broken => throw (.connection .dispatch)
  | .answer status body => do
    if 200 ≤ status ∧ status < 300 then
      match (answerDocument? body).bind (read Document.readDepth) with
      | some result => return result
      | none => throw (.engine operation (.unhandled none))
    else
      throw (← refusal operation (ServiceError.ofBody operation body))

def call {α : Type} (call : Call) (read : Document.Reading α) : Action Peer α := do
  let reply ← Peer.exchange call
  if reply = .timeout then Action.wait patience
  receive call.operation read reply

def checked {α : Type} (result : Except DataFault α) : Action Peer α :=
  Action.ofExcept (result.mapError .data)

def maxAttempts : Nat := 3

-- Delays double from a tenth of a second up to two seconds.
def retryDelay (attempt : Nat) : Nat := min (100 * Nat.pow 2 (min attempt 16)) 2000

def unprocessed (what : BatchUnit) (remaining : Nat) : Fault :=
  match what with
  | .keys => .engine .batchGetItem (.unprocessedKeys remaining maxAttempts)
  | .entries => .engine .batchWriteItem (.unprocessedEntries remaining maxAttempts)

structure Submission (ε β : Type) where
  what : BatchUnit
  table : String
  size : ε → Nat
  call : Pending ε → Call
  read : Reply → Action Peer (List β × Pending ε)

namespace Submission

variable {ε β : Type}

-- Sends what is pending once. Waiting for an answer in vain is a pause in front of the failure;
-- `next` is what follows if something is left.
def attempt {retries : Nat} (batch : Submission ε β) (pending : Pending ε) (done : List β)
    (next : Pending ε → List β → Action Peer (Stretch (Task Peer (List β) retries) (List β))) :
    Task Peer (List β) (retries + 1) :=
  show Action Peer (Stretch (Task Peer (List β) retries) (List β)) from do
    let reply ← Peer.exchange (batch.call pending)
    if reply = .timeout then return .pause patience (.fail (.connection .timedOut))
    let (results, left) ← batch.read reply
    let left := left.nonempty batch.size
    if left.isEmpty then return .done (done ++ results) else next left (done ++ results)

def submit (batch : Submission ε β) :
    (retries : Nat) → Pending ε → (done : List β) → Task Peer (List β) (retries + 1)
  | 0, pending, done =>
    batch.attempt pending done fun left _ => throw (unprocessed batch.what (left.total batch.size))
  | retries + 1, pending, done =>
    batch.attempt pending done fun left done => do
      let attempt := maxAttempts - 1 - retries
      Action.report (.resubmitting batch.what batch.table attempt (left.total batch.size))
      return .pause (retryDelay attempt) (submit batch retries left done)

def start (batch : Submission ε β) (work : ε) : Task Peer (List β) maxAttempts :=
  if batch.size work = 0 then .finish []
  else submit batch (maxAttempts - 1) [(batch.table, work)] []

end Submission

-- Only items of the table that was asked for count as results.
def readItems (table : String) (reply : Reply) : Action Peer (List Item × Pending KeyRequest) := do
  let answer ← receive .batchGetItem BatchGetReply.ofDocument? reply
  let items ← checked (((answer.found.lookup table).getD []).mapM AttributeMap.toItem)
  return (items, answer.unprocessed)

def readEntries (reply : Reply) : Action Peer (List Empty × Pending (List WriteEntry)) := do
  return ([], ← receive .batchWriteItem unprocessedEntries? reply)

def reading (table : String) : Submission KeyRequest Item where
  what := .keys
  table := table
  size request := request.keys.length
  call := .batchGet
  read := readItems table

def writing (table : String) : Submission (List WriteEntry) Empty where
  what := .entries
  table := table
  size := List.length
  call := .batchWrite
  read := readEntries

def batchGet (table : String) (keys : List PrimaryKey) : Task Peer (List Item) maxAttempts :=
  (reading table).start (.ofKeys (keys.map AttributeMap.ofKey))

def entriesOf (puts : List Item) (deletes : List PrimaryKey) : List WriteEntry :=
  puts.map (fun item => ⟨some (AttributeMap.ofItem item), none⟩) ++
    deletes.map fun key => ⟨none, some (AttributeMap.ofKey key)⟩

def batchWrite (table : String) (puts : List Item) (deletes : List PrimaryKey) :
    Task Peer Unit maxAttempts :=
  ((writing table).start (entriesOf puts deletes)).map fun _ => ()

def lastKeyOf (reply : QueryReply) : Except DataFault (Option LastKey) :=
  match reply.lastKey with
  | none => return none
  | some attributes => return some (← attributes.toLastKey)

def query (request : Request) : Action Peer QueryPage := do
  Action.report (.sendingQuery request.table request.slot request.condition)
  let reply ← call (.query request false) QueryReply.ofDocument?
  let items ← checked (reply.items.mapM AttributeMap.toItem)
  let lastKey ← checked (lastKeyOf reply)
  return ⟨items, lastKey⟩

def count (request : Request) : Action Peer CountPage := do
  Action.report (.sendingCount request.table request.slot request.condition)
  let reply ← call (.query request true) QueryReply.ofDocument?
  let lastKey ← checked (lastKeyOf reply)
  return ⟨reply.count.toNat, lastKey⟩

def getItem (table : String) (key : PrimaryKey) : Action Peer (Option Item) := do
  match ← call (.getItem table key) itemOfDocument? with
  | none => return none
  | some attributes => return some (← checked attributes.toItem)

-- The engine; every page takes one reply, which bounds the pages of a query.
def engine : Engine Peer where
  readLimit := 100
  writeLimit := 25
  pageBound peer := peer.replies.length + 1
  pauses := maxAttempts
  query := query
  count := count
  get := getItem
  put table item condition :=
    call (.putItem table (AttributeMap.ofItem item) condition) acknowledged?
  delete table key := call (.deleteItem table key) acknowledged?
  batchGet := batchGet
  batchWrite := batchWrite

end SharedTable.Remote
