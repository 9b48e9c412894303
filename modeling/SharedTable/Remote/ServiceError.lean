import SharedTable.Fault
import SharedTable.Remote.Shape

/-!
Errors that the remote service reports. A report names a code and may give a message; the errors known
for an operation have members of their own, which must be well formed.
-/

set_option autoImplicit false

namespace SharedTable.Remote

namespace ServiceError

def known (operation : Operation) : List String :=
  ["InternalServerError", "InvalidEndpointException", "ProvisionedThroughputExceededException",
    "RequestLimitExceeded", "ResourceNotFoundException", "ThrottlingException"] ++
  (match operation with
    | .putItem | .deleteItem | .batchWriteItem =>
      ["ItemCollectionSizeLimitExceededException", "ReplicatedWriteConflictException"]
    | _ => []) ++
  (match operation with
    | .putItem | .deleteItem =>
      ["ConditionalCheckFailedException", "TransactionConflictException"]
    | _ => [])

-- The code inside the name of an error: behind a number sign, and in front of a colon.
def codeOf (name : String) : String :=
  let front := name.toList.takeWhile (· != ':')
  String.ofList <|
    if front.contains '#' then (front.dropWhile (· != '#')).drop 1 else front

structure Report where
  code : Option String
  typeName : Option String
  message : Option String

-- Takes note of a member. Names are compared as they are written; what is not a string is skipped.
def Report.note (report : Report) : String × Document → Option Report
  | (name, .string raw) =>
    if name = "code" then do return { report with code := some (← Document.unescape? raw) }
    else if name = "__type" then do return { report with typeName := some (← Document.unescape? raw) }
    else if name = "message" ∨ name = "Message" ∨ name = "errorMessage" then do
      return { report with message := some (← Document.unescape? raw) }
    else some report
  | (_, value) => if value.canBeSkipped then some report else none

def Report.ofDocument? : Document → Option Report
  | .object members => members.foldlM Report.note ⟨none, none, none⟩
  | _ => none

def messageMember (code : String) : String :=
  if code = "InvalidEndpointException" then "Message" else "message"

def details (code : String) : List (String × Shape) :=
  if code = "ConditionalCheckFailedException" then [("Item", .attributes)]
  else if code = "ThrottlingException" then [("throttlingReasons", .reasons)]
  else if code = "ProvisionedThroughputExceededException" ∨ code = "RequestLimitExceeded" then
    [("ThrottlingReasons", .reasons)]
  else []

def ownMessage? (code : String) (document : Document) : Option (Option String) := do
  let _ ← (Shape.object (details code)).check Document.readDepth document
  let members ← Document.members? Document.readDepth document
  members.get? (messageMember code) Document.string?

def ofBody (operation : Operation) (body : String) : EngineFault :=
  let report? : Option (Document × Report × String) := do
    let document ← Document.ofText? body
    let report ← Report.ofDocument? document
    return (document, report, codeOf (← report.code.or report.typeName))
  match report? with
  | none => .unhandled none
  | some (document, report, code) =>
    if !(known operation).contains code then .unhandled (some code)
    else match ownMessage? code document with
      | none => .unhandled none
      | some message => .service code (message.or report.message)

def isThroughput : EngineFault → Bool
  | .service code _ => ["ProvisionedThroughputExceededException", "RequestLimitExceeded"].contains code
  | _ => false

def isRefusal : EngineFault → Bool
  | .service code _ => code == "ConditionalCheckFailedException"
  | _ => false

end ServiceError

end SharedTable.Remote
