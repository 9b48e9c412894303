import SharedTable.Proofs.Remote.Requests
import SharedTable.Proofs.Remote.Rounds

set_option autoImplicit false

namespace SharedTable.Remote

namespace Attribute

mutual

theorem isKnown_ofValue : ∀ value, (ofValue value).isKnown
  | .null | .bool _ | .number _ | .string _ => by simp [ofValue, isKnown]
  | .array items => by
    rw [ofValue, isKnown]
    exact areKnownItems_ofItems items
  | .object members => by
    rw [ofValue, isKnown]
    exact areKnownMembers_ofMembers members

theorem areKnownItems_ofItems : ∀ items, areKnownItems (ofItems items)
  | [] => rfl
  | item :: rest => by simp [ofItems, areKnownItems, isKnown_ofValue item, areKnownItems_ofItems rest]

theorem areKnownMembers_ofMembers : ∀ members, areKnownMembers (ofMembers members)
  | [] => rfl
  | (_, value) :: rest => by
    simp [ofMembers, areKnownMembers, isKnown_ofValue value, areKnownMembers_ofMembers rest]

end

end Attribute

theorem Change.isKnown_entry (change : Change) : change.entry.isKnown := by
  cases change with
  | put item =>
    rw [entry, WriteEntry.isKnown, Option.all_some, Option.all_none, Bool.and_true]
    exact Attribute.areKnownMembers_ofMembers item.toList
  | delete key => rfl

theorem entriesOf_eq (puts : List Item) (deletes : List PrimaryKey) :
    entriesOf puts deletes = (puts.map Change.put ++ deletes.map Change.delete).map Change.entry := by
  rw [List.map_append, List.map_map, List.map_map]
  rfl

theorem readEntries_run (reply : Reply) (world : World Peer) :
    ∃ next, (readEntries reply).run world =
        ((heard .batchWriteItem unprocessedEntries? reply).map ([], ·), next) ∧
      next.state = world.state := by
  obtain ⟨next, ran, kept⟩ := receive_run .batchWriteItem unprocessedEntries? reply world
  refine ⟨next, ?_, kept⟩
  rw [readEntries, Action.run_bind, ran]
  cases heard .batchWriteItem unprocessedEntries? reply <;> rfl

def pendingOf (table : String) (changes : List Change) : Pending (List WriteEntry) :=
  if changes = [] then [] else [(table, changes.map Change.entry)]

theorem pendingOf_of_ne_nil {table : String} {changes : List Change} (some : changes ≠ []) :
    pendingOf table changes = [(table, changes.map Change.entry)] := if_neg some

def writes (table : String) : Protocol (List WriteEntry) Change Empty where
  batch := writing table
  said reply := (heard .batchWriteItem unprocessedEntries? reply).map ([], ·)
  said_timeout := rfl
  read_run := readEntries_run
  work changes := changes.map Change.entry
  asks changes pending := pending = pendingOf table changes
  gives reply _ left := heard .batchWriteItem unprocessedEntries? reply = .ok left
  fails reply fault := heard .batchWriteItem unprocessedEntries? reply = .error fault
  size_work _ := List.length_map _
  asks_work some := (pendingOf_of_ne_nil some).symm
  eq_nil_iff := by
    rintro changes _ rfl
    simp [pendingOf]
  total_eq := by
    rintro changes _ rfl
    unfold pendingOf
    split
    next nothing => simp [nothing, Pending.total]
    next => simp [Pending.total, writing]
  canBeMade := by
    rintro changes _ rfl
    unfold pendingOf
    split
    next => rfl
    next => simp [writing, Call.canBeMade, Change.isKnown_entry]
  said_of_gives {_ results _} gives := by
    cases results with
    | nil => exact congrArg (Except.map _) gives
    | cons result => cases result
  said_of_fails fails := ⟨_, congrArg (Except.map _) fails, fails⟩

section Reading

variable {room : Nat}

def keyDocument (partition sort : String) : Document :=
  .object [("partitionKey", .object [("S", .string partition)]),
    ("sortKey", .object [("S", .string sort)])]

def deleteDocument (partition sort : String) : Document :=
  .object [("DeleteRequest", .object [("Key", keyDocument partition sort)])]

theorem AttributeMap.ofDocument?_keyDocument {key : PrimaryKey} {partition sort : String}
    (first : Document.unescape? partition = some key.partition)
    (second : Document.unescape? sort = some key.sort) :
    AttributeMap.ofDocument? (room + 3) (keyDocument partition sort) =
      some (AttributeMap.ofKey key) := by
  have names : Document.unescape? "partitionKey" = some "partitionKey" ∧
      Document.unescape? "sortKey" = some "sortKey" ∧ Document.unescape? "S" = some "S" := by decide
  have inOrder : Attribute.sorted [("partitionKey", .string key.partition),
      ("sortKey", .string key.sort)] = AttributeMap.ofKey key := rfl
  simp [keyDocument, AttributeMap.ofDocument?, Attribute.membersOf?, Attribute.ofDocument?,
    Attribute.variants?, Attribute.variant?, Attribute.types, Document.isNull, first, second, names,
    inOrder]

theorem WriteEntry.ofDocument?_deleteDocument {key : PrimaryKey} {partition sort : String}
    (first : Document.unescape? partition = some key.partition)
    (second : Document.unescape? sort = some key.sort) :
    WriteEntry.ofDocument? (room + 5) (deleteDocument partition sort) =
      some (Change.delete key).entry := by
  have names : Document.unescape? "DeleteRequest" = some "DeleteRequest" ∧
      Document.unescape? "Key" = some "Key" := by decide
  have read : AttributeMap.ofDocument? (room + 3) (keyDocument partition sort) = _ :=
    AttributeMap.ofDocument?_keyDocument first second
  rw [keyDocument] at read
  simp [WriteEntry.ofDocument?, deleteDocument, keyDocument, partOfDocument?, Document.membersOf?,
    Document.members?, Document.Members.get?, Document.isNull, Change.entry, names, read]

theorem unprocessedEntries?_deletes (written : String → String) {table : String}
    (keys : List PrimaryKey) (named : Document.unescape? (written table) = some table)
    (texts : ∀ key ∈ keys, Document.unescape? (written key.partition) = some key.partition ∧
      Document.unescape? (written key.sort) = some key.sort) :
    unprocessedEntries? (room + 8)
      (.object [("UnprocessedItems", .object [(written table, .list (keys.map fun key =>
        deleteDocument (written key.partition) (written key.sort)))])]) =
      some [(table, (keys.map Change.delete).map Change.entry)] := by
  have name : Document.unescape? "UnprocessedItems" = some "UnprocessedItems" := by decide
  have read : (keys.map fun key => deleteDocument (written key.partition) (written key.sort)).mapM
      (WriteEntry.ofDocument? (room + 5)) = some ((keys.map Change.delete).map Change.entry) := by
    rw [List.map_map]
    exact mapM_map_eq_some fun key mem =>
      WriteEntry.ofDocument?_deleteDocument (texts key mem).1 (texts key mem).2
  have alone (entries : List WriteEntry) :
      ((∅ : Std.ExtTreeMap String (List WriteEntry)).insert table entries).toList =
        [(table, entries)] := rfl
  simp [unprocessedEntries?, Document.membersOf?, Document.members?, Document.map?, Document.list?,
    Document.Members.get?, Document.isNull, name, named, read, alone]

end Reading

def oneLeft : String :=
  "\x7b\"UnprocessedItems\":\x7b\"t\":[\x7b\"DeleteRequest\":\x7b\"Key\":\x7b" ++
    "\"partitionKey\":\x7b\"S\":\"p\"\x7d,\"sortKey\":\x7b\"S\":\"s\"\x7d\x7d\x7d\x7d]\x7d\x7d"

set_option maxRecDepth 4000 in
theorem ofText?_oneLeft : Document.ofText? oneLeft =
    some (.object [("UnprocessedItems", .object [("t", .list [deleteDocument "p" "s"])])]) := by
  rfl

theorem heard_oneLeft : heard .batchWriteItem unprocessedEntries? (.answer 200 oneLeft) =
    .ok (pendingOf "t" [.delete ⟨"p", "s"⟩]) := by
  have answered : answerDocument? oneLeft = Document.ofText? oneLeft := if_neg (by decide)
  have read : unprocessedEntries? Document.readDepth (.object [("UnprocessedItems", .object [("t",
      .list [deleteDocument "p" "s"])])]) = some (pendingOf "t" [.delete ⟨"p", "s"⟩]) := by
    refine unprocessedEntries?_deletes id [⟨"p", "s"⟩] (by decide) ?_
    intro key mem
    obtain rfl := List.mem_singleton.mp mem
    decide
  simp only [heard]
  rw [if_pos (by decide), answered, ofText?_oneLeft, Option.bind_some, read]

/--
How rounds account for the changes of a batch, and for what the batch ends in. A request has an entry for
each change that its round is about, and read back from its body it asks for these changes.
-/
structure Account (table : String) (changes : List Change) (peer : Peer)
    (rounds : List (Round Change Empty)) (result : Except Fault Unit) (calls : List Call) : Prop where
  sent : calls = peer.sent ++ rounds.map fun round =>
    .batchWrite [(table, round.submitted.map Change.entry)]
  readable : (calls.drop peer.sent.length).map (fun call => Wire.changes? table call.request) =
    rounds.map fun round => some round.submitted
  bounded : rounds.length ≤ 3
  opening : rounds.head?.map Round.submitted = if changes = [] then none else some changes
  resent : rounds.IsChain Round.GoesOnIn
  answered : ∀ (place : Nat) (inside : place < rounds.length),
    (writes table).Answers (fun _ _ => True) rounds[place] (peer.replies.getD place .broken)
  ended : match rounds.getLast? with
    | none => result = .ok ()
    | some ⟨_, .error fault⟩ => result = .error fault
    | some ⟨_, .ok share⟩ =>
      if share.left = [] then result = .ok ()
      else rounds.length = 3 ∧
        result = .error (.engine .batchWriteItem (.unprocessedEntries share.left.length 3))
  conserved : (rounds.flatMap Round.accepted ++
    (rounds.getLast?.map Round.left).getD changes).Perm changes
  complete : result = .ok () → (rounds.flatMap Round.accepted).Perm changes

theorem requests_eq {table : String} {serves : List Change → List Empty → Prop} {attempts : Nat}
    {changes : List Change} {replies : List Reply} {rounds : List (Round Change Empty)}
    {requests : List (Pending (List WriteEntry))}
    (exchanged : (writes table).Exchanged serves attempts changes replies rounds)
    (requested : (writes table).Requests changes replies rounds requests) :
    requests = rounds.map fun round => [(table, round.submitted.map Change.entry)] := by
  rw [← requests.map_id]
  exact exchanged.map_requests requested fun _ _ some asks => asks.trans (pendingOf_of_ne_nil some)

/--
No change is lost, whatever the service does. The first request is about all puts and deletes, and each
later one about those that the answer before left. The batch succeeds when nothing is left; then every
change has been accepted in one request. It ends at once in the fault of a request that fails, and in the
number of the changes left once its attempts are spent.
-/
theorem batchWrite_accounts_for_entries (table : String) (puts : List Item)
    (deletes : List PrimaryKey) (world : World Peer)
    (honest : (writes table).Honest (fun _ _ => True) maxAttempts
      (puts.map Change.put ++ deletes.map Change.delete) world.state.replies) :
    ∃ rounds result next, ExceptT.run (batchWrite table puts deletes).run world = (result, next) ∧
      Account table (puts.map Change.put ++ deletes.map Change.delete) world.state rounds result
        next.state.sent := by
  obtain ⟨rounds, requests, next, exchanged, requested, ran, state⟩ := Protocol.start_run honest
  have sent : next.state.sent = world.state.sent ++ rounds.map fun round =>
      .batchWrite [(table, round.submitted.map Change.entry)] := by
    rw [state, requests_eq exchanged requested, List.map_map]
    rfl
  refine ⟨rounds, ((writes table).verdict rounds).map fun _ => (), next, ?_, sent, ?_,
    exchanged.length_le, exchanged.head?_submitted, exchanged.isChain, exchanged.answers_getElem, ?_,
    exchanged.accepted_append_left, ?_⟩
  · rw [batchWrite, entriesOf_eq, Task.run_map]
    exact congrArg (fun ended => (ended.1.map fun _ => (), ended.2)) ran
  · rw [sent, List.drop_left, List.map_map]
    exact List.map_congr_left fun round _ => Wire.changes?_request table round.submitted
  · unfold Protocol.verdict
    rcases closing : rounds.getLast? with - | ⟨submitted, fault | share⟩
    next => rfl
    next => rfl
    next =>
      dsimp only
      split
      next => rfl
      next something => exact ⟨exchanged.length_eq closing rfl something, rfl⟩
  · intro succeeds
    rcases ended : (writes table).verdict rounds with fault | results
    next => rw [ended] at succeeds; cases succeeds
    next => exact exchanged.accepted_perm ended

def putAsked : String :=
  "\x7b\"PutRequest\":\x7b\"Item\":\x7b\"partitionKey\":\x7b\"S\":\"q\"\x7d," ++
    "\"sortKey\":\x7b\"S\":\"s\"\x7d\x7d\x7d\x7d"

def deleteAsked : String :=
  "\x7b\"DeleteRequest\":\x7b\"Key\":\x7b\"partitionKey\":\x7b\"S\":\"p\"\x7d," ++
    "\"sortKey\":\x7b\"S\":\"s\"\x7d\x7d\x7d\x7d"

def asked (entries : List String) : String :=
  "\x7b\"RequestItems\":\x7b\"t\":[" ++ ",".intercalate entries ++ "]\x7d\x7d"

def keptItem : Item := .ofList [(partitionAttr, Value.string "q"), (sortAttr, Value.string "s")]

def leavingOnce : Peer := .ofReplies [.answer 200 oneLeft, .answer 200 ""]

def writtenTwice : Except Fault Unit × World Peer :=
  ExceptT.run (batchWrite "t" [keptItem] [⟨"p", "s"⟩]).run (World.ofState leavingOnce)

theorem writtenTwice_ends : writtenTwice.1.isOk ∧
    writtenTwice.2.state.sent.map (fun call => call.request.text) =
      [asked [putAsked, deleteAsked], asked [deleteAsked]] := by
  decide +kernel

theorem one_delete_left :
    (writes "t").Honest (fun _ _ => True) maxAttempts [.put keptItem, .delete ⟨"p", "s"⟩]
        leavingOnce.replies ∧
      ∃ rounds next, ExceptT.run (batchWrite "t" [keptItem] [⟨"p", "s"⟩]).run
          (World.ofState leavingOnce) = (.ok (), next) ∧
        Account "t" [.put keptItem, .delete ⟨"p", "s"⟩] leavingOnce rounds (.ok ()) next.state.sent ∧
        next.state.sent.map (fun call => call.request.text) =
          [asked [putAsked, deleteAsked], asked [deleteAsked]] := by
  have first : (writes "t").Answers (fun _ _ => True) ⟨[.put keptItem, .delete ⟨"p", "s"⟩],
      .ok ⟨[.put keptItem], [], [.delete ⟨"p", "s"⟩]⟩⟩ (.answer 200 oneLeft) :=
    ⟨.refl _, trivial, _, heard_oneLeft, rfl⟩
  have second : (writes "t").Answers (fun _ _ => True) ⟨[.delete ⟨"p", "s"⟩],
      .ok ⟨[.delete ⟨"p", "s"⟩], [], []⟩⟩ (.answer 200 "") :=
    ⟨.refl _, trivial, _, rfl, rfl⟩
  have honest : (writes "t").Honest (fun _ _ => True) maxAttempts
      [.put keptItem, .delete ⟨"p", "s"⟩] leavingOnce.replies :=
    .share first (.share second .finished)
  obtain ⟨rounds, result, next, ran, account⟩ := batchWrite_accounts_for_entries "t" [keptItem]
    [⟨"p", "s"⟩] (World.ofState leavingOnce) honest
  have ends := writtenTwice_ends
  rw [show writtenTwice = (result, next) from ran] at ends
  cases result with
  | error fault => cases ends.1
  | ok => exact ⟨honest, rounds, next, ran, account, ends.2⟩

end SharedTable.Remote
