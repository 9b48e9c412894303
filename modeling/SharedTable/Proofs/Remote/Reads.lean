import SharedTable.Proofs.Remote.Writes

set_option autoImplicit false

namespace SharedTable.Remote

def BatchGetReply.itemsOf (answer : BatchGetReply) (table : String) : List AttributeMap :=
  (answer.found.lookup table).getD []

def itemsSaid (table : String) (reply : Reply) : Except Fault (List Item × Pending KeyRequest) := do
  let answer ← heard .batchGetItem BatchGetReply.ofDocument? reply
  let items ← ((answer.itemsOf table).mapM AttributeMap.toItem).mapError .data
  return (items, answer.unprocessed)

theorem readItems_run (table : String) (reply : Reply) (world : World Peer) :
    ∃ next, (readItems table reply).run world = (itemsSaid table reply, next) ∧
      next.state = world.state := by
  obtain ⟨next, ran, kept⟩ := receive_run .batchGetItem BatchGetReply.ofDocument? reply world
  refine ⟨next, ?_, kept⟩
  rw [readItems, Action.run_bind, ran, itemsSaid]
  cases heard .batchGetItem BatchGetReply.ofDocument? reply with
  | error fault => rfl
  | ok answer =>
    change (checked ((answer.itemsOf table).mapM AttributeMap.toItem) >>= _).run next = _
    rw [Action.run_bind, checked, Action.run_ofExcept]
    rcases read : (answer.itemsOf table).mapM AttributeMap.toItem with fault | items
    next => simp only [read, bind, Except.bind, Except.mapError]
    next =>
      simp only [read, bind, Except.bind, Except.mapError, pure, Except.pure]
      rfl

def BatchGetReply.items? (answer : BatchGetReply) (table : String) : Option (List Item) :=
  (answer.itemsOf table).mapM fun attributes => Wire.item? attributes.wire

theorem items?_eq (answer : BatchGetReply) (table : String) :
    answer.items? table = ((answer.itemsOf table).mapM AttributeMap.toItem).toOption := by
  rw [toOption_mapM, BatchGetReply.items?]
  simp only [Wire.item?_wire]

theorem items?_of_perm {answer : BatchGetReply} {table : String} {items : List Item}
    (holds : List.Forall₂ (fun attributes item => attributes.Perm (AttributeMap.ofItem item))
      (answer.itemsOf table) items) : answer.items? table = some items := by
  rw [items?_eq, mapM_eq_ok_iff.mpr (holds.imp fun _ _ => AttributeMap.toItem_of_perm)]
  rfl

/-- Work for a table that is about some keys, whatever else it asks of the service. -/
inductive Asks (table : String) : List PrimaryKey → Pending KeyRequest → Prop
  | nothing : Asks table [] []
  | keys {keys request} (some : keys ≠ []) (same : request.keys = keys.map AttributeMap.ofKey) :
    Asks table keys [(table, request)]

namespace Asks

variable {table : String} {keys : List PrimaryKey} {pending : Pending KeyRequest}

theorem eq_nil_iff (asks : Asks table keys pending) : pending = [] ↔ keys = [] := by
  cases asks with
  | nothing => simp
  | keys some => simp [some]

theorem total_eq (asks : Asks table keys pending) :
    pending.total (fun request => request.keys.length) = keys.length := by
  cases asks with
  | nothing => rfl
  | keys _ same => simp [Pending.total, same]

theorem canBeMade (asks : Asks table keys pending) : (Call.batchGet pending).canBeMade := by
  cases asks with
  | nothing => rfl
  | keys _ same =>
    have known (key : PrimaryKey) : AttributeMap.isKnown (.ofKey key) := rfl
    simp [Call.canBeMade, KeyRequest.isKnown, same, known]

theorem keys?_request (asks : Asks table keys pending) (some : keys ≠ []) :
    Wire.keys? table (Call.batchGet pending).request = .some keys := by
  cases asks with
  | nothing => exact absurd rfl some
  | keys _ same => exact Wire.keys?_request table same

end Asks

section Said

variable {table : String} {reply : Reply} {answer : BatchGetReply}

theorem itemsSaid_read {items : List Item}
    (answers : heard .batchGetItem BatchGetReply.ofDocument? reply = .ok answer)
    (holds : answer.items? table = some items) :
    itemsSaid table reply = .ok (items, answer.unprocessed) := by
  rw [items?_eq] at holds
  rw [itemsSaid, answers]
  rcases read : (answer.itemsOf table).mapM AttributeMap.toItem with fault | found
  next => simp [read, Except.toOption] at holds
  next =>
    obtain rfl : found = items := by simpa [read, Except.toOption] using holds
    simp [read, bind, Except.bind, Except.mapError, pure, Except.pure]

theorem itemsSaid_unreadable
    (answers : heard .batchGetItem BatchGetReply.ofDocument? reply = .ok answer)
    (unreadable : answer.items? table = none) :
    ∃ cause, itemsSaid table reply = .error (.data cause) := by
  rw [items?_eq] at unreadable
  rw [itemsSaid, answers]
  rcases read : (answer.itemsOf table).mapM AttributeMap.toItem with fault | found
  next => exact ⟨fault, by simp [read, bind, Except.bind, Except.mapError]⟩
  next => simp [read, Except.toOption] at unreadable

theorem answer_of_itemsSaid {items : List Item} {left : Pending KeyRequest}
    (said : itemsSaid table reply = .ok (items, left)) :
    ∃ answer, heard .batchGetItem BatchGetReply.ofDocument? reply = .ok answer ∧
      left = answer.unprocessed := by
  obtain ⟨answer, answers, rest⟩ := bind_eq_ok_iff.mp said
  obtain ⟨found, _, same⟩ := bind_eq_ok_iff.mp rest
  cases same
  exact ⟨answer, answers, rfl⟩

end Said

/-- Batches of reads from a table, in keys. A reply with an item that cannot be read is a failure. -/
def reads (table : String) : Protocol KeyRequest PrimaryKey Item where
  batch := reading table
  said := itemsSaid table
  said_timeout := rfl
  read_run := readItems_run table
  work keys := .ofKeys (keys.map AttributeMap.ofKey)
  asks := Asks table
  gives reply items left := ∃ answer, heard .batchGetItem BatchGetReply.ofDocument? reply = .ok answer ∧
    answer.items? table = some items ∧ left = answer.unprocessed
  fails reply fault := heard .batchGetItem BatchGetReply.ofDocument? reply = .error fault ∨
    ∃ answer, heard .batchGetItem BatchGetReply.ofDocument? reply = .ok answer ∧
      answer.items? table = none ∧ ∃ cause, fault = .data cause
  size_work _ := List.length_map _
  asks_work some := .keys some rfl
  eq_nil_iff asks := asks.eq_nil_iff
  total_eq asks := asks.total_eq
  canBeMade asks := asks.canBeMade
  said_of_gives := by
    rintro reply items _ ⟨answer, answers, holds, rfl⟩
    exact itemsSaid_read answers holds
  said_of_fails := by
    rintro reply fault (fails | ⟨answer, answers, unreadable, _⟩)
    next => exact ⟨fault, by simp [itemsSaid, fails, bind, Except.bind], .inl fails⟩
    next =>
      obtain ⟨cause, said⟩ := itemsSaid_unreadable answers unreadable
      exact ⟨_, said, .inr ⟨answer, answers, unreadable, cause, rfl⟩⟩

def Serves (stored : PrimaryKey → Option Item) (keys : List PrimaryKey) (items : List Item) : Prop :=
  items.Perm (keys.filterMap stored)

/--
How the rounds of a batch of reads account for its keys, and for what the batch ends in. A request read
back from its body asks for the keys that its round is about.
-/
structure Gathering (table : String) (stored : PrimaryKey → Option Item) (keys : List PrimaryKey)
    (replies : List Reply) (rounds : List (Round PrimaryKey Item)) (requests : List (Pending KeyRequest))
    (result : Except Fault (List Item)) : Prop where
  readable : requests.map (fun request => Wire.keys? table (Call.batchGet request).request) =
    rounds.map fun round => some round.submitted
  first : requests.head? =
    if keys = [] then none else some [(table, .ofKeys (keys.map AttributeMap.ofKey))]
  later : ∀ place request, requests[place + 1]? = some request → ∃ answer,
    heard .batchGetItem BatchGetReply.ofDocument? (replies.getD place .broken) = .ok answer ∧
      request = answer.unprocessed.nonempty fun request => request.keys.length
  bounded : rounds.length ≤ 3
  opening : rounds.head?.map Round.submitted = if keys = [] then none else some keys
  resent : rounds.IsChain Round.GoesOnIn
  answered : ∀ (place : Nat) (inside : place < rounds.length),
    (reads table).Answers (Serves stored) rounds[place] (replies.getD place .broken)
  ended : match rounds.getLast? with
    | none => result = .ok []
    | some ⟨_, .error fault⟩ => result = .error fault
    | some ⟨_, .ok share⟩ =>
      if share.left = [] then result = .ok (rounds.flatMap Round.results)
      else rounds.length = 3 ∧
        result = .error (.engine .batchGetItem (.unprocessedKeys share.left.length 3))
  failed : ∀ place < rounds.length, ∀ fault,
    heard .batchGetItem BatchGetReply.ofDocument? (replies.getD place .broken) = .error fault →
    result = .error fault
  unreadable : ∀ place < rounds.length, ∀ answer,
    heard .batchGetItem BatchGetReply.ofDocument? (replies.getD place .broken) = .ok answer →
    answer.items? table = none → ∃ cause, result = .error (.data cause)
  complete : ∀ items, result = .ok items → items.Perm (keys.filterMap stored)

section Batch

variable {table : String} {stored : PrimaryKey → Option Item} {attempts : Nat}
  {keys : List PrimaryKey} {replies : List Reply} {rounds : List (Round PrimaryKey Item)}

theorem results_perm (exchanged : (reads table).Exchanged (Serves stored) attempts keys replies rounds) :
    (rounds.flatMap Round.results).Perm ((rounds.flatMap Round.accepted).filterMap stored) := by
  induction exchanged with
  | spent => exact .refl _
  | finished => exact .refl _
  | fault => exact .refl _
  | share _ answers _ ih =>
    rw [List.flatMap_cons, List.flatMap_cons, List.filterMap_append]
    exact answers.2.1.append ih

theorem Protocol.Answers.error {serves : List PrimaryKey → List Item → Prop} {round : Round PrimaryKey Item}
    {reply : Reply} (answers : (reads table).Answers serves round reply)
    (fails : ∀ answer, heard .batchGetItem BatchGetReply.ofDocument? reply = .ok answer →
      answer.items? table = none) :
    ∃ fault, round.answer = .error fault ∧ (reads table).fails reply fault := by
  rcases round with ⟨submitted, fault | share⟩
  next => exact ⟨fault, rfl, answers⟩
  next =>
    obtain ⟨-, -, _, ⟨answer, heard, holds, -⟩, -⟩ := answers
    rw [fails answer heard] at holds
    cases holds

end Batch

/--
Nothing that is stored is lost or repeated, however the service divides the keys over its answers. The
first request is about all keys, and each later one is what the answer before left unprocessed. If the
batch succeeds, it gives the items of all answers in order, which are the stored items of the keys, one
for each key that has one. A failed request or an item that cannot be read makes it fail, and so do keys
left when its attempts are spent.
-/
theorem batchGet_gathers_stored_items (table : String) (stored : PrimaryKey → Option Item)
    (keys : List PrimaryKey) (world : World Peer)
    (honest : (reads table).Honest (Serves stored) maxAttempts keys world.state.replies) :
    ∃ rounds requests result next, ExceptT.run (batchGet table keys).run world = (result, next) ∧
      next.state.sent = world.state.sent ++ requests.map Call.batchGet ∧
      Gathering table stored keys world.state.replies rounds requests result := by
  obtain ⟨rounds, requests, next, exchanged, requested, ran, state⟩ := Protocol.start_run honest
  have answered := exchanged.answers_getElem
  refine ⟨rounds, requests, _, next, ran, congrArg Peer.sent state, ?_⟩
  constructor
  case readable =>
    exact exchanged.map_requests requested fun _ _ some asks => asks.keys?_request some
  case first => exact requested.opening
  case later =>
    intro place request found
    obtain ⟨items, left, said, same⟩ := requested.resent place request found
    obtain ⟨answer, answers, rfl⟩ := answer_of_itemsSaid said
    exact ⟨answer, answers, same⟩
  case bounded => exact exchanged.length_le
  case opening => exact exchanged.head?_submitted
  case resent => exact exchanged.isChain
  case answered => exact answered
  case ended =>
    unfold Protocol.verdict
    rcases closing : rounds.getLast? with - | ⟨submitted, fault | share⟩
    next => rfl
    next => rfl
    next =>
      dsimp only
      split
      next => rfl
      next something => exact ⟨exchanged.length_eq closing rfl something, rfl⟩
  case failed =>
    intro place inside fault failed
    obtain ⟨found, answer, fails⟩ := (answered place inside).error fun _ answers => by
      cases failed.symm.trans answers
    obtain also | ⟨_, answers, _⟩ := fails
    next =>
      cases failed.symm.trans also
      exact exchanged.verdict_of_fault (List.getElem_mem inside) answer
    next => cases failed.symm.trans answers
  case unreadable =>
    intro place inside answer answers unreadable
    obtain ⟨found, failed, fails⟩ := (answered place inside).error fun _ also => by
      cases answers.symm.trans also
      exact unreadable
    obtain also | ⟨_, _, _, cause, rfl⟩ := fails
    next => cases answers.symm.trans also
    next => exact ⟨cause, exchanged.verdict_of_fault (List.getElem_mem inside) failed⟩
  case complete =>
    intro items succeeds
    rw [Protocol.eq_of_verdict succeeds]
    exact (results_perm exchanged).trans ((exchanged.accepted_perm succeeds).filterMap stored)

section Reading

variable {room : Nat}

def keyDocuments (written : String → String) (keys : List PrimaryKey) : Document :=
  .list (keys.map fun key => keyDocument (written key.partition) (written key.sort))

theorem list?_keyDocuments {written : String → String} {keys : List PrimaryKey}
    (texts : ∀ key ∈ keys, Document.unescape? (written key.partition) = some key.partition ∧
      Document.unescape? (written key.sort) = some key.sort) :
    Document.list? AttributeMap.ofDocument? (room + 4) (keyDocuments written keys) =
      some (keys.map AttributeMap.ofKey) :=
  mapM_map_eq_some fun key mem =>
    AttributeMap.ofDocument?_keyDocument (texts key mem).1 (texts key mem).2

def answerDocument (written : String → String) (table : String) (found left : List PrimaryKey)
    (consistent : Bool) : Document :=
  .object [("Responses", .object [(written table, keyDocuments written found)]),
    ("UnprocessedKeys", .object [(written table,
      .object [("Keys", keyDocuments written left), ("ConsistentRead", .bool consistent)])])]

theorem BatchGetReply.ofDocument?_answerDocument (written : String → String) {table : String}
    (found left : List PrimaryKey) (consistent : Bool)
    (named : Document.unescape? (written table) = some table)
    (texts : ∀ key ∈ found ++ left, Document.unescape? (written key.partition) = some key.partition ∧
      Document.unescape? (written key.sort) = some key.sort) :
    BatchGetReply.ofDocument? (room + 8) (answerDocument written table found left consistent) =
      some ⟨[(table, found.map AttributeMap.ofKey)],
        [(table, ⟨left.map AttributeMap.ofKey, none, some consistent, none, none⟩)]⟩ := by
  have names : Document.unescape? "Responses" = some "Responses" ∧
      Document.unescape? "UnprocessedKeys" = some "UnprocessedKeys" ∧
      Document.unescape? "Keys" = some "Keys" ∧
      Document.unescape? "ConsistentRead" = some "ConsistentRead" := by decide
  have items : Document.list? AttributeMap.ofDocument? (room + 6) (keyDocuments written found) = _ :=
    list?_keyDocuments fun key mem => texts key (List.mem_append_left _ mem)
  have keys : Document.list? AttributeMap.ofDocument? (room + 5) (keyDocuments written left) = _ :=
    list?_keyDocuments fun key mem => texts key (List.mem_append_right _ mem)
  have present : (keyDocuments written left).isNull = false ∧
      (Document.bool consistent).isNull = false := ⟨rfl, rfl⟩
  have bool (room : Nat) : Document.bool? room (.bool consistent) = some consistent := rfl
  have request : KeyRequest.ofDocument? (room + 6)
      (.object [("Keys", keyDocuments written left), ("ConsistentRead", .bool consistent)]) =
      some ⟨left.map AttributeMap.ofKey, none, some consistent, none, none⟩ := by
    simp [KeyRequest.ofDocument?, Document.membersOf?, Document.members?, Document.Members.get?,
      names, keys, present, bool]
  have alone {α : Type} (value : α) :
      ((∅ : Std.ExtTreeMap String α).insert table value).toList = [(table, value)] := rfl
  simp [BatchGetReply.ofDocument?, answerDocument, Document.membersOf?, Document.members?,
    Document.map?, Document.Members.get?, Document.isNull, names, named, items, request, alone]

end Reading

def oneFound : String :=
  "\x7b\"Responses\":\x7b\"t\":[\x7b\"partitionKey\":\x7b\"S\":\"q\"\x7d," ++
    "\"sortKey\":\x7b\"S\":\"s\"\x7d\x7d]\x7d,\"UnprocessedKeys\":\x7b\"t\":\x7b\"Keys\":[" ++
    "\x7b\"partitionKey\":\x7b\"S\":\"p\"\x7d,\"sortKey\":\x7b\"S\":\"s\"\x7d\x7d]," ++
    "\"ConsistentRead\":true\x7d\x7d\x7d"

def otherFound : String :=
  "\x7b\"Responses\":\x7b\"t\":[\x7b\"partitionKey\":\x7b\"S\":\"p\"\x7d," ++
    "\"sortKey\":\x7b\"S\":\"s\"\x7d\x7d]\x7d,\"UnprocessedKeys\":\x7b\"t\":\x7b\"Keys\":[]," ++
    "\"ConsistentRead\":true\x7d\x7d\x7d"

set_option maxRecDepth 8000 in
theorem ofText?_oneFound : Document.ofText? oneFound =
    some (answerDocument id "t" [⟨"q", "s"⟩] [⟨"p", "s"⟩] true) := by
  rfl

set_option maxRecDepth 8000 in
theorem ofText?_otherFound : Document.ofText? otherFound =
    some (answerDocument id "t" [⟨"p", "s"⟩] [] true) := by
  rfl

theorem heard_answerDocument {body : String} {found left : List PrimaryKey} {consistent : Bool}
    (text : Document.ofText? body = some (answerDocument id "t" found left consistent))
    (texts : ∀ key ∈ found ++ left, Document.unescape? key.partition = some key.partition ∧
      Document.unescape? key.sort = some key.sort) :
    heard .batchGetItem BatchGetReply.ofDocument? (.answer 200 body) =
      .ok ⟨[("t", found.map AttributeMap.ofKey)],
        [("t", ⟨left.map AttributeMap.ofKey, none, some consistent, none, none⟩)]⟩ := by
  have answered : answerDocument? body = Document.ofText? body := by
    refine if_neg fun nothing => ?_
    rw [String.isEmpty_iff.mp nothing] at text
    cases text
  have read : BatchGetReply.ofDocument? Document.readDepth
      (answerDocument id "t" found left consistent) = _ :=
    BatchGetReply.ofDocument?_answerDocument id found left consistent (by decide) texts
  rw [heard, if_pos (by decide), answered, text, Option.bind_some, read]

def keyItem (key : PrimaryKey) : Item :=
  .ofList [(partitionAttr, Value.string key.partition), (sortAttr, Value.string key.sort)]

theorem gives_answerDocument {body : String} {key : PrimaryKey} {left : List PrimaryKey}
    {consistent : Bool} (text : Document.ofText? body = some (answerDocument id "t" [key] left consistent))
    (texts : ∀ other ∈ [key] ++ left, Document.unescape? other.partition = some other.partition ∧
      Document.unescape? other.sort = some other.sort) :
    (reads "t").gives (.answer 200 body) [keyItem key]
      [("t", ⟨left.map AttributeMap.ofKey, none, some consistent, none, none⟩)] :=
  ⟨_, heard_answerDocument text texts, items?_of_perm (.cons (.refl _) .nil), rfl⟩

def firstAsked : Pending KeyRequest := [("t", .ofKeys [.ofKey ⟨"p", "s"⟩, .ofKey ⟨"q", "s"⟩])]

def laterAsked : Pending KeyRequest := [("t", ⟨[.ofKey ⟨"p", "s"⟩], none, some true, none, none⟩)]

def servedTwice : Peer := .ofReplies [.answer 200 oneFound, .answer 200 otherFound]

theorem servedTwice_run : ∃ next, ExceptT.run (batchGet "t" [⟨"p", "s"⟩, ⟨"q", "s"⟩]).run
      (World.ofState servedTwice) = (.ok [keyItem ⟨"q", "s"⟩, keyItem ⟨"p", "s"⟩], next) ∧
    next.state.sent = [.batchGet firstAsked, .batchGet laterAsked] := by
  have first := (reads "t").said_of_gives (gives_answerDocument ofText?_oneFound (by decide))
  have second := (reads "t").said_of_gives (gives_answerDocument ofText?_otherFound (by decide))
  have further : ((reads "t").exchange firstAsked (.answer 200 oneFound)).answer =
      .ok ([keyItem ⟨"q", "s"⟩], laterAsked) := by
    rw [Dialogue.exchange, first]
    rfl
  have finished : ((reads "t").exchange laterAsked (.answer 200 otherFound)).answer =
      .ok ([keyItem ⟨"p", "s"⟩], []) := by
    rw [Dialogue.exchange, second]
    rfl
  have opened : (reads "t").course 3 firstAsked [.answer 200 oneFound, .answer 200 otherFound] =
      ⟨firstAsked, .ok ([keyItem ⟨"q", "s"⟩], laterAsked)⟩ ::
        (reads "t").course 2 laterAsked [.answer 200 otherFound] :=
    Dialogue.course_further further (List.cons_ne_nil _ _)
  have later : (reads "t").course 2 laterAsked [.answer 200 otherFound] =
      [⟨laterAsked, .ok ([keyItem ⟨"p", "s"⟩], [])⟩] := Dialogue.course_finished finished
  have course : (reads "t").course maxAttempts firstAsked (World.ofState servedTwice).state.replies =
      [⟨firstAsked, .ok ([keyItem ⟨"q", "s"⟩], laterAsked)⟩,
        ⟨laterAsked, .ok ([keyItem ⟨"p", "s"⟩], [])⟩] := opened.trans (congrArg (List.cons _) later)
  obtain ⟨next, ran, state⟩ := (reads "t").course_run course (by decide)
  exact ⟨next, ran, congrArg Peer.sent state⟩

theorem two_answers_gather :
    (reads "t").Honest (Serves fun key => some (keyItem key)) maxAttempts [⟨"p", "s"⟩, ⟨"q", "s"⟩]
        servedTwice.replies ∧
      ∃ rounds next, ExceptT.run (batchGet "t" [⟨"p", "s"⟩, ⟨"q", "s"⟩]).run
          (World.ofState servedTwice) = (.ok [keyItem ⟨"q", "s"⟩, keyItem ⟨"p", "s"⟩], next) ∧
        next.state.sent = [.batchGet firstAsked, .batchGet laterAsked] ∧
        Gathering "t" (fun key => some (keyItem key)) [⟨"p", "s"⟩, ⟨"q", "s"⟩] servedTwice.replies
          rounds [firstAsked, laterAsked] (.ok [keyItem ⟨"q", "s"⟩, keyItem ⟨"p", "s"⟩]) := by
  have first := gives_answerDocument ofText?_oneFound (by decide)
  have second := gives_answerDocument ofText?_otherFound (by decide)
  have honest : (reads "t").Honest (Serves fun key => some (keyItem key)) maxAttempts
      [⟨"p", "s"⟩, ⟨"q", "s"⟩] servedTwice.replies := by
    have one : (reads "t").Answers (Serves fun key => some (keyItem key)) ⟨[⟨"p", "s"⟩, ⟨"q", "s"⟩],
        .ok ⟨[⟨"q", "s"⟩], [keyItem ⟨"q", "s"⟩], [⟨"p", "s"⟩]⟩⟩ (.answer 200 oneFound) :=
      ⟨.swap .., .refl _, _, first, .keys (List.cons_ne_nil _ _) rfl⟩
    have other : (reads "t").Answers (Serves fun key => some (keyItem key)) ⟨[⟨"p", "s"⟩],
        .ok ⟨[⟨"p", "s"⟩], [keyItem ⟨"p", "s"⟩], []⟩⟩ (.answer 200 otherFound) :=
      ⟨.refl _, .refl _, _, second, .nothing⟩
    exact .share one (.share other .finished)
  obtain ⟨rounds, requests, result, next, ran, sent, gathering⟩ := batchGet_gathers_stored_items "t"
    (fun key => some (keyItem key)) [⟨"p", "s"⟩, ⟨"q", "s"⟩] (World.ofState servedTwice) honest
  obtain ⟨after, also, calls⟩ := servedTwice_run
  cases ran.symm.trans also
  obtain rfl : requests = [firstAsked, laterAsked] := by
    refine List.map_injective_iff.mpr (fun _ _ same => Call.batchGet.inj same) ?_
    exact sent.symm.trans calls
  exact ⟨honest, rounds, next, ran, calls, gathering⟩

end SharedTable.Remote
