import Mathlib.Data.List.Chain
import SharedTable.Proofs.Except
import SharedTable.Proofs.Task
import SharedTable.Remote.Service

/-!
The requests of a batch, one after the other, and what comes of each of them. Whatever the service
leaves of a request is sent again, until nothing is left, a request fails, or the attempts are spent.
-/

set_option autoImplicit false

namespace SharedTable.Remote

def Peer.after (peer : Peer) (calls : List Call) : Peer :=
  ⟨peer.replies.drop calls.length, peer.sent ++ calls⟩

@[simp] theorem Peer.after_nil (peer : Peer) : peer.after [] = peer := by
  simp [after]

theorem Peer.after_after (peer : Peer) (calls more : List Call) :
    (peer.after calls).after more = peer.after (calls ++ more) := by
  simp [after]

def called (world : World Peer) (call : Call) : World Peer :=
  { world with state := world.state.after [call] }

theorem Peer.exchange_run {call : Call} (made : call.canBeMade) (world : World Peer) :
    (exchange call).run world =
      (.ok (world.state.replies.headD .broken), called world call) := by
  simp only [exchange, made, Bool.not_true, called, after, List.length_singleton, List.drop_one]
  rfl

def refused (operation : Operation) (error : EngineFault) : Fault :=
  if operation = .putItem && ServiceError.isRefusal error then .conditionFailed
  else .engine operation error

/-- The result that an operation reads from a reply, or the fault that the reply stands for. -/
def heard {α : Type} (operation : Operation) (read : Document.Reading α) : Reply → Except Fault α
  | .timeout => .error (.connection .timedOut)
  | .broken => .error (.connection .dispatch)
  | .answer status body =>
    if 200 ≤ status ∧ status < 300 then
      match (answerDocument? body).bind (read Document.readDepth) with
      | some result => .ok result
      | none => .error (.engine operation (.unhandled none))
    else .error (refused operation (ServiceError.ofBody operation body))

theorem refusal_run (operation : Operation) (error : EngineFault) (world : World Peer) :
    ∃ next, (refusal operation error).run world = (.ok (refused operation error), next) ∧
      next.state = world.state := by
  unfold refusal refused
  split
  · exact ⟨world, rfl, rfl⟩
  · split
    · exact ⟨_, rfl, rfl⟩
    · exact ⟨world, rfl, rfl⟩

theorem receive_run {α : Type} (operation : Operation) (read : Document.Reading α) (reply : Reply)
    (world : World Peer) :
    ∃ next, (receive operation read reply).run world = (heard operation read reply, next) ∧
      next.state = world.state := by
  cases reply with
  | timeout => exact ⟨world, rfl, rfl⟩
  | broken => exact ⟨world, rfl, rfl⟩
  | answer status body =>
    unfold receive heard
    dsimp only
    split
    · cases (answerDocument? body).bind (read Document.readDepth) <;> exact ⟨world, rfl, rfl⟩
    · obtain ⟨next, ran, kept⟩ := refusal_run operation (ServiceError.ofBody operation body) world
      exact ⟨next, Action.run_bind_ok ran, kept⟩

structure Dialogue (ε β : Type) where
  batch : Submission ε β
  said : Reply → Except Fault (List β × Pending ε)
  said_timeout : said .timeout = .error (.connection .timedOut)
  read_run : ∀ (reply : Reply) (world : World Peer), ∃ next,
    (batch.read reply).run world = (said reply, next) ∧ next.state = world.state

/-- A request, and its results with the work left of it, or the fault that it ended in. -/
structure Exchange (ε β : Type) where
  submitted : Pending ε
  answer : Except Fault (List β × Pending ε)

namespace Exchange

variable {ε β : Type}

def results (exchange : Exchange ε β) : List β :=
  match exchange.answer with
  | .error _ => []
  | .ok (results, _) => results

def left (exchange : Exchange ε β) : Pending ε :=
  match exchange.answer with
  | .error _ => []
  | .ok (_, left) => left

end Exchange

namespace Dialogue

variable {ε β : Type} (dialogue : Dialogue ε β)

def exchange (pending : Pending ε) (reply : Reply) : Exchange ε β :=
  ⟨pending, (dialogue.said reply).map fun (results, unprocessed) =>
    (results, unprocessed.nonempty dialogue.batch.size)⟩

def course : Nat → Pending ε → List Reply → List (Exchange ε β)
  | 0, _, _ => []
  | attempts + 1, pending, replies =>
    let exchange := dialogue.exchange pending (replies.headD .broken)
    exchange :: if exchange.left = [] then [] else course attempts exchange.left replies.tail

def ending (course : List (Exchange ε β)) : Except Fault (List β) :=
  match course.getLast? with
  | none => .ok []
  | some ⟨_, .error fault⟩ => .error fault
  | some ⟨_, .ok (_, left)⟩ =>
    if left = [] then .ok (course.flatMap Exchange.results)
    else .error (unprocessed dialogue.batch.what (left.total dialogue.batch.size))

section Course

variable {dialogue} {attempts : Nat} {pending left : Pending ε} {replies : List Reply}
  {results : List β} {fault : Fault}

theorem course_fault
    (answer : (dialogue.exchange pending (replies.headD .broken)).answer = .error fault) :
    dialogue.course (attempts + 1) pending replies = [⟨pending, .error fault⟩] := by
  have exchange : dialogue.exchange pending (replies.headD .broken) = ⟨pending, .error fault⟩ :=
    congrArg (Exchange.mk pending) answer
  simp only [course, exchange, Exchange.left, if_true]

theorem course_finished
    (answer : (dialogue.exchange pending (replies.headD .broken)).answer = .ok (results, [])) :
    dialogue.course (attempts + 1) pending replies = [⟨pending, .ok (results, [])⟩] := by
  have exchange : dialogue.exchange pending (replies.headD .broken) = ⟨pending, .ok (results, [])⟩ :=
    congrArg (Exchange.mk pending) answer
  simp only [course, exchange, Exchange.left, if_true]

theorem course_further
    (answer : (dialogue.exchange pending (replies.headD .broken)).answer = .ok (results, left))
    (something : left ≠ []) :
    dialogue.course (attempts + 1) pending replies =
      ⟨pending, .ok (results, left)⟩ :: dialogue.course attempts left replies.tail := by
  have exchange : dialogue.exchange pending (replies.headD .broken) = ⟨pending, .ok (results, left)⟩ :=
    congrArg (Exchange.mk pending) answer
  simp only [course, exchange, Exchange.left, something, if_false]

theorem course_ne_nil : dialogue.course (attempts + 1) pending replies ≠ [] :=
  List.cons_ne_nil _ _

end Course

section Ending

variable {dialogue} {pending left : Pending ε} {results : List β} {rest : List (Exchange ε β)}

theorem ending_finished : dialogue.ending [⟨pending, .ok (results, [])⟩] = .ok results := by
  simp [ending, Exchange.results]

theorem ending_unfinished (something : left ≠ []) :
    dialogue.ending [⟨pending, .ok (results, left)⟩] =
      .error (unprocessed dialogue.batch.what (left.total dialogue.batch.size)) := by
  simp [ending, something]

theorem ending_cons (more : rest ≠ []) :
    dialogue.ending (⟨pending, .ok (results, left)⟩ :: rest) =
      (dialogue.ending rest).map (results ++ ·) := by
  unfold ending
  rw [List.getLast?_cons, List.getLast?_eq_some_getLast more, Option.getD_some]
  rcases rest.getLast more with ⟨submitted, fault | ⟨found, remaining⟩⟩
  next => rfl
  next =>
    dsimp only
    split <;> simp [Except.map, Exchange.results]

end Ending

section Attempt

def attempt {retries : Nat} (pending : Pending ε) (done : List β)
    (next : Pending ε → List β → Action Peer (Stretch (Task Peer (List β) retries) (List β))) :
    Action Peer (Stretch (Task Peer (List β) retries) (List β)) :=
  dialogue.batch.attempt pending done next

variable {dialogue} {retries : Nat} {pending left : Pending ε} {results : List β} {fault : Fault}
  {world : World Peer} (done : List β)
  (next : Pending ε → List β → Action Peer (Stretch (Task Peer (List β) retries) (List β)))

theorem attempt_late (made : (dialogue.batch.call pending).canBeMade)
    (late : world.state.replies.headD .broken = .timeout) :
    (dialogue.attempt pending done next).run world =
      (.ok (.pause patience (.fail (.connection .timedOut))),
        called world (dialogue.batch.call pending)) := by
  refine (Action.run_bind_ok (Peer.exchange_run made world)).trans ?_
  rw [late]
  rfl

theorem attempt_fault (made : (dialogue.batch.call pending).canBeMade)
    (answer : (dialogue.exchange pending (world.state.replies.headD .broken)).answer = .error fault) :
    ∃ after, ExceptT.run (@Task.run _ _ (retries + 1) (dialogue.attempt pending done next)) world =
        (.error fault, after) ∧
      after.state = world.state.after [dialogue.batch.call pending] := by
  have said : dialogue.said (world.state.replies.headD .broken) = .error fault :=
    map_eq_error_iff.mp answer
  by_cases late : world.state.replies.headD .broken = .timeout
  next =>
    rw [late, dialogue.said_timeout] at said
    cases said
    exact ⟨_, (Task.run_of_pause (attempt_late done next made late)).trans (Task.run_fail _ _), rfl⟩
  next =>
    obtain ⟨after, read, kept⟩ := dialogue.read_run (world.state.replies.headD .broken)
      (called world (dialogue.batch.call pending))
    rw [said] at read
    refine ⟨after, Task.run_of_error ?_, kept⟩
    refine (Action.run_bind_ok (Peer.exchange_run made world)).trans ?_
    rw [if_neg late]
    exact Action.run_bind_error read

theorem attempt_ok (made : (dialogue.batch.call pending).canBeMade)
    (answer : (dialogue.exchange pending (world.state.replies.headD .broken)).answer =
      .ok (results, left)) :
    ∃ after, after.state = world.state.after [dialogue.batch.call pending] ∧
      (dialogue.attempt pending done next).run world =
        if left = [] then (.ok (.done (done ++ results)), after)
        else (next left (done ++ results)).run after := by
  obtain ⟨⟨found, unprocessed⟩, said, same⟩ := map_eq_ok_iff.mp answer
  cases same
  have late : world.state.replies.headD .broken ≠ .timeout := by
    intro late
    rw [late, dialogue.said_timeout] at said
    cases said
  obtain ⟨after, read, kept⟩ := dialogue.read_run (world.state.replies.headD .broken)
    (called world (dialogue.batch.call pending))
  rw [said] at read
  refine ⟨after, kept, ?_⟩
  refine (Action.run_bind_ok (Peer.exchange_run made world)).trans ?_
  rw [if_neg late]
  refine (Action.run_bind_ok read).trans ?_
  dsimp only
  cases unprocessed.nonempty dialogue.batch.size <;> rfl

end Attempt

def goOn : (retries : Nat) → Pending ε → List β →
    Action Peer (Stretch (Task Peer (List β) retries) (List β))
  | 0, left, _ => throw (unprocessed dialogue.batch.what (left.total dialogue.batch.size))
  | retries + 1, left, done => do
    let attempt := maxAttempts - 1 - retries
    Action.report (.resubmitting dialogue.batch.what dialogue.batch.table attempt
      (left.total dialogue.batch.size))
    return .pause (retryDelay attempt) (dialogue.batch.submit retries left done)

theorem submit_eq_attempt (retries : Nat) (pending : Pending ε) (done : List β) :
    dialogue.batch.submit retries pending done =
      dialogue.attempt pending done (dialogue.goOn retries) := by
  cases retries <;> rfl

theorem goOn_succ (retries : Nat) (left : Pending ε) (done : List β) (world : World Peer) :
    ∃ delay next, next.state = world.state ∧
      (dialogue.goOn (retries + 1) left done).run world =
        (.ok (.pause delay (dialogue.batch.submit retries left done)), next) :=
  ⟨_, world.reported _, rfl, rfl⟩

def calls (course : List (Exchange ε β)) : List Call :=
  course.map fun exchange => dialogue.batch.call exchange.submitted

/-- A batch runs through its course, with one call for each exchange, if all of them can be made. -/
theorem submit_run (retries : Nat) (pending : Pending ε) (done : List β) {world : World Peer}
    {course : List (Exchange ε β)}
    (run : dialogue.course (retries + 1) pending world.state.replies = course)
    (made : ∀ exchange ∈ course, (dialogue.batch.call exchange.submitted).canBeMade) :
    ∃ next, ExceptT.run (dialogue.batch.submit retries pending done).run world =
        ((dialogue.ending course).map (done ++ ·), next) ∧
      next.state = world.state.after (dialogue.calls course) := by
  rw [submit_eq_attempt]
  rcases answer : (dialogue.exchange pending (world.state.replies.headD .broken)).answer with
    fault | ⟨results, left⟩
  next =>
    obtain rfl := (course_fault answer).symm.trans run
    obtain ⟨next, ran, sent⟩ := attempt_fault done (dialogue.goOn retries) (made _ List.mem_cons_self) answer
    exact ⟨next, ran, sent⟩
  next =>
    by_cases nothing : left = []
    next =>
      subst nothing
      obtain rfl := (course_finished answer).symm.trans run
      obtain ⟨next, sent, ran⟩ := attempt_ok done (dialogue.goOn retries) (made _ List.mem_cons_self) answer
      refine ⟨next, ?_, sent⟩
      rw [ending_finished]
      exact Task.run_of_done (ran.trans (if_pos rfl))
    next =>
      obtain rfl := (course_further answer nothing).symm.trans run
      obtain ⟨after, sent, ran⟩ := attempt_ok done (dialogue.goOn retries) (made _ List.mem_cons_self) answer
      rw [if_neg nothing] at ran
      cases retries with
      | zero =>
        refine ⟨after, ?_, sent⟩
        rw [course, ending_unfinished nothing]
        exact Task.run_of_error ran
      | succ retries =>
        obtain ⟨delay, resting, kept, paused⟩ := dialogue.goOn_succ retries left (done ++ results) after
        rw [Task.run_of_pause (ran.trans paused)]
        have state : (resting.waited delay).state = world.state.after [dialogue.batch.call pending] := by
          rw [World.waited_state, kept, sent]
        have replies : (resting.waited delay).state.replies = world.state.replies.tail := by
          rw [state, Peer.after, List.length_singleton, List.drop_one]
        obtain ⟨next, resumed, resent⟩ :=
          submit_run retries left (done ++ results) (congrArg (dialogue.course _ left) replies)
            fun exchange later => made exchange (List.mem_cons_of_mem _ later)
        refine ⟨next, ?_, ?_⟩
        · rw [resumed, ending_cons course_ne_nil]
          cases dialogue.ending _ <;> simp [Except.map]
        · rw [resent, state, Peer.after_after]
          rfl

theorem course_run {pending : Pending ε} {world : World Peer} {course : List (Exchange ε β)}
    (run : dialogue.course maxAttempts pending world.state.replies = course)
    (made : ∀ exchange ∈ course, (dialogue.batch.call exchange.submitted).canBeMade) :
    ∃ next, ExceptT.run (dialogue.batch.submit (maxAttempts - 1) pending []).run world =
        (dialogue.ending course, next) ∧
      next.state = world.state.after (dialogue.calls course) := by
  obtain ⟨next, ran, sent⟩ := dialogue.submit_run (maxAttempts - 1) pending [] run made
  refine ⟨next, ran.trans ?_, sent⟩
  cases dialogue.ending course <;> rfl

variable {dialogue} (attempts : Nat) (pending : Pending ε) (replies : List Reply)

theorem head?_course {first : Exchange ε β}
    (opening : (dialogue.course attempts pending replies).head? = some first) :
    first.submitted = pending := by
  cases attempts with
  | zero => cases opening
  | succ => cases opening; rfl

theorem said_of_left {reply : Reply} (something : (dialogue.exchange pending reply).left ≠ []) :
    ∃ results unprocessed, dialogue.said reply = .ok (results, unprocessed) ∧
      (dialogue.exchange pending reply).left = unprocessed.nonempty dialogue.batch.size := by
  rcases said : dialogue.said reply with fault | ⟨results, unprocessed⟩
  next => simp [exchange, Exchange.left, said, Except.map] at something
  next => exact ⟨results, unprocessed, rfl, by simp [exchange, Exchange.left, said, Except.map]⟩

theorem resent_course {place : Nat} {exchange : Exchange ε β}
    (found : (dialogue.course attempts pending replies)[place + 1]? = some exchange) :
    ∃ results unprocessed, dialogue.said (replies.getD place .broken) = .ok (results, unprocessed) ∧
      exchange.submitted = unprocessed.nonempty dialogue.batch.size := by
  induction attempts generalizing pending replies place with
  | zero => cases found
  | succ attempts ih =>
    rw [course, List.getElem?_cons_succ] at found
    split at found
    next => cases found
    next something =>
      cases place with
      | zero =>
        rw [← List.head?_eq_getElem?] at found
        rw [head?_course _ _ _ found]
        have first : replies.headD .broken = replies.getD 0 .broken := by cases replies <;> rfl
        rw [first] at something ⊢
        exact said_of_left _ something
      | succ place =>
        have later : replies.tail.getD place .broken = replies.getD (place + 1) .broken := by
          cases replies <;> rfl
        rw [← later]
        exact ih _ _ found

end Dialogue

end SharedTable.Remote
