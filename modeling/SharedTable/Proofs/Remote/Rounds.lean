import SharedTable.Proofs.Remote.Course

set_option autoImplicit false

namespace SharedTable.Remote

/--
A dialogue whose work is a list of units: which units a request asks for, what a reply gives for them,
and how it can fail. Each field is a fact of one request; rounds are put together from them below.
-/
structure Protocol (ε κ β : Type) extends Dialogue ε β where
  work : List κ → ε
  asks : List κ → Pending ε → Prop
  gives : Reply → List β → Pending ε → Prop
  fails : Reply → Fault → Prop
  size_work : ∀ units, batch.size (work units) = units.length
  asks_work : ∀ {units}, units ≠ [] → asks units [(batch.table, work units)]
  eq_nil_iff : ∀ {units pending}, asks units pending → (pending = [] ↔ units = [])
  total_eq : ∀ {units pending}, asks units pending → pending.total batch.size = units.length
  canBeMade : ∀ {units pending}, asks units pending → (batch.call pending).canBeMade
  said_of_gives : ∀ {reply results left}, gives reply results left → said reply = .ok (results, left)
  said_of_fails : ∀ {reply fault}, fails reply fault → ∃ found, said reply = .error found ∧
    fails reply found

structure Share (κ β : Type) where
  accepted : List κ
  results : List β
  left : List κ

structure Round (κ β : Type) where
  submitted : List κ
  answer : Except Fault (Share κ β)

namespace Round

variable {κ β : Type}

def accepted (round : Round κ β) : List κ :=
  match round.answer with
  | .error _ => []
  | .ok share => share.accepted

def results (round : Round κ β) : List β :=
  match round.answer with
  | .error _ => []
  | .ok share => share.results

-- After a failed request nothing that it was about counts as accepted.
def left (round : Round κ β) : List κ :=
  match round.answer with
  | .error _ => round.submitted
  | .ok share => share.left

def GoesOnIn (earlier later : Round κ β) : Prop :=
  ∃ share, earlier.answer = .ok share ∧ share.left ≠ [] ∧ later.submitted = share.left

end Round

namespace Protocol

variable {ε κ β : Type} (protocol : Protocol ε κ β)

/--
Whether a reply is the answer of a round: a fault, or a division of the request into units accepted and
units left, with results for the first, where what it leaves unprocessed asks for the second.
-/
def Answers (serves : List κ → List β → Prop) (round : Round κ β) (reply : Reply) : Prop :=
  match round.answer with
  | .error fault => protocol.fails reply fault
  | .ok share =>
    (share.accepted ++ share.left).Perm round.submitted ∧ serves share.accepted share.results ∧
      ∃ unprocessed, protocol.gives reply share.results unprocessed ∧
        protocol.asks share.left (unprocessed.nonempty protocol.batch.size)

/--
Whether replies answer a number of requests, of which the first is about some units and every other
about what the answer before left. Where no reply is left, a request cannot be sent.
-/
inductive Honest (serves : List κ → List β → Prop) : Nat → List κ → List Reply → Prop
  | spent {units replies} : Honest serves 0 units replies
  | finished {attempts replies} : Honest serves attempts [] replies
  | fault {attempts units replies fault}
    (answers : protocol.Answers serves ⟨units, .error fault⟩ (replies.headD .broken)) :
    Honest serves (attempts + 1) units replies
  | share {attempts units replies share}
    (answers : protocol.Answers serves ⟨units, .ok share⟩ (replies.headD .broken))
    (rest : Honest serves attempts share.left replies.tail) :
    Honest serves (attempts + 1) units replies

inductive Exchanged (serves : List κ → List β → Prop) :
    Nat → List κ → List Reply → List (Round κ β) → Prop
  | spent {units replies} : Exchanged serves 0 units replies []
  | finished {attempts replies} : Exchanged serves attempts [] replies []
  | fault {attempts units replies fault} (some : units ≠ [])
    (answers : protocol.Answers serves ⟨units, .error fault⟩ (replies.headD .broken)) :
    Exchanged serves (attempts + 1) units replies [⟨units, .error fault⟩]
  | share {attempts units replies share rounds} (some : units ≠ [])
    (answers : protocol.Answers serves ⟨units, .ok share⟩ (replies.headD .broken))
    (rest : Exchanged serves attempts share.left replies.tail rounds) :
    Exchanged serves (attempts + 1) units replies (⟨units, .ok share⟩ :: rounds)

def verdict (rounds : List (Round κ β)) : Except Fault (List β) :=
  match rounds.getLast? with
  | none => .ok []
  | some ⟨_, .error fault⟩ => .error fault
  | some ⟨_, .ok share⟩ =>
    if share.left = [] then .ok (rounds.flatMap Round.results)
    else .error (unprocessed protocol.batch.what share.left.length)

variable {protocol} {serves : List κ → List β → Prop}

theorem eq_of_verdict {rounds : List (Round κ β)} {results : List β}
    (succeeds : protocol.verdict rounds = .ok results) : results = rounds.flatMap Round.results := by
  unfold verdict at succeeds
  rcases closing : rounds.getLast? with - | ⟨submitted, fault | share⟩
  all_goals rw [closing] at succeeds
  next =>
    cases succeeds
    rw [List.getLast?_eq_none_iff.mp closing, List.flatMap_nil]
  next => cases succeeds
  next =>
    dsimp only at succeeds
    split at succeeds
    next => cases succeeds; rfl
    next => cases succeeds

inductive Shows : Round κ β → Exchange ε β → Prop
  | fault {units pending fault} (asks : protocol.asks units pending) :
    Shows ⟨units, .error fault⟩ ⟨pending, .error fault⟩
  | share {units pending share left} (asks : protocol.asks units pending)
    (leaves : protocol.asks share.left left) :
    Shows ⟨units, .ok share⟩ ⟨pending, .ok (share.results, left)⟩

namespace Shows

variable {round : Round κ β} {exchange : Exchange ε β}

theorem asks (shows_ : protocol.Shows round exchange) :
    protocol.asks round.submitted exchange.submitted := by
  cases shows_ with
  | fault asks => exact asks
  | share asks => exact asks

theorem results_eq (shows_ : protocol.Shows round exchange) : exchange.results = round.results := by
  cases shows_ <;> rfl

end Shows

theorem Honest.course {attempts : Nat} {units : List κ} {replies : List Reply} {pending : Pending ε}
    (honest : protocol.Honest serves attempts units replies) (asks : protocol.asks units pending)
    (some : units ≠ []) :
    ∃ rounds, protocol.Exchanged serves attempts units replies rounds ∧
      List.Forall₂ protocol.Shows rounds (protocol.course attempts pending replies) := by
  induction honest generalizing pending with
  | spent => exact ⟨[], .spent, .nil⟩
  | finished => exact absurd rfl some
  | @fault _ _ replies _ answers =>
    obtain ⟨fault, said, fails⟩ := protocol.said_of_fails answers
    refine ⟨_, .fault some fails, ?_⟩
    rw [Dialogue.course_fault (congrArg (Except.map _) said)]
    exact .cons (.fault asks) .nil
  | @share _ _ replies share answers _ ih =>
    obtain ⟨unprocessed, gives, leaves⟩ := answers.2.2
    have answer : (protocol.exchange pending (replies.headD .broken)).answer =
        .ok (share.results, unprocessed.nonempty protocol.batch.size) :=
      congrArg (Except.map _) (protocol.said_of_gives gives)
    by_cases nothing : share.left = []
    next =>
      have rest {attempts replies} : protocol.Exchanged serves attempts share.left replies [] := by
        rw [nothing]
        exact .finished
      have finished := protocol.eq_nil_iff leaves |>.mpr nothing
      refine ⟨_, .share some answers rest, ?_⟩
      rw [Dialogue.course_finished (finished ▸ answer)]
      exact .cons (.share asks (finished ▸ leaves)) .nil
    next =>
      obtain ⟨rounds, exchanged, course⟩ := ih leaves nothing
      refine ⟨_, .share some answers exchanged, ?_⟩
      rw [Dialogue.course_further answer (mt (protocol.eq_nil_iff leaves).mp nothing)]
      exact .cons (.share asks leaves) course

theorem ending_eq {rounds : List (Round κ β)} {course : List (Exchange ε β)}
    (course_shown : List.Forall₂ protocol.Shows rounds course) :
    protocol.ending course = protocol.verdict rounds := by
  have results : course.flatMap Exchange.results = rounds.flatMap Round.results := by
    induction course_shown with
    | nil => rfl
    | cons first _ ih => rw [List.flatMap_cons, List.flatMap_cons, first.results_eq, ih]
  have backwards := List.forall₂_reverse_iff.mpr course_shown
  unfold Dialogue.ending verdict
  rw [List.getLast?_eq_head?_reverse, List.getLast?_eq_head?_reverse, results]
  generalize course.reverse = exchanges, rounds.reverse = others at backwards
  cases backwards with
  | nil => rfl
  | cons last =>
    cases last with
    | fault => rfl
    | share _ leaves =>
      simp only [List.head?_cons, protocol.eq_nil_iff leaves, protocol.total_eq leaves]

theorem start_of_ne_nil {units : List κ} (some : units ≠ []) :
    protocol.batch.start (protocol.work units) =
      protocol.batch.submit (maxAttempts - 1) [(protocol.batch.table, protocol.work units)] [] :=
  if_neg fun nothing => some (List.length_eq_zero_iff.mp (protocol.size_work units ▸ nothing))

theorem start_nil : protocol.batch.start (protocol.work []) = .finish [] :=
  if_pos (protocol.size_work [])

/-- The requests of rounds: the first is about all units, each other is what the reply before left. -/
structure Requests (protocol : Protocol ε κ β) (units : List κ) (replies : List Reply)
    (rounds : List (Round κ β)) (requests : List (Pending ε)) : Prop where
  asked : List.Forall₂ (fun round pending => protocol.asks round.submitted pending) rounds requests
  opening : requests.head? =
    if units = [] then none else some [(protocol.batch.table, protocol.work units)]
  resent : ∀ place pending, requests[place + 1]? = some pending → ∃ results unprocessed,
    protocol.said (replies.getD place .broken) = .ok (results, unprocessed) ∧
      pending = unprocessed.nonempty protocol.batch.size

theorem requests_course {units : List κ} {replies : List Reply} {rounds : List (Round κ β)}
    {pending : Pending ε} (opening : pending = [(protocol.batch.table, protocol.work units)])
    (some : units ≠ [])
    (shown : List.Forall₂ protocol.Shows rounds (protocol.course maxAttempts pending replies)) :
    protocol.Requests units replies rounds
      ((protocol.course maxAttempts pending replies).map Exchange.submitted) where
  asked := List.forall₂_map_right_iff.mpr (shown.imp fun _ _ => Shows.asks)
  opening := by
    rw [if_neg some, ← opening]
    rfl
  resent place pending found := by
    rw [List.getElem?_map] at found
    obtain ⟨exchange, made, rfl⟩ := Option.map_eq_some_iff.mp found
    exact Dialogue.resent_course _ _ _ made

theorem start_run {units : List κ} {world : World Peer}
    (honest : protocol.Honest serves maxAttempts units world.state.replies) :
    ∃ rounds requests next, protocol.Exchanged serves maxAttempts units world.state.replies rounds ∧
      protocol.Requests units world.state.replies rounds requests ∧
      ExceptT.run (protocol.batch.start (protocol.work units)).run world =
        (protocol.verdict rounds, next) ∧
      next.state = world.state.after (requests.map protocol.batch.call) := by
  by_cases nothing : units = []
  next =>
    subst nothing
    rw [start_nil]
    exact ⟨[], [], world, .finished, ⟨.nil, rfl, fun _ _ found => nomatch found⟩,
      Task.run_finish [] world, (Peer.after_nil _).symm⟩
  next =>
    obtain ⟨rounds, exchanged, shown⟩ := honest.course (protocol.asks_work nothing) nothing
    obtain ⟨next, ran, sent⟩ := protocol.course_run rfl fun exchange member => by
      obtain ⟨round, _, shows_⟩ := exists_of_mem_right shown member
      exact protocol.canBeMade shows_.asks
    refine ⟨rounds, _, next, exchanged, requests_course rfl nothing shown, ?_, ?_⟩
    · rw [start_of_ne_nil nothing, ← ending_eq shown]
      exact ran
    · rw [sent, Dialogue.calls, List.map_map]
      rfl

namespace Exchanged

variable {attempts : Nat} {units : List κ} {replies : List Reply} {rounds : List (Round κ β)}

theorem length_le (exchanged : protocol.Exchanged serves attempts units replies rounds) :
    rounds.length ≤ attempts := by
  induction exchanged with
  | spent => exact Nat.zero_le _
  | finished => exact Nat.zero_le _
  | fault => exact Nat.succ_le_succ (Nat.zero_le _)
  | share _ _ _ ih => exact Nat.succ_le_succ ih

theorem submitted_ne_nil
    (exchanged : protocol.Exchanged serves attempts units replies rounds) :
    ∀ round ∈ rounds, round.submitted ≠ [] := by
  induction exchanged with
  | spent => exact fun _ member => nomatch member
  | finished => exact fun _ member => nomatch member
  | fault some => exact List.forall_mem_singleton.mpr some
  | share some _ _ ih => exact List.forall_mem_cons.mpr ⟨some, ih⟩

theorem of_nil (exchanged : protocol.Exchanged serves attempts units replies []) :
    attempts = 0 ∨ units = [] := by
  cases exchanged with
  | spent => exact .inl rfl
  | finished => exact .inr rfl

theorem submitted_head (exchanged : protocol.Exchanged serves attempts units replies rounds)
    {first : Round κ β} (opening : rounds.head? = some first) :
    units ≠ [] ∧ first.submitted = units := by
  cases exchanged with
  | spent => cases opening
  | finished => cases opening
  | fault some => cases opening; exact ⟨some, rfl⟩
  | share some => cases opening; exact ⟨some, rfl⟩

theorem isChain (exchanged : protocol.Exchanged serves attempts units replies rounds) :
    rounds.IsChain Round.GoesOnIn := by
  induction exchanged with
  | spent => exact .nil
  | finished => exact .nil
  | fault => exact .singleton _
  | @share _ _ _ share _ _ _ rest ih =>
    refine List.isChain_cons.mpr ⟨fun later opening => ?_, ih⟩
    obtain ⟨something, submitted⟩ := rest.submitted_head opening
    exact ⟨share, rfl, something, submitted⟩

theorem answers_getElem (exchanged : protocol.Exchanged serves attempts units replies rounds)
    (place : Nat) (inside : place < rounds.length) :
    protocol.Answers serves rounds[place] (replies.getD place .broken) := by
  induction exchanged generalizing place with
  | spent => cases inside
  | finished => cases inside
  | @fault _ _ replies _ _ answers =>
    obtain rfl : place = 0 := Nat.lt_one_iff.mp inside
    simpa [List.headD_eq_head?_getD, List.head?_eq_getElem?] using answers
  | @share _ _ replies _ _ _ answers _ ih =>
    cases place with
    | zero => simpa [List.headD_eq_head?_getD, List.head?_eq_getElem?] using answers
    | succ place => simpa using ih place (Nat.lt_of_succ_lt_succ inside)

theorem length_eq (exchanged : protocol.Exchanged serves attempts units replies rounds)
    {last : Round κ β} {share : Share κ β} (closing : rounds.getLast? = some last)
    (answer : last.answer = .ok share) (something : share.left ≠ []) : rounds.length = attempts := by
  induction exchanged with
  | spent => rfl
  | finished => cases closing
  | fault => cases closing; cases answer
  | @share attempts _ _ first rounds _ _ rest ih =>
    cases rounds with
    | nil =>
      cases closing
      cases answer
      obtain rfl : attempts = 0 := rest.of_nil.resolve_right something
      rfl
    | cons => exact congrArg _ (ih (List.getLast?_cons_cons ▸ closing))

theorem accepted_append_left (exchanged : protocol.Exchanged serves attempts units replies rounds) :
    (rounds.flatMap Round.accepted ++ (rounds.getLast?.map Round.left).getD units).Perm units := by
  induction exchanged with
  | spent => exact .refl _
  | finished => exact .refl _
  | fault => exact .refl _
  | @share _ units _ share rounds _ answers _ ih =>
    have last : ((⟨units, .ok share⟩ :: rounds).getLast?.map Round.left).getD units =
        (rounds.getLast?.map Round.left).getD share.left := by
      rw [List.getLast?_cons]
      cases rounds.getLast? <;> rfl
    rw [last, List.flatMap_cons, List.append_assoc]
    exact (ih.append_left share.accepted).trans answers.1

theorem map_requests {γ : Type} {f : Pending ε → γ} {g : Round κ β → γ} {requests : List (Pending ε)}
    (exchanged : protocol.Exchanged serves attempts units replies rounds)
    (requested : protocol.Requests units replies rounds requests)
    (same : ∀ (round : Round κ β) pending, round.submitted ≠ [] → protocol.asks round.submitted pending →
      f pending = g round) : requests.map f = rounds.map g := by
  have each := (List.forall₂_and_left _ _).mpr ⟨exchanged.submitted_ne_nil, requested.asked⟩
  rw [← List.forall₂_eq_eq_eq]
  refine List.forall₂_map_left_iff.mpr (List.forall₂_map_right_iff.mpr (each.flip.imp ?_))
  exact fun pending round related => same round pending related.1 related.2

theorem head?_submitted (exchanged : protocol.Exchanged serves (attempts + 1) units replies rounds) :
    rounds.head?.map Round.submitted = if units = [] then none else some units := by
  rcases opening : rounds.head? with - | first
  next =>
    obtain rfl := List.head?_eq_none_iff.mp opening
    exact (if_pos (exchanged.of_nil.resolve_left (Nat.succ_ne_zero _))).symm
  next =>
    obtain ⟨something, submitted⟩ := exchanged.submitted_head opening
    rw [if_neg something, Option.map_some, submitted]

theorem accepted_perm (exchanged : protocol.Exchanged serves (attempts + 1) units replies rounds)
    {results : List β} (succeeds : protocol.verdict rounds = .ok results) :
    (rounds.flatMap Round.accepted).Perm units := by
  have all := exchanged.accepted_append_left
  unfold verdict at succeeds
  rcases closing : rounds.getLast? with - | ⟨submitted, fault | share⟩
  all_goals rw [closing] at succeeds all
  next =>
    obtain rfl := List.getLast?_eq_none_iff.mp closing
    rw [exchanged.of_nil.resolve_left (Nat.succ_ne_zero _)]
    exact .refl _
  next => cases succeeds
  next =>
    by_cases nothing : share.left = []
    next => simpa [Round.left, nothing] using all
    next => simp [nothing] at succeeds

theorem verdict_cons {first : Round κ β} {fault : Fault} (more : rounds ≠ [])
    (failed : protocol.verdict rounds = .error fault) :
    protocol.verdict (first :: rounds) = .error fault := by
  unfold verdict at failed ⊢
  rw [List.getLast?_cons, List.getLast?_eq_some_getLast more, Option.getD_some]
  rw [List.getLast?_eq_some_getLast more] at failed
  rcases last : rounds.getLast more with ⟨submitted, fault | share⟩
  all_goals rw [last] at failed
  next => exact failed
  next =>
    by_cases nothing : share.left = []
    next => simp [nothing] at failed
    next => simpa [nothing] using failed

theorem verdict_of_fault (exchanged : protocol.Exchanged serves attempts units replies rounds)
    {round : Round κ β} {fault : Fault} (member : round ∈ rounds) (failed : round.answer = .error fault) :
    protocol.verdict rounds = .error fault := by
  induction exchanged with
  | spent => cases member
  | finished => cases member
  | fault =>
    obtain rfl := List.mem_singleton.mp member
    cases failed
    rfl
  | share _ _ _ ih =>
    obtain rfl | later := List.mem_cons.mp member
    next => cases failed
    next => exact verdict_cons (List.ne_nil_of_mem later) (ih later)

end Exchanged

end Protocol

end SharedTable.Remote
