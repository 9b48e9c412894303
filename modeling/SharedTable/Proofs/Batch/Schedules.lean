import Mathlib.Algebra.Ring.Nat
import SharedTable.Proofs.Batch.Course
import SharedTable.Proofs.Batch.Dispatch

/-!
Schedules against courses. Whatever a schedule picks, the run of a batch takes one of its courses; and
every course is the run under some schedule, so nothing short of all courses bounds what a batch does.
-/

set_option autoImplicit false

namespace SharedTable.Batch

variable {σ ε β : Type}

namespace Stage

def begun {pauses : Nat} (operation : List ε → Task σ β pauses) (count : Nat) (stage : Stage σ ε β) :
    Stage σ ε β where
  world := stage.world
  waiting := stage.waiting.drop count
  flying := stage.flying ++ (stage.waiting.take count).map fun held =>
    (held.2, ⟨stage.world.clock, pauses, operation held.1⟩)
  results := stage.results

theorem begun_succ {pauses : Nat} (operation : List ε → Task σ β pauses) (count : Nat) (world : World σ)
    (chunk : List ε) (number : Nat) (waiting : List (List ε × Nat)) (flying : List (Nat × Flight σ β))
    (results : List β) :
    begun operation (count + 1) ⟨world, (chunk, number) :: waiting, flying, results⟩ =
      begun operation count
        ⟨world, waiting, flying ++ [(number, ⟨world.clock, pauses, operation chunk⟩)], results⟩ := by
  simp [begun]

def dispatch (moves : Nat) (stage : Stage σ ε β) : Dispatch σ ε β :=
  ⟨stage.waiting.map Prod.fst, stage.flying.map Prod.snd, stage.results, moves⟩

def left (pauses : Nat) (stage : Stage σ ε β) : Nat :=
  (stage.flying.map fun held => held.2.pauses + 1).sum + stage.waiting.length * (pauses + 1)

theorem left_begun {pauses : Nat} (operation : List ε → Task σ β pauses) (count : Nat)
    (stage : Stage σ ε β) : (stage.begun operation count).left pauses = stage.left pauses := by
  simp only [left, begun, List.map_append, List.sum_append, List.map_map, Function.comp_def,
    List.map_const', List.sum_replicate_nat, List.length_take, List.length_drop, Nat.add_assoc,
    ← Nat.add_mul]
  congr 2
  omega

end Stage

theorem Course.of_begun {pauses width : Nat} {operation : List ε → Task σ β pauses} {stage : Stage σ ε β}
    {occurrences : List (Occurrence β)} {outcome : Except Fault (List β) × World σ} (count : Nat)
    (free : stage.flying.length + count ≤ width)
    (course : Course width operation (stage.begun operation count) occurrences outcome) :
    ∃ whole, Course width operation stage whole outcome := by
  induction count generalizing stage with
  | zero =>
    obtain ⟨world, waiting, flying, results⟩ := stage
    simp only [Stage.begun, List.drop_zero, List.take_zero, List.map_nil, List.append_nil] at course
    exact ⟨_, course⟩
  | succ count ih =>
    obtain ⟨world, _ | ⟨⟨chunk, number⟩, waiting⟩, flying, results⟩ := stage
    next =>
      simp only [Stage.begun, List.drop_nil, List.take_nil, List.map_nil, List.append_nil] at course
      exact ⟨_, course⟩
    next =>
      rw [Stage.begun_succ] at course
      have one : flying.length + 1 + count ≤ width := by
        change flying.length + (count + 1) ≤ width at free
        omega
      obtain ⟨rest, later⟩ := ih (by simpa using one) course
      exact ⟨_, .start (by omega) later⟩

namespace Dispatch

variable {pauses width : Nat} {operation : List ε → Task σ β pauses} {schedule : Schedule}

theorem start_dispatch (moves : Nat) (stage : Stage σ ε β) :
    (stage.dispatch moves).start width stage.world.clock operation =
      (stage.begun operation (width - stage.flying.length)).dispatch moves := by
  simp [start, Stage.dispatch, Stage.begun, Function.comp_def]

theorem begun_full (stage : Stage σ ε β) :
    (stage.begun operation (width - stage.flying.length)).waiting = [] ∨
      width ≤ (stage.begun operation (width - stage.flying.length)).flying.length := by
  simp only [Stage.begun, List.drop_eq_nil_iff, List.length_append, List.length_map, List.length_take]
  omega

theorem run_turn {dispatch : Dispatch σ ε β} {world : World σ} {started : Dispatch σ ε β}
    (begun : dispatch.start width world.clock operation = started) {flight : Flight σ β}
    (turned : started.inFlight[started.turn schedule]? = some flight) (more : Nat) :
    (run schedule width operation (more + 1) dispatch).run world =
      match flight.advance.run world with
      | (.ok outcome, next) =>
        (run schedule width operation more (started.record (started.turn schedule) outcome)).run next
      | (.error fault, next) => (.error fault, next) := by
  rw [run, Action.run_bind_ok (Action.run_clock world), begun]
  simp only [turned]
  rw [Action.run_bind]
  rcases flight.advance.run world with ⟨_ | _, _⟩ <;> rfl

theorem exists_turn (schedule : Schedule) {stage : Stage σ ε β} (some : stage.flying ≠ [])
    (moves : Nat) :
    ∃ before number flight after, stage.flying = before ++ (number, flight) :: after ∧
      (stage.dispatch moves).inFlight[(stage.dispatch moves).turn schedule]? = Option.some flight ∧
      (stage.dispatch moves).inFlight.eraseIdx ((stage.dispatch moves).turn schedule) =
        (before ++ after).map Prod.snd := by
  have inside : (stage.dispatch moves).turn schedule < stage.flying.length := by
    simpa [turn, Stage.dispatch] using Nat.mod_lt _ (List.length_pos_iff.mpr some)
  generalize (stage.dispatch moves).turn schedule = place at inside
  refine ⟨stage.flying.take place, stage.flying[place].1, stage.flying[place].2,
    stage.flying.drop (place + 1), ?_, ?_, ?_⟩
  · exact (List.take_append_drop place stage.flying).symm.trans
      (congrArg _ (List.drop_eq_getElem_cons inside))
  · simp [Stage.dispatch, List.getElem?_eq_getElem inside]
  · simp [Stage.dispatch, List.eraseIdx_eq_take_drop_succ]

section Record

variable {stage : Stage σ ε β} {moves place : Nat} {before after : List (Nat × Flight σ β)}
  (others : (stage.dispatch moves).inFlight.eraseIdx place = (before ++ after).map Prod.snd)
  (next : World σ)

include others

theorem record_completed (result : β) :
    (stage.dispatch moves).record place (.inl result) =
      Stage.dispatch (moves + 1) ⟨next, stage.waiting, before ++ after, stage.results ++ [result]⟩ := by
  simp only [record, others]
  rfl

theorem record_paused (number : Nat) (rest : Flight σ β) :
    (stage.dispatch moves).record place (.inr rest) =
      Stage.dispatch (moves + 1)
        ⟨next, stage.waiting, before ++ after ++ [(number, rest)], stage.results⟩ := by
  simp only [record, others]
  simp [Stage.dispatch]

end Record

/-- Whether a dispatch takes one of its courses in so many moves, whatever has happened before. -/
def Courses (schedule : Schedule) (width : Nat) (operation : List ε → Task σ β pauses) (more : Nat) :
    Prop :=
  ∀ (moves : Nat) (stage : Stage σ ε β), stage.flying.length ≤ width → stage.left pauses ≤ more →
    ∃ occurrences, Course width operation stage occurrences
      ((run schedule width operation more (stage.dispatch moves)).run stage.world)

theorem move_course (wide : 0 < width) {more moves : Nat} {stage : Stage σ ε β} {dispatch : Dispatch σ ε β}
    (begun : dispatch.start width stage.world.clock operation = stage.dispatch moves)
    (full : stage.waiting = [] ∨ width ≤ stage.flying.length) (few : stage.flying.length ≤ width)
    (enough : stage.left pauses ≤ more + 1) (further : Courses schedule width operation more) :
    ∃ occurrences, Course width operation stage occurrences
      ((run schedule width operation (more + 1) dispatch).run stage.world) := by
  obtain ⟨world, waiting, flying, results⟩ := stage
  by_cases some : flying = []
  next =>
    subst some
    have started : waiting = [] := full.resolve_right (Nat.not_le_of_lt wide)
    subst started
    have idle : (run schedule width operation (more + 1) dispatch).run world = (.ok results, world) := by
      rw [run, Action.run_bind_ok (Action.run_clock world), begun]
      rfl
    exact ⟨[], idle ▸ .finish world results⟩
  next =>
    obtain ⟨before, number, flight, after, split, turned, others⟩ :=
      @exists_turn _ _ _ schedule ⟨world, waiting, flying, results⟩ some moves
    change flying = _ at split
    subst split
    simp only [Stage.left, List.map_append, List.map_cons, List.sum_append, List.sum_cons] at enough
    simp only [List.length_append, List.length_cons] at few
    rw [run_turn begun turned]
    rcases ran : flight.advance.run world with ⟨fault | result | rest, next⟩
    next => exact ⟨_, .fail full ran⟩
    next =>
      obtain ⟨later, course⟩ := further (moves + 1) ⟨next, waiting, before ++ after, results ++ [result]⟩
        (by simp only [List.length_append]; omega)
        (by simp only [Stage.left, List.map_append, List.sum_append]; omega)
      rw [← record_completed others] at course
      exact ⟨_, .complete full ran course⟩
    next =>
      have fewer := Flight.pauses_of_advance ran
      obtain ⟨later, course⟩ := further (moves + 1)
        ⟨next, waiting, before ++ after ++ [(number, rest)], results⟩
        (by simp only [List.length_append, List.length_singleton]; omega)
        (by simp only [Stage.left, List.map_append, List.sum_append, List.map_singleton,
              List.sum_singleton]; omega)
      rw [← record_paused others] at course
      exact ⟨_, .pause full ran course⟩

theorem courses (wide : 0 < width) (more : Nat) : Courses schedule width operation more := by
  -- By induction on the moves left. A move starts what may start and lets one chunk in flight go on.
  induction more with
  | zero =>
    intro moves stage few enough
    obtain ⟨world, _ | ⟨chunk, waiting⟩, _ | ⟨flight, flying⟩, results⟩ := stage
    next => exact ⟨[], .finish world results⟩
    all_goals simp [Stage.left] at enough
  | succ more ih =>
    intro moves stage few enough
    have within : stage.flying.length + (width - stage.flying.length) ≤ width := by omega
    rw [← Stage.left_begun operation (width - stage.flying.length)] at enough
    obtain ⟨later, course⟩ := move_course wide (start_dispatch moves stage) (begun_full stage) (by
      simp only [Stage.begun, List.length_append, List.length_map, List.length_take]; omega) enough ih
    exact course.of_begun _ within

def ofPlaces (places : List Nat) : Schedule := fun moves _ => places.getD moves 0

theorem run_idle (world : World σ) (results : List β) (more moves : Nat) :
    (run schedule width operation more (Stage.dispatch moves ⟨world, [], [], results⟩)).run world =
      (.ok results, world) := by
  cases more with
  | zero => rfl
  | succ more =>
    rw [run, Action.run_bind_ok (Action.run_clock world)]
    simp [Stage.dispatch, start]

theorem begun_of_full {stage : Stage σ ε β} (full : stage.waiting = [] ∨ width ≤ stage.flying.length) :
    stage.begun operation (width - stage.flying.length) = stage := by
  obtain ⟨world, waiting, flying, results⟩ := stage
  rcases full with rfl | enough
  next => simp [Stage.begun]
  next => simp [Stage.begun, Nat.sub_eq_zero_of_le enough]

theorem run_start {world : World σ} {chunk : List ε} {number : Nat} {waiting : List (List ε × Nat)}
    {flying : List (Nat × Flight σ β)} (free : flying.length < width) (results : List β)
    (more moves : Nat) :
    (run schedule width operation more
        (Stage.dispatch moves ⟨world, (chunk, number) :: waiting, flying, results⟩)).run world =
      (run schedule width operation more (Stage.dispatch moves
        ⟨world, waiting, flying ++ [(number, ⟨world.clock, pauses, operation chunk⟩)], results⟩)).run
        world := by
  cases more with
  | zero => rfl
  | succ more =>
    have before := @start_dispatch _ _ _ pauses width operation moves
      ⟨world, (chunk, number) :: waiting, flying, results⟩
    have behind := @start_dispatch _ _ _ pauses width operation moves
      ⟨world, waiting, flying ++ [(number, ⟨world.clock, pauses, operation chunk⟩)], results⟩
    have count : width - flying.length = width - (flying.length + 1) + 1 := by omega
    simp only [count, Stage.begun_succ, List.length_append, List.length_singleton] at before behind
    rw [run, run, Action.run_bind_ok (Action.run_clock world), Action.run_bind_ok (Action.run_clock world),
      before, behind]

section Placed

variable {world : World σ} {waiting : List (List ε × Nat)} {before after : List (Nat × Flight σ β)}
  {number : Nat} {flight : Flight σ β} {results : List β} (past places : List Nat)

theorem turn_ofPlaces :
    turn (ofPlaces (past ++ before.length :: places)) (Stage.dispatch past.length
      (⟨world, waiting, before ++ (number, flight) :: after, results⟩ : Stage σ ε β)) = before.length := by
  simp only [turn, ofPlaces, Stage.dispatch, List.length_map, List.length_append, List.length_cons,
    List.getD_eq_getElem?_getD, List.getElem?_append_right (Nat.le_refl past.length), Nat.sub_self,
    List.getElem?_cons_zero, Option.getD_some]
  exact Nat.mod_eq_of_lt (by omega)

theorem run_ofPlaces (full : waiting = [] ∨ width ≤ (before ++ (number, flight) :: after).length)
    (more : Nat) :
    (run (ofPlaces (past ++ before.length :: places)) width operation (more + 1)
        (Stage.dispatch past.length ⟨world, waiting, before ++ (number, flight) :: after, results⟩)).run
        world =
      match flight.advance.run world with
      | (.ok outcome, next) =>
        (run (ofPlaces (past ++ before.length :: places)) width operation more (record before.length
          (Stage.dispatch past.length ⟨world, waiting, before ++ (number, flight) :: after, results⟩)
          outcome)).run next
      | (.error fault, next) => (.error fault, next) := by
  let stage : Stage σ ε β := ⟨world, waiting, before ++ (number, flight) :: after, results⟩
  have begun : (stage.dispatch past.length).start width world.clock operation =
      stage.dispatch past.length := by
    rw [start_dispatch past.length stage, begun_of_full full]
  have turned : (stage.dispatch past.length).inFlight[turn (ofPlaces (past ++ before.length :: places))
      (stage.dispatch past.length)]? = some flight := by
    rw [turn_ofPlaces]
    simp [stage, Stage.dispatch]
  rw [run_turn begun turned, turn_ofPlaces]

theorem others_of_split (moves : Nat) :
    (Stage.dispatch moves (⟨world, waiting, before ++ (number, flight) :: after, results⟩ :
      Stage σ ε β)).inFlight.eraseIdx before.length = (before ++ after).map Prod.snd := by
  simp [Stage.dispatch, List.eraseIdx_append_of_length_le]

end Placed

theorem exists_schedule {stage : Stage σ ε β} {occurrences : List (Occurrence β)}
    {outcome : Except Fault (List β) × World σ}
    (course : Course width operation stage occurrences outcome) (past : List Nat) :
    ∃ places, ∀ more, stage.left pauses ≤ more →
      (run (ofPlaces (past ++ places)) width operation more (stage.dispatch past.length)).run
        stage.world = outcome := by
  -- By induction on the course. Every move notes the place of the chunk that went on.
  induction course generalizing past with
  | finish world results => exact ⟨[], fun more _ => run_idle world results more past.length⟩
  | start free _ ih =>
    obtain ⟨places, ran⟩ := ih past
    refine ⟨places, fun more enough => (run_start free _ _ _).trans (ran more ?_)⟩
    simp only [Stage.left, List.map_append, List.sum_append, List.map_singleton, List.sum_singleton,
      List.length_cons, Nat.add_mul] at enough ⊢
    omega
  | @pause world next number waiting before after flight rest results _ _ full ran _ ih =>
    obtain ⟨places, later⟩ := ih (past ++ [before.length])
    rw [List.length_append, List.length_singleton] at later
    refine ⟨before.length :: places, fun more enough => ?_⟩
    have fewer := Flight.pauses_of_advance ran
    simp only [Stage.left, List.map_append, List.map_cons, List.sum_append, List.sum_cons] at enough
    obtain ⟨more, rfl⟩ := Nat.exists_eq_succ_of_ne_zero (show more ≠ 0 by omega)
    rw [run_ofPlaces past places full more, ran]
    dsimp only
    rw [record_paused (others_of_split past.length) next number rest, List.append_cons]
    refine later more ?_
    simp only [Stage.left, List.map_append, List.sum_append, List.map_singleton, List.sum_singleton]
    omega
  | @complete world next number waiting before after flight result results _ _ full ran _ ih =>
    obtain ⟨places, later⟩ := ih (past ++ [before.length])
    rw [List.length_append, List.length_singleton] at later
    refine ⟨before.length :: places, fun more enough => ?_⟩
    simp only [Stage.left, List.map_append, List.map_cons, List.sum_append, List.sum_cons] at enough
    obtain ⟨more, rfl⟩ := Nat.exists_eq_succ_of_ne_zero (show more ≠ 0 by omega)
    rw [run_ofPlaces past places full more, ran]
    dsimp only
    rw [record_completed (others_of_split past.length) next result, List.append_cons]
    refine later more ?_
    simp only [Stage.left, List.map_append, List.sum_append]
    omega
  | @fail world next number waiting before after flight fault results full ran =>
    refine ⟨[before.length], fun more enough => ?_⟩
    simp only [Stage.left, List.map_append, List.map_cons, List.sum_append, List.sum_cons] at enough
    obtain ⟨more, rfl⟩ := Nat.exists_eq_succ_of_ne_zero (show more ≠ 0 by omega)
    rw [run_ofPlaces past [] full more, ran]

end Dispatch

section Chunks

variable {pauses width size : Nat} {operation : List ε → Task σ β pauses} {entries : List ε}
  {world : World σ}

theorem dispatch_ofChunks (world : World σ) (pieces : List (List ε)) :
    (Stage.ofChunks world pieces).dispatch 0 = (.ofChunks pieces : Dispatch σ ε β) := by
  simp [Stage.ofChunks, Stage.dispatch, Dispatch.ofChunks]

theorem left_ofChunks (pauses : Nat) (world : World σ) (pieces : List (List ε)) :
    (Stage.ofChunks world pieces : Stage σ ε β).left pauses = pieces.length * (pauses + 1) := by
  simp [Stage.left, Stage.ofChunks]

theorem forEachChunk_course (schedule : Schedule) (entries : List ε) (size width : Nat)
    (operation : List ε → Task σ β pauses) (world : World σ) :
    ∃ occurrences, Course (max width 1) operation (.ofChunks world (chunks size entries)) occurrences
      ((forEachChunk schedule entries size width operation).run world) := by
  have courses : Dispatch.Courses schedule (max width 1) operation
      ((chunks size entries).length * (pauses + 1)) :=
    Dispatch.courses (Nat.lt_of_lt_of_le Nat.one_pos (Nat.le_max_right width 1)) _
  have taken := courses 0 (.ofChunks world (chunks size entries)) (Nat.zero_le _)
    (left_ofChunks pauses world _).le
  rwa [dispatch_ofChunks] at taken

/-- The outcomes of a batch under all schedules are those of its courses. -/
theorem exists_schedule_iff {outcome : Except Fault (List β) × World σ} :
    (∃ schedule, (forEachChunk schedule entries size width operation).run world = outcome) ↔
      ∃ occurrences,
        Course (max width 1) operation (.ofChunks world (chunks size entries)) occurrences outcome := by
  constructor
  · rintro ⟨schedule, rfl⟩
    exact forEachChunk_course schedule entries size width operation world
  · rintro ⟨occurrences, course⟩
    obtain ⟨places, ran⟩ := Dispatch.exists_schedule course []
    rw [List.nil_append, List.length_nil, dispatch_ofChunks] at ran
    exact ⟨Dispatch.ofPlaces places, ran _ (left_ofChunks pauses world _).le⟩

end Chunks

end SharedTable.Batch
