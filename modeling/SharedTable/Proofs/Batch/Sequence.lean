import SharedTable.Proofs.Batch.Schedules
import SharedTable.Proofs.Task

set_option autoImplicit false

namespace SharedTable

variable {σ ε β : Type}

namespace Flight

def resume (flight : Flight σ β) : Action σ β := do
  Action.waitUntil flight.wake
  flight.work.run

theorem resume_run (flight : Flight σ β) (world : World σ) :
    flight.resume.run world =
      match flight.advance.run world with
      | (.ok (.inl result), next) => (.ok result, next)
      | (.ok (.inr rest), next) => rest.resume.run next
      | (.error fault, next) => (.error fault, next) := by
  obtain ⟨wake, _ | pauses, work⟩ := flight
  next =>
    rw [advance_last wake work]
    change ExceptT.run work (world.woken wake) = _
    rcases ExceptT.run work (world.woken wake) with ⟨_ | _, _⟩ <;> rfl
  next =>
    rw [advance_stretch wake work]
    change ExceptT.run (@Task.run σ β (pauses + 1) work) (world.woken wake) = _
    rcases ran : ExceptT.run work (world.woken wake) with ⟨fault | ⟨result⟩ | ⟨milliseconds, rest⟩, next⟩
    next => exact Task.run_of_error ran
    next => exact Task.run_of_done ran
    next => exact Task.run_of_pause ran

theorem resume_started (world : World σ) {pauses : Nat} (work : Task σ β pauses) :
    (resume ⟨world.clock, pauses, work⟩).run world = work.run.run world := by
  have woken : { world with clock := max world.clock world.clock } = world := by
    rw [Nat.max_self]
  rw [resume, Action.run_bind_ok (Action.run_waitUntil world.clock world), woken]

end Flight

namespace Batch

variable {pauses width : Nat} {operation : List ε → Task σ β pauses}

def behind (operation : List ε → Task σ β pauses) (waiting : List (List ε × Nat)) (results : List β) :
    Action σ (List β) := do
  return results ++ (← waiting.mapM fun held => (operation held.1).run)

theorem behind_cons (chunk : List ε) (number : Nat) (waiting : List (List ε × Nat)) (results : List β) :
    behind operation ((chunk, number) :: waiting) results =
      (operation chunk).run >>= fun result => behind operation waiting (results ++ [result]) := by
  simp [behind]

def Stage.sequence (operation : List ε → Task σ β pauses) : Stage σ ε β → Action σ (List β)
  | ⟨_, waiting, [], results⟩ => behind operation waiting results
  | ⟨_, waiting, (_, flight) :: _, results⟩ =>
    flight.resume >>= fun result => behind operation waiting (results ++ [result])

theorem Stage.sequence_run_flying {world next : World σ} {waiting : List (List ε × Nat)} {number : Nat}
    {flight : Flight σ β} {results : List β} :
    (sequence operation ⟨world, waiting, [(number, flight)], results⟩).run next =
      match flight.resume.run next with
      | (.ok result, final) => (behind operation waiting (results ++ [result])).run final
      | (.error fault, final) => (.error fault, final) :=
  Action.run_bind _ _ next

theorem range_of_concat_prefix {numbers : List Nat} {last count : Nat}
    (begun : numbers ++ [last] <+: List.range count) :
    last = numbers.length ∧ numbers = List.range last := by
  have few := begun.length_le
  rw [List.length_append, List.length_singleton, List.length_range] at few
  have whole := List.prefix_iff_eq_take.mp begun
  rw [List.take_range, List.length_append, List.length_singleton, Nat.min_eq_left few, List.range_succ]
    at whole
  obtain ⟨counted, rfl⟩ := List.append_inj' whole rfl |>.imp id List.singleton_inj.mp
  exact ⟨rfl, counted⟩

namespace Course

variable {stage : Stage σ ε β} {occurrences : List (Occurrence β)}
  {outcome : Except Fault (List β) × World σ}

theorem alone {flight : Nat × Flight σ β} {before after : List (Nat × Flight σ β)} (narrow : width ≤ 1)
    (few : (before ++ flight :: after).length ≤ width) : before = [] ∧ after = [] := by
  rw [List.length_append, List.length_cons] at few
  exact ⟨List.eq_nil_of_length_eq_zero (by omega), List.eq_nil_of_length_eq_zero (by omega)⟩

theorem in_turn (course : Course width operation stage occurrences outcome) (narrow : width ≤ 1)
    (few : stage.flying.length ≤ width) :
    (completions occurrences).map Prod.fst ++ (failures occurrences).map Prod.fst =
      stage.flying.map Prod.fst ++ starts occurrences := by
  induction course with
  | finish => rfl
  | @start _ _ _ _ flying _ _ _ free _ ih =>
    obtain rfl : flying = [] := List.eq_nil_of_length_eq_zero (by omega)
    exact ih free
  | @pause _ _ _ _ before after _ _ _ _ _ _ _ _ ih =>
    obtain ⟨rfl, rfl⟩ : before = [] ∧ after = [] := alone narrow few
    exact ih few
  | @complete _ _ _ _ before after _ _ _ _ _ _ _ _ ih =>
    obtain ⟨rfl, rfl⟩ : before = [] ∧ after = [] := alone narrow few
    exact congrArg (_ :: ·) (ih (Nat.zero_le _))
  | @fail _ _ _ _ before after _ _ _ _ _ =>
    obtain ⟨rfl, rfl⟩ : before = [] ∧ after = [] := alone narrow few
    rfl

/-- One at a time, chunks come to what they come to one after another. -/
theorem sequence_run (course : Course width operation stage occurrences outcome) (narrow : width ≤ 1)
    (few : stage.flying.length ≤ width) : (stage.sequence operation).run stage.world = outcome := by
  induction course with
  | finish world results => simp [Stage.sequence, behind]
  | @start world chunk number waiting flying results _ _ free _ ih =>
    obtain rfl : flying = [] := List.eq_nil_of_length_eq_zero (by omega)
    rw [← ih free, Stage.sequence, behind_cons, Action.run_bind, ← Flight.resume_started]
    exact Stage.sequence_run_flying.symm
  | @pause world next number waiting before after flight rest results _ _ _ ran _ ih =>
    obtain ⟨rfl, rfl⟩ : before = [] ∧ after = [] := alone narrow few
    refine Stage.sequence_run_flying.trans ?_
    rw [← ih few, Flight.resume_run, ran]
    exact Stage.sequence_run_flying.symm
  | @complete world next number waiting before after flight result results _ _ _ ran _ ih =>
    obtain ⟨rfl, rfl⟩ : before = [] ∧ after = [] := alone narrow few
    refine Stage.sequence_run_flying.trans ?_
    rw [← ih (Nat.zero_le _), Flight.resume_run, ran]
    rfl
  | @fail world next number waiting before after flight fault results _ ran =>
    obtain ⟨rfl, rfl⟩ : before = [] ∧ after = [] := alone narrow few
    refine Stage.sequence_run_flying.trans ?_
    rw [Flight.resume_run, ran]

theorem failed_in_turn {world final : World σ} {pieces : List (List ε)} {fault : Fault}
    (course : Course width operation (.ofChunks world pieces) occurrences (.error fault, final))
    (narrow : width ≤ 1) :
    ∃ past number, occurrences = past ++ [.failed number fault] ∧
      starts occurrences = List.range (number + 1) ∧
      (completions occurrences).map Prod.fst = List.range number := by
  obtain ⟨past, number, split, unfailed, _⟩ := course.of_error
  refine ⟨past, number, split, ?_⟩
  have turns := course.in_turn narrow (Nat.zero_le _)
  have begun := course.orderly.started
  have failed : failures occurrences = [(number, fault)] := by
    rw [split, failures, List.filterMap_append]
    exact congrArg (· ++ _) unfailed
  rw [failed] at turns
  change (completions occurrences).map Prod.fst ++ [number] = starts occurrences at turns
  rw [← turns] at begun ⊢
  obtain ⟨rfl, counted⟩ := range_of_concat_prefix begun
  exact ⟨by rw [List.range_succ, ← counted], counted⟩

end Course

theorem forEachChunk_narrow {entries : List ε} {size : Nat} (narrow : width ≤ 1) (schedule : Schedule)
    (world : World σ) :
    (forEachChunk schedule entries size width operation).run world =
      ((chunks size entries).mapM fun chunk => (operation chunk).run : Action σ (List β)).run world := by
  obtain ⟨occurrences, course⟩ := forEachChunk_course schedule entries size width operation world
  rw [← course.sequence_run (max_le narrow Nat.le.refl) (Nat.zero_le _)]
  have unnumbered : ((chunks size entries).zipIdx.map Prod.fst).mapM
      (fun chunk => (operation chunk).run : List ε → Action σ β) =
        (chunks size entries).zipIdx.mapM fun held => (operation held.1).run := by
    rw [List.mapM_map]
    rfl
  rw [List.zipIdx_map_fst] at unnumbered
  simp [Stage.ofChunks, Stage.sequence, behind, ← unnumbered]

theorem forEachChunk_of_failing {entries : List ε} {size number : Nat} {chunk : List ε} {results : List β}
    {world middle final : World σ} {fault : Fault} (narrow : width ≤ 1)
    (chosen : (chunks size entries)[number]? = some chunk)
    (before : (((chunks size entries).take number).mapM fun chunk => (operation chunk).run).run world =
      (.ok results, middle))
    (failing : (operation chunk).run.run middle = (.error fault, final)) (schedule : Schedule) :
    (forEachChunk schedule entries size width operation).run world = (.error fault, final) := by
  obtain ⟨inside, rfl⟩ := List.getElem?_eq_some_iff.mp chosen
  rw [forEachChunk_narrow narrow, ← List.take_append_drop number (chunks size entries),
    List.drop_eq_getElem_cons inside, List.mapM_append, Action.run_bind_ok before, List.mapM_cons,
    Action.run_bind_error (Action.run_bind_error failing)]

end Batch

end SharedTable
