import Mathlib.Data.List.Perm.Subperm
import SharedTable.Proofs.Action
import SharedTable.Task

/-!
The courses that a batch can take. Chunks are numbered in their order; what happens to them is told as a
list of occurrences, with the world that each of them leaves to the next. Every run takes such a course.
-/

set_option autoImplicit false

namespace SharedTable

variable {σ ε β : Type}

def World.woken (world : World σ) (wake : Nat) : World σ :=
  { world with clock := max world.clock wake }

/--
Whether every stretch of a task goes by a rule: on the states before and behind the stretch, and on the
result if the task completes with it.
-/
def Task.Obeys (rule : σ → Option β → σ → Prop) : {pauses : Nat} → Task σ β pauses → Prop
  | 0, work => ∀ world : World σ,
    let ran := @ExceptT.run Fault (StateM (World σ)) β work world
    rule world.state ran.1.toOption ran.2.state
  | pauses + 1, work => ∀ world : World σ,
    match @ExceptT.run Fault (StateM (World σ)) (Stretch (Task σ β pauses) β) work world with
    | (.ok (.done result), next) => rule world.state (some result) next.state
    | (.ok (.pause _ rest), next) => rule world.state none next.state ∧ rest.Obeys rule
    | (.error _, next) => rule world.state none next.state

namespace Flight

theorem advance_last (wake : Nat) (work : Action σ β) (world : World σ) :
    (advance ⟨wake, 0, work⟩).run world =
      ((work.run (world.woken wake)).1.map .inl, (work.run (world.woken wake)).2) := by
  unfold advance
  rw [Action.run_bind_ok (Action.run_waitUntil wake world)]
  exact Action.run_map _ work _

theorem advance_stretch (wake : Nat) {pauses : Nat} (work : Action σ (Stretch (Task σ β pauses) β))
    (world : World σ) :
    (advance ⟨wake, pauses + 1, work⟩).run world =
      match work.run (world.woken wake) with
      | (.ok (.done result), next) => (.ok (.inl result), next)
      | (.ok (.pause milliseconds rest), next) =>
        (.ok (.inr ⟨next.clock + milliseconds, pauses, rest⟩), next)
      | (.error fault, next) => (.error fault, next) := by
  unfold advance
  rw [Action.run_bind_ok (Action.run_waitUntil wake world)]
  rcases ran : work.run (world.woken wake) with ⟨fault | ⟨result⟩ | ⟨milliseconds, rest⟩, next⟩
  next => exact Action.run_bind_error ran
  next => exact Action.run_bind_ok ran
  next => exact Action.run_bind_ok ran

theorem pauses_of_advance {flight rest : Flight σ β} {world next : World σ}
    (ran : flight.advance.run world = (.ok (.inr rest), next)) : rest.pauses + 1 = flight.pauses := by
  obtain ⟨wake, _ | pauses, work⟩ := flight
  next =>
    rw [advance_last wake work] at ran
    generalize ExceptT.run work (world.woken wake) = outcome at ran
    obtain ⟨_ | _, _⟩ := outcome <;> cases ran
  next =>
    rw [advance_stretch wake work] at ran
    generalize ExceptT.run work (world.woken wake) = outcome at ran
    obtain ⟨_ | ⟨_⟩ | ⟨_, _⟩, _⟩ := outcome <;> cases ran
    rfl

theorem advance_obeys {rule : σ → Option β → σ → Prop} {flight : Flight σ β}
    (obeys : flight.work.Obeys rule) {world next : World σ} {answer : Except Fault (β ⊕ Flight σ β)}
    (ran : flight.advance.run world = (answer, next)) :
    match answer with
    | .ok (.inl result) => rule world.state (some result) next.state
    | .ok (.inr rest) => rule world.state none next.state ∧ rest.work.Obeys rule
    | .error _ => rule world.state none next.state := by
  obtain ⟨wake, _ | pauses, work⟩ := flight
  next =>
    rw [advance_last wake work] at ran
    have kept : rule world.state (ExceptT.run work (world.woken wake)).1.toOption
        (ExceptT.run work (world.woken wake)).2.state := obeys (world.woken wake)
    generalize ExceptT.run work (world.woken wake) = outcome at ran kept
    obtain ⟨_ | _, _⟩ := outcome <;> cases ran <;> exact kept
  next =>
    rw [advance_stretch wake work] at ran
    have kept := obeys (world.woken wake)
    simp only at kept
    generalize ExceptT.run work (world.woken wake) = outcome at ran kept
    obtain ⟨_ | ⟨_⟩ | ⟨_, _⟩, _⟩ := outcome <;> cases ran <;> exact kept

end Flight

namespace Batch

inductive Occurrence (β : Type) where
  | started (number : Nat)
  | paused (number : Nat)
  | completed (number : Nat) (result : β)
  | failed (number : Nat) (fault : Fault)

namespace Occurrence

@[simp] def started? : Occurrence β → Option Nat
  | .started number => some number
  | _ => none

@[simp] def completed? : Occurrence β → Option (Nat × β)
  | .completed number result => some (number, result)
  | _ => none

@[simp] def failed? : Occurrence β → Option (Nat × Fault)
  | .failed number fault => some (number, fault)
  | _ => none

end Occurrence

def starts (occurrences : List (Occurrence β)) : List Nat := occurrences.filterMap Occurrence.started?

def completions (occurrences : List (Occurrence β)) : List (Nat × β) :=
  occurrences.filterMap Occurrence.completed?

def failures (occurrences : List (Occurrence β)) : List (Nat × Fault) :=
  occurrences.filterMap Occurrence.failed?

def ended (occurrences : List (Occurrence β)) : List Nat :=
  (completions occurrences).map Prod.fst ++ (failures occurrences).map Prod.fst

section Histories

variable (occurrence : Occurrence β) (later : List (Occurrence β))

@[simp] theorem starts_nil : starts ([] : List (Occurrence β)) = [] := rfl

@[simp] theorem completions_nil : completions ([] : List (Occurrence β)) = [] := rfl

@[simp] theorem failures_nil : failures ([] : List (Occurrence β)) = [] := rfl

@[simp] theorem starts_cons :
    starts (occurrence :: later) = occurrence.started?.toList ++ starts later := by
  cases occurrence <;> rfl

@[simp] theorem completions_cons :
    completions (occurrence :: later) = occurrence.completed?.toList ++ completions later := by
  cases occurrence <;> rfl

@[simp] theorem failures_cons :
    failures (occurrence :: later) = occurrence.failed?.toList ++ failures later := by
  cases occurrence <;> rfl

theorem completions_of_failed (past : List (Occurrence β)) (number : Nat) (fault : Fault) :
    completions (past ++ [.failed number fault]) = completions past := by
  rw [completions, List.filterMap_append]
  exact List.append_nil _

end Histories

structure Stage (σ ε β : Type) where
  world : World σ
  waiting : List (List ε × Nat)
  flying : List (Nat × Flight σ β)
  results : List β

namespace Stage

def ofChunks (world : World σ) (pieces : List (List ε)) : Stage σ ε β := ⟨world, pieces.zipIdx, [], []⟩

def numbers (stage : Stage σ ε β) : List Nat := stage.flying.map Prod.fst ++ stage.waiting.map Prod.snd

theorem numbers_ofChunks (world : World σ) (pieces : List (List ε)) :
    (ofChunks world pieces : Stage σ ε β).numbers = List.range pieces.length := by
  rw [numbers, ofChunks, List.zipIdx_map_snd, List.range_eq_range']
  rfl

section Moves

variable {world next : World σ} {waiting : List (List ε × Nat)} {before after : List (Nat × Flight σ β)}
  {number : Nat} {flight rest : Flight σ β} {results more : List β}

theorem numbers_start {chunk : List ε} :
    (⟨next, waiting, before ++ [(number, flight)], more⟩ : Stage σ ε β).numbers =
      numbers ⟨world, (chunk, number) :: waiting, before, results⟩ := by
  simp [numbers]

theorem numbers_turn :
    (⟨world, waiting, before ++ (number, flight) :: after, results⟩ : Stage σ ε β).numbers.Perm
      (number :: numbers ⟨next, waiting, before ++ after, more⟩) := by
  simp [numbers]

theorem numbers_pause :
    (⟨next, waiting, before ++ after ++ [(number, rest)], more⟩ : Stage σ ε β).numbers.Perm
      (numbers ⟨world, waiting, before ++ (number, flight) :: after, results⟩) := by
  simpa [numbers] using List.perm_middle.append_left (before.map Prod.fst)

end Moves

end Stage

/--
What may happen from a stage on, and how it ends. Chunks start in their order as long as fewer than the
width are in flight; otherwise any chunk in flight goes on, in the world as it is. The first that fails
ends the course, with its fault and in the world that it leaves.
-/
inductive Course {pauses : Nat} (width : Nat) (operation : List ε → Task σ β pauses) :
    Stage σ ε β → List (Occurrence β) → Except Fault (List β) × World σ → Prop where
  | finish (world : World σ) (results : List β) :
      Course width operation ⟨world, [], [], results⟩ [] (.ok results, world)
  | start {world : World σ} {chunk : List ε} {number : Nat} {waiting : List (List ε × Nat)}
      {flying : List (Nat × Flight σ β)} {results : List β} {occurrences : List (Occurrence β)}
      {outcome : Except Fault (List β) × World σ} (free : flying.length < width)
      (later : Course width operation
        ⟨world, waiting, flying ++ [(number, ⟨world.clock, pauses, operation chunk⟩)], results⟩
        occurrences outcome) :
      Course width operation ⟨world, (chunk, number) :: waiting, flying, results⟩
        (.started number :: occurrences) outcome
  | pause {world next : World σ} {number : Nat} {waiting : List (List ε × Nat)}
      {before after : List (Nat × Flight σ β)} {flight rest : Flight σ β} {results : List β}
      {occurrences : List (Occurrence β)} {outcome : Except Fault (List β) × World σ}
      (full : waiting = [] ∨ width ≤ (before ++ (number, flight) :: after).length)
      (ran : flight.advance.run world = (.ok (.inr rest), next))
      (later : Course width operation ⟨next, waiting, before ++ after ++ [(number, rest)], results⟩
        occurrences outcome) :
      Course width operation ⟨world, waiting, before ++ (number, flight) :: after, results⟩
        (.paused number :: occurrences) outcome
  | complete {world next : World σ} {number : Nat} {waiting : List (List ε × Nat)}
      {before after : List (Nat × Flight σ β)} {flight : Flight σ β} {result : β} {results : List β}
      {occurrences : List (Occurrence β)} {outcome : Except Fault (List β) × World σ}
      (full : waiting = [] ∨ width ≤ (before ++ (number, flight) :: after).length)
      (ran : flight.advance.run world = (.ok (.inl result), next))
      (later : Course width operation ⟨next, waiting, before ++ after, results ++ [result]⟩
        occurrences outcome) :
      Course width operation ⟨world, waiting, before ++ (number, flight) :: after, results⟩
        (.completed number result :: occurrences) outcome
  | fail {world next : World σ} {number : Nat} {waiting : List (List ε × Nat)}
      {before after : List (Nat × Flight σ β)} {flight : Flight σ β} {fault : Fault} {results : List β}
      (full : waiting = [] ∨ width ≤ (before ++ (number, flight) :: after).length)
      (ran : flight.advance.run world = (.error fault, next)) :
      Course width operation ⟨world, waiting, before ++ (number, flight) :: after, results⟩
        [.failed number fault] (.error fault, next)

namespace Course

variable {pauses width : Nat} {operation : List ε → Task σ β pauses} {stage : Stage σ ε β}
  {occurrences : List (Occurrence β)} {outcome : Except Fault (List β) × World σ}

theorem starts_prefix (course : Course width operation stage occurrences outcome) :
    starts occurrences <+: stage.waiting.map Prod.snd := by
  induction course with
  | finish => exact List.nil_prefix
  | start _ _ ih => exact List.prefix_cons_inj _ |>.mpr ih
  | pause _ _ _ ih => exact ih
  | complete _ _ _ ih => exact ih
  | fail => exact List.nil_prefix

theorem accounted (course : Course width operation stage occurrences outcome)
    (few : stage.flying.length ≤ width) {past : List (Occurrence β)} (begun : past <+: occurrences) :
    ∃ flying : List Nat, flying.length ≤ width ∧
      (ended past ++ flying).Perm (stage.flying.map Prod.fst ++ starts past) := by
  induction course generalizing past with
  | finish =>
    cases List.prefix_nil.mp begun
    exact ⟨[], Nat.zero_le _, .refl _⟩
  | start free _ ih =>
    rcases List.prefix_cons_iff.mp begun with rfl | ⟨later, rfl, rest⟩
    next => exact ⟨_, by simpa using few, .of_eq (List.append_nil _).symm⟩
    next =>
      obtain ⟨flying, bounded, all⟩ := ih (by simp; omega) rest
      exact ⟨flying, bounded, by simpa [ended] using all⟩
  | pause _ _ _ ih =>
    rcases List.prefix_cons_iff.mp begun with rfl | ⟨later, rfl, rest⟩
    next => exact ⟨_, by simpa using few, .of_eq (List.append_nil _).symm⟩
    next =>
      obtain ⟨flying, bounded, all⟩ := ih (by simpa using few) rest
      refine ⟨flying, bounded, all.trans ?_⟩
      simpa using List.perm_middle.append_left _
  | complete _ _ _ ih =>
    rcases List.prefix_cons_iff.mp begun with rfl | ⟨later, rfl, rest⟩
    next => exact ⟨_, by simpa using few, .of_eq (List.append_nil _).symm⟩
    next =>
      obtain ⟨flying, bounded, all⟩ := ih (by simp at few ⊢; omega) rest
      refine ⟨flying, bounded, (all.cons _).trans ?_⟩
      rw [List.map_append, List.map_append, List.map_cons, List.append_assoc, List.append_assoc]
      exact List.perm_middle.symm
  | @fail _ _ _ _ before after =>
    rcases List.prefix_cons_iff.mp begun with rfl | ⟨later, rfl, rest⟩
    next => exact ⟨_, by simpa using few, .of_eq (List.append_nil _).symm⟩
    next =>
      cases List.prefix_nil.mp rest
      refine ⟨(before ++ after).map Prod.fst, by simp at few ⊢; omega, ?_⟩
      simpa [ended] using List.perm_middle.symm

theorem of_ok {results : List β} {final : World σ}
    (course : Course width operation stage occurrences (.ok results, final)) :
    results = stage.results ++ (completions occurrences).map Prod.snd ∧ failures occurrences = [] ∧
      ((completions occurrences).map Prod.fst).Perm stage.numbers := by
  generalize same : (Except.ok results, final) = outcome at course
  induction course with
  | finish =>
    cases same
    exact ⟨(List.append_nil _).symm, rfl, .refl _⟩
  | start _ _ ih =>
    obtain ⟨gathered, unfailed, all⟩ := ih same
    exact ⟨gathered, unfailed, all.trans (.of_eq Stage.numbers_start)⟩
  | pause _ _ _ ih =>
    obtain ⟨gathered, unfailed, all⟩ := ih same
    exact ⟨gathered, unfailed, all.trans Stage.numbers_pause⟩
  | complete _ _ _ ih =>
    obtain ⟨gathered, unfailed, all⟩ := ih same
    refine ⟨by simpa using gathered, unfailed, ?_⟩
    exact (all.cons _).trans Stage.numbers_turn.symm
  | fail => cases same

theorem of_error {fault : Fault} {final : World σ}
    (course : Course width operation stage occurrences (.error fault, final)) :
    ∃ past number, occurrences = past ++ [.failed number fault] ∧ failures past = [] ∧
      (number :: (completions past).map Prod.fst).Subperm stage.numbers := by
  generalize same : (Except.error fault, final) = outcome at course
  induction course with
  | finish => cases same
  | start _ _ ih =>
    obtain ⟨past, number, rfl, unfailed, apart⟩ := ih same
    refine ⟨_ :: past, number, rfl, unfailed, apart.trans ?_⟩
    rw [Stage.numbers_start]
  | pause _ _ _ ih =>
    obtain ⟨past, number, rfl, unfailed, apart⟩ := ih same
    exact ⟨_ :: past, number, rfl, unfailed, apart.trans Stage.numbers_pause.subperm⟩
  | complete _ _ _ ih =>
    obtain ⟨past, number, rfl, unfailed, apart⟩ := ih same
    refine ⟨_ :: past, number, rfl, unfailed, ?_⟩
    exact ((List.Perm.swap ..).subperm.trans (List.subperm_cons _ |>.mpr apart)).trans
      Stage.numbers_turn.symm.subperm
  | fail =>
    cases same
    exact ⟨[], _, rfl, rfl, List.singleton_subperm_iff.mpr (by simp [Stage.numbers])⟩

theorem last_of_failed (course : Course width operation stage occurrences outcome)
    {past later : List (Occurrence β)} {number : Nat} {fault : Fault}
    (split : occurrences = past ++ .failed number fault :: later) :
    later = [] ∧ outcome.1 = .error fault := by
  induction course generalizing past with
  | finish => simp at split
  | start _ _ ih =>
    cases past with
    | nil => cases split
    | cons => exact ih (List.cons.inj split).2
  | pause _ _ _ ih =>
    cases past with
    | nil => cases split
    | cons => exact ih (List.cons.inj split).2
  | complete _ _ _ ih =>
    cases past with
    | nil => cases split
    | cons => exact ih (List.cons.inj split).2
  | fail =>
    cases past with
    | nil =>
      cases split
      exact ⟨rfl, rfl⟩
    | cons => simp at split

end Course

structure Orderly (count width : Nat) (occurrences : List (Occurrence β))
    (answer : Except Fault (List β)) : Prop where
  -- Chunks start in their order, each at most once.
  started : starts occurrences <+: List.range count
  -- What has started by any moment has ended once, or is one of few in flight.
  accounted : ∀ past, past <+: occurrences → ∃ flying : List Nat, flying.length ≤ width ∧
    (ended past ++ flying).Perm (starts past)
  answered_iff : (∃ results, answer = .ok results) ↔
    ((completions occurrences).map Prod.fst).Perm (List.range count)
  results : ∀ results, answer = .ok results → results = (completions occurrences).map Prod.snd
  failed_iff : ∀ fault, answer = .error fault ↔
    ∃ past number later, occurrences = past ++ .failed number fault :: later
  -- Nothing happens behind a failure.
  last : ∀ past number fault later, occurrences = past ++ .failed number fault :: later → later = []

theorem Course.orderly {pauses width : Nat} {operation : List ε → Task σ β pauses} {world : World σ}
    {pieces : List (List ε)} {occurrences : List (Occurrence β)}
    {outcome : Except Fault (List β) × World σ}
    (course : Course width operation (.ofChunks world pieces) occurrences outcome) :
    Orderly pieces.length width occurrences outcome.1 where
  started := by
    have begun := course.starts_prefix
    rwa [Stage.ofChunks, List.zipIdx_map_snd, ← List.range_eq_range'] at begun
  accounted _ begun := course.accounted (Nat.zero_le _) begun
  answered_iff := by
    obtain ⟨fault | results, final⟩ := outcome
    next =>
      obtain ⟨past, number, rfl, _, apart⟩ := course.of_error
      rw [Stage.numbers_ofChunks] at apart
      refine ⟨nofun, fun all => ?_⟩
      have fewer := apart.length_le
      have same := all.length_eq
      rw [completions_of_failed, List.length_map] at same
      rw [List.length_cons, List.length_map] at fewer
      omega
    next =>
      rw [← Stage.numbers_ofChunks world pieces]
      exact ⟨fun _ => course.of_ok.2.2, fun _ => ⟨results, rfl⟩⟩
  results results answered := by
    obtain ⟨_, final⟩ := outcome
    cases answered
    exact course.of_ok.1
  failed_iff fault := by
    constructor
    · intro failed
      obtain ⟨_, final⟩ := outcome
      cases failed
      obtain ⟨past, number, split, _⟩ := course.of_error
      exact ⟨past, number, [], split⟩
    · rintro ⟨past, number, later, split⟩
      exact (course.last_of_failed split).2
  last past number fault later split := (course.last_of_failed split).1

/--
Whether what it means that a chunk is applied, with its result, holds once the chunk completes, and is
kept by every stretch of the other chunks.
-/
def Lasting (applied : Nat → β → σ → Prop) (number : Nat) (before : σ) (answer : Option β) (after : σ) :
    Prop :=
  (∀ result, answer = some result → applied number result after) ∧
    ∀ other result, other ≠ number → applied other result before → applied other result after

section Lasting

variable {pauses width : Nat} {operation : List ε → Task σ β pauses} {stage : Stage σ ε β}
  {occurrences : List (Occurrence β)} {outcome : Except Fault (List β) × World σ}
  {applied : Nat → β → σ → Prop}

theorem flies_of_turn {holds : Nat × Flight σ β → Prop} {before after : List (Nat × Flight σ β)}
    {turned : Nat × Flight σ β} (all : ∀ held ∈ before ++ turned :: after, holds held) :
    ∀ held ∈ turned :: (before ++ after), holds held := fun held member =>
  all held (List.perm_middle.mem_iff.mpr member)

theorem Course.stays (course : Course width operation stage occurrences outcome)
    (distinct : stage.numbers.Nodup)
    (waits : ∀ held ∈ stage.waiting, (operation held.1).Obeys (Lasting applied held.2))
    (flies : ∀ held ∈ stage.flying, held.2.work.Obeys (Lasting applied held.1)) :
    (∀ number result, number ∉ stage.numbers → applied number result stage.world.state →
      applied number result outcome.2.state) ∧
    ∀ done ∈ completions occurrences, applied done.1 done.2 outcome.2.state := by
  induction course with
  | finish => exact ⟨fun _ _ _ held => held, nofun⟩
  | @start world chunk number waiting flying results _ _ _ _ ih =>
    rw [List.forall_mem_cons] at waits
    rw [← Stage.numbers_start] at distinct ⊢
    refine ih distinct waits.2 ?_
    rw [List.forall_mem_append, List.forall_mem_singleton]
    exact ⟨flies, waits.1⟩
  | @pause world next number waiting before after flight rest results _ _ _ ran _ ih =>
    obtain ⟨here, others⟩ := List.forall_mem_cons.mp (flies_of_turn flies)
    obtain ⟨⟨_, kept⟩, obeys⟩ := Flight.advance_obeys here ran
    rw [← Stage.numbers_pause.nodup_iff] at distinct
    obtain ⟨stay, done⟩ := ih distinct waits (by
      rw [List.forall_mem_append, List.forall_mem_singleton]
      exact ⟨others, obeys⟩)
    refine ⟨fun other result apart held => ?_, done⟩
    rw [← Stage.numbers_pause.mem_iff] at apart
    refine stay other result apart (kept other result ?_ held)
    rintro rfl
    exact apart (by simp [Stage.numbers])
  | @complete world next number waiting before after flight result results _ _ _ ran _ ih =>
    obtain ⟨here, others⟩ := List.forall_mem_cons.mp (flies_of_turn flies)
    obtain ⟨applies, kept⟩ := Flight.advance_obeys here ran
    have turned : (Stage.numbers ⟨world, waiting, before ++ (number, flight) :: after, results⟩).Perm
        (number :: Stage.numbers ⟨next, waiting, before ++ after, results ++ [result]⟩) :=
      Stage.numbers_turn
    obtain ⟨alone, distinct⟩ := List.nodup_cons.mp (turned.nodup_iff.mp distinct)
    obtain ⟨stay, done⟩ := ih distinct waits others
    constructor
    · intro other result apart held
      rw [turned.mem_iff, List.mem_cons, not_or] at apart
      exact stay other result apart.2 (kept other result apart.1 held)
    · rw [completions_cons]
      exact List.forall_mem_cons.mpr ⟨stay number result alone (applies result rfl), done⟩
  | @fail world next number waiting before after flight fault results _ ran =>
    obtain ⟨here, _⟩ := List.forall_mem_cons.mp (flies_of_turn flies)
    obtain ⟨_, kept⟩ := Flight.advance_obeys here ran
    refine ⟨fun other result apart held => kept other result ?_ held, nofun⟩
    rintro rfl
    exact apart (by simp [Stage.numbers])

end Lasting

end Batch

end SharedTable
