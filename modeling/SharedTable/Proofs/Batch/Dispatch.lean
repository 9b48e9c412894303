import Mathlib.Data.List.InsertIdx
import Mathlib.Data.List.Perm.Basic
import SharedTable.Batch.Dispatch
import SharedTable.Proofs.Action
import SharedTable.Proofs.Batch.Plan

set_option autoImplicit false

namespace SharedTable

section

variable {σ β : Type}

theorem Flight.advance_run {wake : Nat} {work : Task σ β 0} {world next : World σ} {result : β}
    (ran : (work : Action σ β).run { world with clock := max world.clock wake } =
      (.ok result, next)) :
    (Flight.advance ⟨wake, 0, work⟩).run world = (.ok (.inl result), next) := by
  unfold Flight.advance
  rw [Action.run_bind_ok (Action.run_waitUntil wake world)]
  exact Action.run_bind_ok ran

end

namespace Batch

variable {σ ε β : Type}

def Steady (operation : List ε → Task σ β 0) (step : List ε → StateM σ β) (chunk : List ε) : Prop :=
  ∀ world : World σ, ∃ next : World σ,
    (operation chunk : Action σ β).run world = (.ok ((step chunk).run world.state).1, next) ∧
      next.state = ((step chunk).run world.state).2

namespace Dispatch

variable {operation : List ε → Task σ β 0} {step : List ε → StateM σ β} {schedule : Schedule}
  {width : Nat}

def launched (operation : List ε → Task σ β 0) (flying : List (Nat × List ε)) : List (Flight σ β) :=
  flying.map fun held => ⟨held.1, 0, operation held.2⟩

theorem start_launched (wide : 0 < width) {dispatch : Dispatch σ ε β} {flying : List (Nat × List ε)}
    (flown : dispatch.inFlight = launched operation flying)
    (some : 0 < flying.length + dispatch.waiting.length) (now : Nat) :
    ∃ later, (dispatch.start width now operation).inFlight = launched operation later ∧
      later.map Prod.snd ++ (dispatch.start width now operation).waiting =
        flying.map Prod.snd ++ dispatch.waiting ∧ 0 < later.length := by
  refine ⟨flying ++ (dispatch.waiting.take (width - flying.length)).map fun chunk => (now, chunk),
    ?_, ?_, ?_⟩
  · simp [start, flown, launched, Function.comp_def]
  · simp [start, flown, launched, Function.comp_def]
  · rw [List.length_append, List.length_map, List.length_take]
    omega

theorem record_launched {dispatch : Dispatch σ ε β} {flying : List (Nat × List ε)}
    (flown : dispatch.inFlight = launched operation flying) (place : Nat) (result : β) :
    (dispatch.record place (.inl result)).inFlight = launched operation (flying.eraseIdx place) := by
  simp [record, flown, launched, List.eraseIdx_map]

theorem run_succ {dispatch started : Dispatch σ ε β} {world next : World σ}
    (begun : dispatch.start width world.clock operation = started) {wake : Nat} {chunk : List ε}
    (turned : started.inFlight[started.turn schedule]? = some ⟨wake, 0, operation chunk⟩) {result : β}
    (ran : (operation chunk : Action σ β).run { world with clock := max world.clock wake } =
      (.ok result, next)) (more : Nat) :
    (run schedule width operation (more + 1) dispatch).run world =
      (run schedule width operation more (started.record (started.turn schedule) (.inl result))).run
        next := by
  rw [run, Action.run_bind_ok (Action.run_clock world), begun]
  simp only [turned]
  exact Action.run_bind_ok (Flight.advance_run ran)

theorem run_steady (wide : 0 < width) {more : Nat} (dispatch : Dispatch σ ε β)
    {flying : List (Nat × List ε)} (flown : dispatch.inFlight = launched operation flying)
    (enough : more = flying.length + dispatch.waiting.length)
    (steady : ∀ chunk ∈ flying.map Prod.snd ++ dispatch.waiting, Steady operation step chunk)
    (world : World σ) :
    ∃ (done : List (List ε)) (results : List β) (next : World σ),
      done.Perm (flying.map Prod.snd ++ dispatch.waiting) ∧
      (run schedule width operation more dispatch).run world =
        (.ok (dispatch.results ++ results), next) ∧
      (done.mapM step).run world.state = (results, next.state) := by
  -- By induction on the moves left, one for every chunk. The chunk whose turn it is comes first in the
  -- order, and the run goes on with those in flight and those still waiting.
  induction more generalizing dispatch flying world with
  | zero =>
    have empty : flying = [] := List.eq_nil_of_length_eq_zero (by omega)
    have started : dispatch.waiting = [] := List.eq_nil_of_length_eq_zero (by omega)
    refine ⟨[], [], world, ?_, ?_, rfl⟩
    · rw [empty, started]
      exact .refl _
    · rw [List.append_nil]
      rfl
  | succ more ih =>
    let started := dispatch.start width world.clock operation
    obtain ⟨later, launch, same, some⟩ : ∃ later, started.inFlight = launched operation later ∧
        later.map Prod.snd ++ started.waiting = flying.map Prod.snd ++ dispatch.waiting ∧
        0 < later.length := start_launched wide flown (by omega) world.clock
    have inside : started.turn schedule < later.length := by
      rw [turn, launch, launched, List.length_map]
      exact Nat.mod_lt _ some
    let chosen := later[started.turn schedule]
    have turned : started.inFlight[started.turn schedule]? =
        Option.some ⟨chosen.1, 0, operation chosen.2⟩ := by
      rw [launch, launched, List.getElem?_map, List.getElem?_eq_getElem inside]
      rfl
    have first : (chosen :: later.eraseIdx (started.turn schedule)).Perm later :=
      List.getElem_cons_eraseIdx_perm inside
    have order : (chosen.2 :: ((later.eraseIdx (started.turn schedule)).map Prod.snd ++
        started.waiting)).Perm (flying.map Prod.snd ++ dispatch.waiting) := by
      rw [← same]
      exact (first.map Prod.snd).append_right started.waiting
    have fewer : more = (later.eraseIdx (started.turn schedule)).length + started.waiting.length := by
      have lengths := order.length_eq
      simp only [List.length_cons, List.length_append, List.length_map] at lengths
      omega
    -- The order is a rearrangement, so whatever holds of the waiting chunks holds along it.
    simp only [← order.mem_iff, List.forall_mem_cons] at steady
    obtain ⟨middle, ran, left⟩ := steady.1 { world with clock := max world.clock chosen.1 }
    let result := ((step chosen.2).run world.state).1
    obtain ⟨done, results, next, all, rest, steps⟩ :=
      ih (started.record (started.turn schedule) (.inl result))
        (record_launched launch _ _) fewer steady.2 middle
    refine ⟨chosen.2 :: done, result :: results, next, (all.cons _).trans order, ?_, ?_⟩
    · rw [run_succ rfl turned ran, rest]
      simp [record, started, start]
    · rw [left] at steps
      rw [List.mapM_cons]
      change (fun following => ((result :: following.1 : List β), following.2))
        ((done.mapM step).run ((step chosen.2).run world.state).2) = _
      rw [steps]

end Dispatch

/-- A batch over an operation that never fails amounts to its chunks one after another, in some order. -/
theorem forEachChunk_steady {operation : List ε → Task σ β 0} {step : List ε → StateM σ β}
    {entries : List ε} {size : Nat}
    (steady : ∀ chunk ∈ chunks size entries, Steady operation step chunk) (schedule : Schedule)
    (width : Nat) (world : World σ) :
    ∃ (done : List (List ε)) (results : List β) (next : World σ), done.Perm (chunks size entries) ∧
      (forEachChunk schedule entries size width operation).run world = (.ok results, next) ∧
      (done.mapM step).run world.state = (results, next.state) :=
  Dispatch.run_steady (Nat.lt_of_lt_of_le Nat.one_pos (Nat.le_max_right width 1))
    (.ofChunks (chunks size entries)) (show [] = Dispatch.launched operation [] from rfl)
    (by simp [Dispatch.ofChunks]) steady world

end Batch

end SharedTable
