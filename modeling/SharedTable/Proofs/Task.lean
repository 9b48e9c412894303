import SharedTable.Proofs.Action
import SharedTable.Task

set_option autoImplicit false

namespace SharedTable

def World.waited {σ : Type} (world : World σ) (milliseconds : Nat) : World σ :=
  { world with clock := max world.clock (world.clock + milliseconds) }

@[simp] theorem World.waited_state {σ : Type} (world : World σ) (milliseconds : Nat) :
    (world.waited milliseconds).state = world.state := rfl

namespace Task

variable {σ α β : Type}

theorem run_fail (fault : Fault) {pauses : Nat} (world : World σ) :
    ExceptT.run (fail fault : Task σ α pauses).run world = (.error fault, world) := by
  cases pauses <;> rfl

theorem run_finish (result : α) {pauses : Nat} (world : World σ) :
    ExceptT.run (finish result : Task σ α pauses).run world = (.ok result, world) := by
  cases pauses <;> rfl

section Stretch

variable {pauses : Nat} {stretch : Action σ (Stretch (Task σ α pauses) α)} {world next : World σ}

theorem run_of_error {fault : Fault} (ran : stretch.run world = (.error fault, next)) :
    ExceptT.run (@run σ α (pauses + 1) stretch) world = (.error fault, next) :=
  Action.run_bind_error ran

theorem run_of_done {result : α} (ran : stretch.run world = (.ok (.done result), next)) :
    ExceptT.run (@run σ α (pauses + 1) stretch) world = (.ok result, next) :=
  Action.run_bind_ok ran

theorem run_of_pause {milliseconds : Nat} {rest : Task σ α pauses}
    (ran : stretch.run world = (.ok (.pause milliseconds rest), next)) :
    ExceptT.run (@run σ α (pauses + 1) stretch) world =
      ExceptT.run rest.run (next.waited milliseconds) :=
  Action.run_bind_ok ran

end Stretch

theorem run_map (f : α → β) {pauses : Nat} (work : Task σ α pauses) (world : World σ) :
    ExceptT.run (work.map f).run world =
      ((ExceptT.run work.run world).1.map f, (ExceptT.run work.run world).2) := by
  induction pauses generalizing world with
  | zero => exact Action.run_map f (work : Action σ α) world
  | succ pauses ih =>
    let stretch : Action σ (Stretch (Task σ α pauses) α) := work
    rcases ran : stretch.run world with ⟨fault | ⟨result⟩ | ⟨milliseconds, rest⟩, next⟩
    -- The mapped stretch ends as the stretch does, with its result or the rest behind it mapped.
    next =>
      rw [run_of_error ran]
      exact run_of_error (Action.run_bind_error ran)
    next =>
      rw [run_of_done ran]
      exact run_of_done (Action.run_bind_ok ran)
    next =>
      rw [run_of_pause ran, ← ih]
      exact run_of_pause (Action.run_bind_ok ran)

end Task

end SharedTable
