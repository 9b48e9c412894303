import SharedTable.Action

/-!
Work with pauses. A task runs in stretches; while it pauses other tasks may run. The type of a task
bounds its pauses, so every way of running it ends.
-/

set_option autoImplicit false

namespace SharedTable

inductive Stretch (ρ α : Type) where
  | done (result : α)
  | pause (milliseconds : Nat) (rest : ρ)

def Task (σ α : Type) : Nat → Type
  | 0 => Action σ α
  | pauses + 1 => Action σ (Stretch (Task σ α pauses) α)

namespace Task

variable {σ τ α : Type}

def fail (fault : Fault) : {pauses : Nat} → Task σ α pauses
  | 0 => (throw fault : Action σ α)
  | pauses + 1 => (throw fault : Action σ (Stretch (Task σ α pauses) α))

def finish (result : α) : {pauses : Nat} → Task σ α pauses
  | 0 => (return result : Action σ α)
  | pauses + 1 => (return .done result : Action σ (Stretch (Task σ α pauses) α))

def map {β : Type} (f : α → β) : {pauses : Nat} → Task σ α pauses → Task σ β pauses
  | 0, work => (f <$> (work : Action σ α) : Action σ β)
  | pauses + 1, work => show Action σ (Stretch (Task σ β pauses) β) from do
    match ← (work : Action σ (Stretch (Task σ α pauses) α)) with
    | .done result => return .done (f result)
    | .pause milliseconds rest => return .pause milliseconds (rest.map f)

def run : {pauses : Nat} → Task σ α pauses → Action σ α
  | 0, work => work
  | pauses + 1, work => do
    match ← (work : Action σ (Stretch (Task σ α pauses) α)) with
    | .done result => return result
    | .pause milliseconds rest =>
      Action.wait milliseconds
      rest.run

def through (lift : {β : Type} → Action σ β → Action τ β) :
    {pauses : Nat} → Task σ α pauses → Task τ α pauses
  | 0, work => lift (work : Action σ α)
  | pauses + 1, work => show Action τ (Stretch (Task τ α pauses) α) from do
    match ← lift (work : Action σ (Stretch (Task σ α pauses) α)) with
    | .done result => return .done result
    | .pause milliseconds rest => return .pause milliseconds (rest.through lift)

def after (step : Action σ Unit) : {pauses : Nat} → Task σ α pauses → Task σ α pauses
  | 0, work => (do step; work : Action σ α)
  | pauses + 1, work => (do step; work : Action σ (Stretch (Task σ α pauses) α))

end Task

structure Flight (σ α : Type) where
  wake : Nat
  pauses : Nat
  work : Task σ α pauses

namespace Flight

variable {σ α : Type}

def advance (flight : Flight σ α) : Action σ (α ⊕ Flight σ α) := do
  Action.waitUntil flight.wake
  match flight with
  | ⟨_, 0, work⟩ => return .inl (← (work : Action σ α))
  | ⟨_, pauses + 1, work⟩ =>
    match ← (work : Action σ (Stretch (Task σ α pauses) α)) with
    | .done result => return .inl result
    | .pause milliseconds rest => return .inr ⟨(← Action.clock) + milliseconds, pauses, rest⟩

end Flight

end SharedTable
