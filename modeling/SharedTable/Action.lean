import SharedTable.Event
import SharedTable.Fault

set_option autoImplicit false

namespace SharedTable

structure World (σ : Type) where
  state : σ
  events : List Event
  clock : Nat

/-- A step that may fail. What it changed and reported before failing stays. -/
abbrev Action (σ : Type) := ExceptT Fault (StateM (World σ))

namespace World

def ofState {σ : Type} (state : σ) : World σ := ⟨state, [], 0⟩

end World

namespace Action

variable {σ τ α : Type}

def report (event : Event) : Action σ Unit :=
  modify fun world => { world with events := world.events ++ [event] }

def ofExcept (result : Except Fault α) : Action σ α := ExceptT.mk (pure result)

def state : Action σ σ := do return (← get).state

def setState (state : σ) : Action σ Unit := modify fun world => { world with state }

def clock : Action σ Nat := do return (← get).clock

def waitUntil (moment : Nat) : Action σ Unit :=
  modify fun world => { world with clock := max world.clock moment }

def wait (milliseconds : Nat) : Action σ Unit := do
  waitUntil ((← clock) + milliseconds)

def within (part : τ → σ) (replace : τ → σ → τ) (action : Action σ α) : Action τ α :=
  ExceptT.mk fun world =>
    let (result, inner) := action.run ⟨part world.state, world.events, world.clock⟩
    (result, ⟨replace world.state inner.state, inner.events, inner.clock⟩)

end Action

end SharedTable
