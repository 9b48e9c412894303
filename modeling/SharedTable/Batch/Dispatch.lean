import SharedTable.Batch.Plan
import SharedTable.Task

/-!
Running the chunks of a batch. Chunks start in their order, a limited number of them at a time; which
of the chunks in flight goes on next is up to a schedule. The first failure ends the run.
-/

set_option autoImplicit false

namespace SharedTable.Batch

/--
Which of the chunks in flight goes on next, after a number of moves and given the moments from which
each of them can. The choice is taken modulo the number in flight, so every order has a schedule.
-/
abbrev Schedule := (moves : Nat) → (wakes : List Nat) → Nat

def Schedule.byClock : Schedule := fun _ wakes =>
  wakes.findIdx fun wake => wakes.all fun other => wake ≤ other

structure Dispatch (σ ε β : Type) where
  waiting : List (List ε)
  inFlight : List (Flight σ β)
  results : List β
  moves : Nat

namespace Dispatch

variable {σ ε β : Type} {pauses : Nat}

def ofChunks (pieces : List (List ε)) : Dispatch σ ε β := ⟨pieces, [], [], 0⟩

def start (width now : Nat) (operation : List ε → Task σ β pauses) (dispatch : Dispatch σ ε β) :
    Dispatch σ ε β :=
  let free := width - dispatch.inFlight.length
  { dispatch with
    waiting := dispatch.waiting.drop free
    inFlight := dispatch.inFlight ++
      (dispatch.waiting.take free).map fun chunk => ⟨now, pauses, operation chunk⟩ }

def turn (schedule : Schedule) (dispatch : Dispatch σ ε β) : Nat :=
  schedule dispatch.moves (dispatch.inFlight.map Flight.wake) % dispatch.inFlight.length

-- What a stretch of the chunk at a place leads to; behind a pause, the chunk queues up last.
def record (place : Nat) (dispatch : Dispatch σ ε β) (outcome : β ⊕ Flight σ β) :
    Dispatch σ ε β :=
  let others := dispatch.inFlight.eraseIdx place
  match outcome with
  | .inl result =>
    { dispatch with
      inFlight := others
      results := dispatch.results ++ [result]
      moves := dispatch.moves + 1 }
  | .inr flight => { dispatch with inFlight := others ++ [flight], moves := dispatch.moves + 1 }

def run (schedule : Schedule) (width : Nat) (operation : List ε → Task σ β pauses) :
    Nat → Dispatch σ ε β → Action σ (List β)
  | 0, dispatch => return dispatch.results
  | more + 1, dispatch => do
    let started := dispatch.start width (← Action.clock) operation
    let place := started.turn schedule
    match started.inFlight[place]? with
    | none => return started.results
    | some flight =>
      let outcome ← flight.advance
      run schedule width operation more (started.record place outcome)

end Dispatch

/-- Runs an operation on every chunk of a list, at most `width` chunks at a time. -/
def forEachChunk {σ ε β : Type} {pauses : Nat} (schedule : Schedule) (entries : List ε)
    (size width : Nat) (operation : List ε → Task σ β pauses) : Action σ (List β) :=
  let pieces := chunks size entries
  Dispatch.run schedule (max width 1) operation (pieces.length * (pauses + 1)) (.ofChunks pieces)

end SharedTable.Batch
