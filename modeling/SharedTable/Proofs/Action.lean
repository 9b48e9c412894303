import SharedTable.Action

set_option autoImplicit false

namespace SharedTable

def World.reported {σ : Type} (world : World σ) (event : Event) : World σ :=
  { world with events := world.events ++ [event] }

@[simp] theorem World.reported_state {σ : Type} (world : World σ) (event : Event) :
    (world.reported event).state = world.state := rfl

namespace Action

variable {σ α β : Type}

theorem run_bind (action : Action σ α) (rest : α → Action σ β) (world : World σ) :
    (action >>= rest).run world =
      match action.run world with
      | (.ok result, next) => (rest result).run next
      | (.error fault, next) => (.error fault, next) := by
  change (ExceptT.bindCont rest (action.run world).1) (action.run world).2 = _
  rcases action.run world with ⟨_ | _, _⟩ <;> rfl

theorem run_bind_ok {action : Action σ α} {rest : α → Action σ β} {world next : World σ}
    {result : α} (ran : action.run world = (.ok result, next)) :
    (action >>= rest).run world = (rest result).run next := by
  simp only [run_bind, ran]

theorem run_bind_error {action : Action σ α} {rest : α → Action σ β} {world next : World σ}
    {fault : Fault} (ran : action.run world = (.error fault, next)) :
    (action >>= rest).run world = (.error fault, next) := by
  simp only [run_bind, ran]

theorem run_map (f : α → β) (action : Action σ α) (world : World σ) :
    (f <$> action).run world = ((action.run world).1.map f, (action.run world).2) := by
  rw [← bind_pure_comp, run_bind]
  rcases action.run world with ⟨_ | _, _⟩ <;> rfl

theorem run_tryCatch (action : Action σ α) (handler : Fault → Action σ α) (world : World σ) :
    (tryCatch action handler).run world =
      match action.run world with
      | (.ok result, next) => (.ok result, next)
      | (.error fault, next) => (handler fault).run next := by
  rcases ran : action.run world with ⟨answer, next⟩
  -- `run` of the transformer is the function itself.
  change action world = (answer, next) at ran
  simp only [tryCatch, tryCatchThe, MonadExceptOf.tryCatch, ExceptT.tryCatch, ExceptT.run_mk, bind,
    StateT.bind, ran]
  cases answer <;> rfl

@[simp] theorem run_pure (result : α) (world : World σ) :
    (pure result : Action σ α).run world = (.ok result, world) := rfl

@[simp] theorem run_throw (fault : Fault) (world : World σ) :
    (throw fault : Action σ α).run world = (.error fault, world) := rfl

@[simp] theorem run_ofExcept (result : Except Fault α) (world : World σ) :
    (ofExcept result : Action σ α).run world = (result, world) := rfl

@[simp] theorem run_report (event : Event) (world : World σ) :
    (report event).run world = (.ok (), world.reported event) := rfl

@[simp] theorem run_state (world : World σ) : (state : Action σ σ).run world = (.ok world.state, world) :=
  rfl

@[simp] theorem run_setState (replaced : σ) (world : World σ) :
    (setState replaced).run world = (.ok (), { world with state := replaced }) := rfl

@[simp] theorem run_clock (world : World σ) :
    (clock : Action σ Nat).run world = (.ok world.clock, world) := rfl

@[simp] theorem run_waitUntil (moment : Nat) (world : World σ) :
    (waitUntil moment : Action σ Unit).run world =
      (.ok (), { world with clock := max world.clock moment }) := rfl

end Action

end SharedTable
