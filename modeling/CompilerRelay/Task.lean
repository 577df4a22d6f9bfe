/-!
# Tasks

What the relay does in reaction to a request takes several steps, and between any two of them the compiler, the
clock and other tasks may change the state.

**Form.**  A task is finished, or it has a next step: a condition on the state under which the step can be taken,
what the step does to the state, and the task that is left after it.

**Semantics.**  `Task.Moves` relates a task and a state to those after any number of own steps and steps of the
surroundings.

**Results.**  `bind_done`, `done_bind`, `bind_assoc`: tasks compose as programs do.  `Moves.trans`: moves compose.
-/

namespace CompilerRelay

/-- A computation in steps over a state. -/
inductive Task (σ α : Type) : Type where
  | done (value : α)
  | step (ready : σ → Bool) (next : σ → σ) (rest : (state : σ) → ready state = true → Task σ α)

namespace Task

variable {σ τ α β γ : Type}

/-- A task followed by another that depends on its value. -/
def bind : Task σ α → (α → Task σ β) → Task σ β
  | .done value, follow => follow value
  | .step ready next rest, follow => .step ready next fun state can => (rest state can).bind follow

instance : Monad (Task σ) where
  pure := .done
  bind := Task.bind

@[simp] theorem done_bind (value : α) (follow : α → Task σ β) :
    (Task.done value).bind follow = follow value := rfl

@[simp] theorem bind_done (task : Task σ α) : task.bind .done = task := by
  induction task with
  | done value => rfl
  | step ready next rest ih =>
      simp only [bind]
      congr 1
      funext state can
      exact ih state can

theorem bind_assoc (task : Task σ α) (second : α → Task σ β) (third : β → Task σ γ) :
    (task.bind second).bind third = task.bind fun value => (second value).bind third := by
  induction task with
  | done value => rfl
  | step ready next rest ih =>
      simp only [bind]
      congr 1
      funext state can
      exact ih state can

/-- Change the state at once and give a value. -/
def act (change : σ → α × σ) : Task σ α :=
  .step (fun _ => true) (fun state => (change state).2) fun state _ => .done (change state).1

/-- Change the state at once. -/
def update (change : σ → σ) : Task σ Unit :=
  act fun state => ((), change state)

/-- Look at the state. -/
def look (view : σ → α) : Task σ α :=
  act fun state => (view state, state)

/-- Wait until the state has something to give. -/
def await (poll : σ → Option α) : Task σ α :=
  .step (fun state => (poll state).isSome) id fun state there => .done ((poll state).get there)

/-- Wait until something can be taken from the state, and take it. -/
def take (poll : σ → Option (α × σ)) : Task σ α :=
  .step (fun state => (poll state).isSome) (fun state => ((poll state).map Prod.snd).getD state)
    fun state there => .done ((poll state).get there).1

/-- A task over a part of a state. -/
def zoom (get : τ → σ) (set : σ → τ → τ) : Task σ α → Task τ α
  | .done value => .done value
  | .step ready next rest =>
      .step (fun whole => ready (get whole)) (fun whole => set (next (get whole)) whole)
        fun whole can => (rest (get whole) can).zoom get set

/-- Whether a task is finished. -/
def isDone : Task σ α → Bool
  | .done _ => true
  | .step _ _ _ => false

/-- The value of a finished task. -/
def value? : Task σ α → Option α
  | .done value => some value
  | .step _ _ _ => none

theorem value?_eq_some {task : Task σ α} {value : α} (h : task.value? = some value) : task = .done value := by
  cases task with
  | done other => exact congrArg Task.done (Option.some.inj h)
  | step ready next rest => cases h

/-- Take the next step of a task, if it can be taken. -/
def advance? (task : Task σ α) (state : σ) : Option (Task σ α × σ) :=
  match task with
  | .done _ => none
  | .step ready next rest => if can : ready state = true then some (rest state can, next state) else none

/-- What a task and its surroundings may do, in any number of steps. -/
inductive Moves (surroundings : σ → σ → Prop) : Task σ α → σ → Task σ α → σ → Prop where
  | refl (task : Task σ α) (state : σ) : Moves surroundings task state task state
  /-- The surroundings change the state. -/
  | around {task last : Task σ α} {before between after : σ} (change : surroundings before between)
      (more : Moves surroundings task between last after) : Moves surroundings task before last after
  /-- The task takes its next step. -/
  | own {task left last : Task σ α} {before between after : σ} (taken : task.advance? before = some (left, between))
      (more : Moves surroundings left between last after) : Moves surroundings task before last after

theorem Moves.trans
    {surroundings : σ → σ → Prop} {first second third : Task σ α} {before between after : σ}
    (left : Moves surroundings first before second between)
    (right : Moves surroundings second between third after) :
    Moves surroundings first before third after := by
  induction left with
  | refl => exact right
  | around change _ ih => exact .around change (ih right)
  | own taken _ ih => exact .own taken (ih right)

end Task
end CompilerRelay
