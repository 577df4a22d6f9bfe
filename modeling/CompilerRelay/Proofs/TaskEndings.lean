import CompilerRelay.Proofs.TaskAssertions

/-!
# The ends of tasks

When a task cannot be stuck, and what it ends with.

**Form.**  `Task.Unblocked wakes task`: in the states that wake the task, every step of it can be taken.
`Task.Gives holds property task`: if its steps are taken in states that hold, what the task ends with has the property.

**Results.**
* `Task.Moves.of_act_bind`, `Task.Moves.of_bind_ok`: a run that came to its end, cut where a step was taken or where the
  first part was over.
* `Task.Unblocked.exists_alone?`: a task that stays awake ends, if it is left alone.
* `Task.Gives.moves`: what holds throughout a run tells what is left of the task.
-/

namespace CompilerRelay
namespace Task

variable {σ α β ε : Type} {around relation : σ → σ → Prop}

/-! ## Runs that came to their end -/

theorem Moves.eq_of_done
    {value : α} {left : Task σ α} {before after : σ} (h : Moves around (.done value) before left after) :
    left = .done value := by
  generalize htask : Task.done value = task at h
  induction h with
  | refl => rfl
  | around _ _ ih => exact ih htask
  | own htaken _ _ =>
      subst htask
      cases htaken

/-- Beside a task that is finished only the surroundings go on, and they do so beside every other task. -/
theorem Moves.beside
    {value : α} {left : Task σ α} {before after : σ} (h : Moves around (.done value) before left after)
    (other : Task σ β) :
    Moves around other before other after := by
  generalize htask : Task.done value = task at h
  induction h with
  | refl => exact .refl _ _
  | around hchange _ ih => exact .around hchange (ih htask)
  | own htaken _ _ =>
      subst htask
      cases htaken

/-- A run of two tasks that came to its end, cut where the first of them was over. -/
theorem Moves.of_bind_done
    {task : Task σ α} {follow : α → Task σ β} {result : β} {before after : σ}
    (h : Moves around (task.bind follow) before (.done result) after) :
    ∃ value between, Moves around task before (.done value) between ∧
      Moves around (follow value) between (.done result) after := by
  rcases h.of_bind with ⟨rest, hrest, hmoves⟩ | hlater
  · obtain ⟨value, rfl, hend⟩ := eq_done_of_bind hrest.symm
    exact ⟨value, after, hmoves, hend ▸ .refl _ _⟩
  · exact hlater

/-- A run that begins with a change of the state and came to its end, cut at the change; until then only the surroundings
went on. -/
theorem Moves.of_act_bind
    {change : σ → α × σ} (follow : α → Task σ β) {result : β} {before after : σ}
    (h : Moves around ((act change).bind follow) before (.done result) after) :
    ∃ state, Moves around (Task.done ()) before (Task.done ()) state ∧
      Moves around (follow (change state).1) (change state).2 (.done result) after := by
  generalize htask : (act change).bind follow = task at h
  generalize hlast : Task.done result = last at h
  induction h with
  | refl =>
      subst hlast
      cases htask
  | around hchange _ ih =>
      obtain ⟨state, hmoves, hrest⟩ := ih htask hlast
      exact ⟨state, .around hchange hmoves, hrest⟩
  | @own task left last before between after htaken hmore _ =>
      subst htask hlast
      refine ⟨before, .refl _ _, ?_⟩
      obtain ⟨rfl, rfl⟩ := Prod.mk.inj (Option.some.inj htaken)
      exact hmore

/-- A run of two parts that came to its end: the first part failed, or it was cut where that had come to a good end. -/
theorem Moves.of_run_bind
    {task : ExceptT ε (Task σ) α} {follow : α → ExceptT ε (Task σ) β} {result : Except ε β} {before after : σ}
    (h : Moves around (task >>= follow).run before (.done result) after) :
    (∃ failure, result = .error failure ∧ Moves around task.run before (.done (.error failure)) after) ∨
    ∃ value between, Moves around task.run before (.done (.ok value)) between ∧
      Moves around (follow value).run between (.done result) after := by
  obtain ⟨outcome, between, hfirst, hsecond⟩ := Moves.of_bind_done h
  cases outcome with
  | ok value => exact .inr ⟨value, between, hfirst, hsecond⟩
  | error failure =>
      obtain rfl := Task.done.inj hsecond.eq_of_done
      exact .inl ⟨failure, rfl, hfirst.trans (hsecond.beside _)⟩

/-- A run that came to a good end, cut where its first part had come to a good end. -/
theorem Moves.of_bind_ok
    {task : ExceptT ε (Task σ) α} {follow : α → ExceptT ε (Task σ) β} {result : β} {before after : σ}
    (h : Moves around (task >>= follow).run before (.done (.ok result)) after) :
    ∃ value between, Moves around task.run before (.done (.ok value)) between ∧
      Moves around (follow value).run between (.done (.ok result)) after := by
  rcases h.of_run_bind with ⟨failure, hfailure, -⟩ | hcut
  · cases hfailure
  · exact hcut

/-! ## Tasks that cannot be stuck -/

/-- In the states that wake the task, every step of it can be taken. -/
def Unblocked (wakes : σ → Prop) : Task σ α → Prop
  | .done _ => True
  | .step ready _ rest =>
      (∀ state, wakes state → ready state = true) ∧ ∀ state can, (rest state can).Unblocked wakes

section Unblocked

variable {wakes : σ → Prop}

theorem Unblocked.bind
    {task : Task σ α} (h : task.Unblocked wakes) {follow : α → Task σ β} (hfollow : ∀ value, (follow value).Unblocked wakes) :
    (task.bind follow).Unblocked wakes := by
  induction task with
  | done value => exact hfollow value
  | step ready next rest ih =>
      obtain ⟨hready, hrest⟩ := h
      exact ⟨hready, fun state can => ih state can (hrest state can)⟩

theorem unblocked_act (change : σ → α × σ) : (act change).Unblocked wakes :=
  ⟨fun _ _ => rfl, fun _ _ => trivial⟩

theorem unblocked_await
    {poll : σ → Option α} (h : ∀ state, wakes state → (poll state).isSome = true) :
    (await poll).Unblocked wakes :=
  ⟨h, fun _ _ => trivial⟩

theorem unblocked_lift
    {sure : Task σ α} (h : sure.Unblocked wakes) :
    (ExceptT.lift sure : ExceptT ε (Task σ) α).run.Unblocked wakes :=
  h.bind fun _ => trivial

theorem unblocked_bind
    {task : ExceptT ε (Task σ) α} (h : task.run.Unblocked wakes)
    {follow : α → ExceptT ε (Task σ) β} (hfollow : ∀ value, (follow value).run.Unblocked wakes) :
    (task >>= follow).run.Unblocked wakes := by
  refine h.bind fun outcome => ?_
  cases outcome with
  | ok value => exact hfollow value
  | error failure => trivial

/-- What is left of the task cannot be stuck either. -/
theorem Unblocked.moves
    {task left : Task σ α} (h : task.Unblocked wakes) {before after : σ} (hmoves : Moves around task before left after) :
    left.Unblocked wakes := by
  induction hmoves with
  | refl => exact h
  | around _ _ ih => exact ih h
  | own htaken _ ih =>
      obtain ⟨ready, next, rest, can, rfl, rfl, rfl⟩ := exists_of_advance? htaken
      exact ih (h.2 _ can)

/-- A task that stays awake by its own steps ends, if it is left alone. -/
theorem Unblocked.exists_alone?
    {task : Task σ α} (h : task.Unblocked wakes) (hwithin : task.Within relation)
    (holds : σ → Prop) (hkept : ∀ before after, relation before after → holds before → holds after)
    (hwakes : ∀ state, holds state → wakes state) {state : σ} (hstate : holds state) :
    ∃ value after, task.alone? state = some (value, after) := by
  induction task generalizing state with
  | done value => exact ⟨value, state, rfl⟩
  | step ready next rest ih =>
      have hready := h.1 state (hwakes state hstate)
      obtain ⟨value, after, halone⟩ := ih state hready (h.2 state hready) (hwithin.2 state hready)
        (hkept state (next state) (hwithin.1 state hready) hstate)
      exact ⟨value, after, by rw [alone?, dif_pos hready, halone]⟩

end Unblocked

/-! ## What tasks end with in states that hold -/

/-- If its steps are taken in states that hold, what the task ends with has the property. -/
def Gives (holds : σ → Prop) (property : α → Prop) : Task σ α → Prop
  | .done value => property value
  | .step ready _ rest => ∀ state (can : ready state = true), holds state → (rest state can).Gives holds property

section Gives

variable {holds : σ → Prop} {property : α → Prop}

theorem Gives.bind
    {task : Task σ α} (h : task.Gives holds property)
    {other : β → Prop} {follow : α → Task σ β} (hfollow : ∀ value, property value → (follow value).Gives holds other) :
    (task.bind follow).Gives holds other := by
  induction task with
  | done value => exact hfollow value h
  | step ready next rest ih => exact fun state can hstate => ih state can (h state can hstate)

theorem gives_act
    {change : σ → α × σ} (h : ∀ state, holds state → property (change state).1) :
    (act change).Gives holds property :=
  fun state _ hstate => h state hstate

theorem gives_await
    {poll : σ → Option α} (h : ∀ state value, holds state → poll state = some value → property value) :
    (await poll).Gives holds property :=
  fun state there hstate => h state _ hstate (Option.some_get there).symm

/-- What holds throughout a run tells what is left of the task. -/
theorem Gives.moves
    (hrefl : ∀ state, relation state state)
    (htrans : ∀ {first second third}, relation first second → relation second third → relation first third)
    (haround : ∀ {first second}, around first second → relation first second)
    {task left : Task σ α} (h : task.Gives holds property) (hwithin : task.Within relation)
    {before after : σ} (hmoves : Moves around task before left after)
    (hholds : ∀ state, relation before state → relation state after → holds state) :
    left.Gives holds property := by
  induction hmoves with
  | refl => exact h
  | around hchange _ ih =>
      exact ih h hwithin fun state hbefore => hholds state (htrans (haround hchange) hbefore)
  | own htaken hmore ih =>
      obtain ⟨hstep, hrest⟩ := hwithin.advance htaken
      have hlater := (hmore.related hrefl htrans haround hrest).1
      have hnow := hholds _ (hrefl _) (htrans hstep hlater)
      obtain ⟨ready, next, rest, can, rfl, rfl, rfl⟩ := exists_of_advance? htaken
      exact ih (h _ can hnow) hrest fun state hbefore => hholds state (htrans hstep hbefore)

end Gives
end Task
end CompilerRelay
