import CompilerRelay.Task

/-!
# Steps of tasks

What holds of every step that a task takes itself, and what follows for its runs among others.

**Form.**  `Task.Within relation task`: every step of the task, taken in whatever state, relates the state before it
to the state after it.  `Task.Yields property task`: whatever the task ends with has the property.
`Task.Emits does holds task`: every step is some deeds, and the deeds of a whole run fit what the task ends with.
`Task.Follows does fits earlier holds task`: besides, after every step the deeds so far are fit, whether or not the task
comes to its end.

**Composition.**  There is one lemma for each way to build a task, and for each way to build one that may fail.

**Results.**  `Task.Moves.related`: if the relation is a preorder that the surroundings keep as well, then it holds
between any two states of a run.
-/

namespace CompilerRelay
namespace Task

variable {σ α β ε : Type} {relation : σ → σ → Prop}

/-- Every own step of the task relates the states before and after it. -/
def Within (relation : σ → σ → Prop) : Task σ α → Prop
  | .done _ => True
  | .step ready next rest =>
      (∀ state, ready state = true → relation state (next state)) ∧
      ∀ state can, (rest state can).Within relation

@[simp] theorem within_done (value : α) :
    (Task.done value : Task σ α).Within relation := trivial

theorem Within.bind
    {task : Task σ α} (h : task.Within relation)
    {follow : α → Task σ β}
    (hfollow : ∀ value, (follow value).Within relation) :
    (task.bind follow).Within relation := by
  induction task with
  | done value => exact hfollow value
  | step ready next rest ih =>
      obtain ⟨hnext, hrest⟩ := h
      exact ⟨hnext, fun state can => ih state can (hrest state can)⟩

theorem Within.mono
    {task : Task σ α} (h : task.Within relation)
    {other : σ → σ → Prop} (himp : ∀ before after, relation before after → other before after) :
    task.Within other := by
  induction task with
  | done value => trivial
  | step ready next rest ih =>
      obtain ⟨hnext, hrest⟩ := h
      exact ⟨fun state can => himp _ _ (hnext state can), fun state can => ih state can (hrest state can)⟩

/-- What a task is followed by says nothing of its own steps. -/
theorem Within.of_bind
    {task : Task σ α} {follow : α → Task σ β} (h : (task.bind follow).Within relation) :
    task.Within relation := by
  induction task with
  | done value => trivial
  | step ready next rest ih =>
      obtain ⟨hnext, hrest⟩ := h
      exact ⟨hnext, fun state can => ih state can (hrest state can)⟩

theorem within_act
    {change : σ → α × σ}
    (h : ∀ state, relation state (change state).2) :
    (act change).Within relation :=
  ⟨fun state _ => h state, fun _ _ => trivial⟩

theorem within_update
    {change : σ → σ}
    (h : ∀ state, relation state (change state)) :
    (update change).Within relation :=
  within_act h

theorem within_look
    (hrefl : ∀ state, relation state state) (view : σ → α) :
    (look view).Within relation :=
  within_act hrefl

theorem within_await
    (hrefl : ∀ state, relation state state) (poll : σ → Option α) :
    (await poll).Within relation :=
  ⟨fun state _ => hrefl state, fun _ _ => trivial⟩

/-- The step that a task takes is its first. -/
theorem exists_of_advance?
    {task left : Task σ α} {before after : σ}
    (htaken : task.advance? before = some (left, after)) :
    ∃ (ready : σ → Bool) (next : σ → σ) (rest : (state : σ) → ready state = true → Task σ α)
      (can : ready before = true),
      task = .step ready next rest ∧ left = rest before can ∧ after = next before := by
  cases task with
  | done value => cases htaken
  | step ready next rest =>
      by_cases hready : ready before = true
      · simp only [advance?, hready, dif_pos, Option.some.injEq, Prod.mk.injEq] at htaken
        obtain ⟨rfl, rfl⟩ := htaken
        exact ⟨ready, next, rest, hready, rfl, rfl, rfl⟩
      · simp [advance?, hready] at htaken

/-- The step that a task takes is within the relation, and so is what is left of the task. -/
theorem Within.advance
    {task left : Task σ α} (h : task.Within relation)
    {before after : σ}
    (htaken : task.advance? before = some (left, after)) :
    relation before after ∧ left.Within relation := by
  obtain ⟨ready, next, rest, can, rfl, rfl, rfl⟩ := exists_of_advance? htaken
  exact ⟨h.1 before can, h.2 before can⟩

/-- What every step keeps, of the task and of the surroundings, a run keeps. -/
theorem Moves.related
    {surroundings : σ → σ → Prop}
    (hrefl : ∀ state, relation state state)
    (htrans : ∀ {first second third}, relation first second → relation second third → relation first third)
    (haround : ∀ {first second}, surroundings first second → relation first second)
    {task left : Task σ α} (h : task.Within relation)
    {before after : σ}
    (hmoves : Moves surroundings task before left after) :
    relation before after ∧ left.Within relation := by
  induction hmoves with
  | refl task state => exact ⟨hrefl state, h⟩
  | around hchange _ ih =>
      obtain ⟨hmore, hleft⟩ := ih h
      exact ⟨htrans (haround hchange) hmore, hleft⟩
  | own htaken _ ih =>
      obtain ⟨hstep, hrest⟩ := h.advance htaken
      obtain ⟨hmore, hleft⟩ := ih hrest
      exact ⟨htrans hstep hmore, hleft⟩

/-- A task over a part of a state changes nothing but the part. -/
theorem within_zoom
    {τ : Type} {relation : τ → τ → Prop} {get : τ → σ} {set : σ → τ → τ}
    (h : ∀ part whole, relation whole (set part whole)) (task : Task σ α) :
    (task.zoom get set).Within relation := by
  induction task with
  | done value => trivial
  | step ready next rest ih => exact ⟨fun whole _ => h _ whole, fun whole can => ih (get whole) can⟩

/-- What a task does to a part of a state, it does to the whole. -/
theorem Within.zoom
    {τ : Type} {whole : τ → τ → Prop} {get : τ → σ} {set : σ → τ → τ}
    {task : Task σ α} (h : task.Within relation)
    (hset : ∀ part state, relation (get state) part → whole state (set part state)) :
    (task.zoom get set).Within whole := by
  induction task with
  | done value => trivial
  | step ready next rest ih =>
      obtain ⟨hnext, hrest⟩ := h
      exact ⟨fun state can => hset _ state (hnext (get state) can), fun state can =>
        ih (get state) can (hrest (get state) can)⟩

/-! ## What tasks end with -/

/-- Whatever the task ends with has the property. -/
def Yields (property : α → Prop) : Task σ α → Prop
  | .done value => property value
  | .step _ _ rest => ∀ state can, (rest state can).Yields property

theorem yields_bind
    {property : β → Prop} (task : Task σ α) {follow : α → Task σ β}
    (hfollow : ∀ value, (follow value).Yields property) :
    (task.bind follow).Yields property := by
  induction task with
  | done value => exact hfollow value
  | step ready next rest ih => exact fun state can => ih state can

theorem yields_true (task : Task σ α) : task.Yields fun _ => True := by
  induction task with
  | done value => trivial
  | step ready next rest ih => exact ih

theorem Yields.bind
    {property : α → Prop} {task : Task σ α} (h : task.Yields property)
    {other : β → Prop} {follow : α → Task σ β} (hfollow : ∀ value, property value → (follow value).Yields other) :
    (task.bind follow).Yields other := by
  induction task with
  | done value => exact hfollow value h
  | step ready next rest ih => exact fun state can => ih state can (h state can)

theorem Yields.advance
    {property : α → Prop} {task left : Task σ α} (h : task.Yields property) {before after : σ}
    (htaken : task.advance? before = some (left, after)) :
    left.Yields property := by
  obtain ⟨ready, next, rest, can, rfl, rfl, rfl⟩ := exists_of_advance? htaken
  exact h before can

/-! ## What tasks do -/

section Deeds

variable {δ : Type} {does : σ → σ → List δ → Prop} {holds : List δ → α → Prop}

/-- Every own step is some deeds, and the deeds of a whole run fit what the task ends with. -/
def Emits (does : σ → σ → List δ → Prop) : Task σ α → (List δ → α → Prop) → Prop
  | .done value, holds => holds [] value
  | .step ready next rest, holds =>
      ∀ (state : σ) (can : ready state = true), ∃ now,
        does state (next state) now ∧
        (rest state can).Emits does fun later value => holds (now ++ later) value

theorem Emits.bind
    {task : Task σ α} (h : task.Emits does holds)
    {follow : α → Task σ β} {holds' : List δ → β → Prop}
    (hfollow : ∀ deeds value, holds deeds value →
      (follow value).Emits does fun later result => holds' (deeds ++ later) result) :
    (task.bind follow).Emits does holds' := by
  induction task generalizing holds holds' with
  | done value => exact hfollow [] value h
  | step ready next rest ih =>
      intro state can
      obtain ⟨now, hdoes, hrest⟩ := h state can
      refine ⟨now, hdoes, ih state can hrest fun deeds value hholds => ?_⟩
      simpa only [List.append_assoc] using hfollow (now ++ deeds) value hholds

theorem Emits.mono
    {task : Task σ α} (h : task.Emits does holds)
    {other : List δ → α → Prop} (himp : ∀ deeds value, holds deeds value → other deeds value) :
    task.Emits does other := by
  rw [← bind_done task]
  refine h.bind fun deeds value hholds => ?_
  change other (deeds ++ []) value
  rw [List.append_nil]
  exact himp deeds value hholds

/-- The step that a task takes is some deeds, and what is left of the task does the others. -/
theorem Emits.advance
    {task left : Task σ α} (h : task.Emits does holds) {before after : σ}
    (htaken : task.advance? before = some (left, after)) :
    ∃ now, does before after now ∧
      left.Emits does fun later value => holds (now ++ later) value := by
  obtain ⟨ready, next, rest, can, rfl, rfl, rfl⟩ := exists_of_advance? htaken
  exact h before can

/-- A task of which no step is a deed. -/
theorem Within.emits
    {relation : σ → σ → Prop} {task : Task σ α} (h : task.Within relation)
    (hquiet : ∀ before after, relation before after → does before after []) :
    task.Emits does fun deeds _ => deeds = [] := by
  induction task with
  | done value => rfl
  | step ready next rest ih =>
      intro state can
      obtain ⟨hnext, hrest⟩ := h
      exact ⟨[], hquiet state (next state) (hnext state can), ih state can (hrest state can)⟩

end Deeds

/-! ## What tasks have done so far -/

section Following

variable {δ : Type} {does : σ → σ → List δ → Prop} {fits : List δ → Prop} {earlier : List δ} {holds : List δ → α → Prop}

/-- Every own step is some deeds, after which all deeds so far are fit, and those of a whole run fit what the task ends
with. -/
def Follows (does : σ → σ → List δ → Prop) (fits : List δ → Prop) :
    Task σ α → List δ → (List δ → α → Prop) → Prop
  | .done value, deeds, holds => holds deeds value
  | .step ready next rest, deeds, holds =>
      ∀ (state : σ) (can : ready state = true), ∃ now,
        does state (next state) now ∧ fits (deeds ++ now) ∧ (rest state can).Follows does fits (deeds ++ now) holds

theorem Follows.bind
    {task : Task σ α} (h : task.Follows does fits earlier holds)
    {follow : α → Task σ β} {holds' : List δ → β → Prop}
    (hfollow : ∀ deeds value, holds deeds value → (follow value).Follows does fits deeds holds') :
    (task.bind follow).Follows does fits earlier holds' := by
  induction task generalizing earlier with
  | done value => exact hfollow earlier value h
  | step ready next rest ih =>
      intro state can
      obtain ⟨now, hdoes, hfits, hrest⟩ := h state can
      exact ⟨now, hdoes, hfits, ih state can hrest⟩

theorem Follows.mono
    {task : Task σ α} (h : task.Follows does fits earlier holds)
    {other : List δ → α → Prop} (himp : ∀ deeds value, holds deeds value → other deeds value) :
    task.Follows does fits earlier other := by
  rw [← bind_done task]
  exact h.bind himp

/-- The step that a task takes is some deeds, and what is left of the task goes on from there. -/
theorem Follows.advance
    {task left : Task σ α} (h : task.Follows does fits earlier holds) {before after : σ}
    (htaken : task.advance? before = some (left, after)) :
    ∃ now, does before after now ∧ fits (earlier ++ now) ∧ left.Follows does fits (earlier ++ now) holds := by
  obtain ⟨ready, next, rest, can, rfl, rfl, rfl⟩ := exists_of_advance? htaken
  exact h before can

/-- A task of which no step is a deed. -/
theorem Within.follows
    {relation : σ → σ → Prop} {task : Task σ α} (h : task.Within relation)
    (hquiet : ∀ before after, relation before after → does before after []) (hearlier : fits earlier) :
    task.Follows does fits earlier fun deeds _ => deeds = earlier := by
  induction task with
  | done value => rfl
  | step ready next rest ih =>
      intro state can
      obtain ⟨hnext, hrest⟩ := h
      refine ⟨[], hquiet state (next state) (hnext state can), ?_, ?_⟩
      · rwa [List.append_nil]
      · rw [List.append_nil]
        exact ih state can (hrest state can)

end Following

/-! ## Runs without others -/

/-- A step of a task is one of every task that begins with it. -/
theorem advance?_bind
    {task left : Task σ α} {before after : σ}
    (htaken : task.advance? before = some (left, after))
    (follow : α → Task σ β) :
    (task.bind follow).advance? before = some (left.bind follow, after) := by
  obtain ⟨ready, next, rest, can, rfl, rfl, rfl⟩ := exists_of_advance? htaken
  simp [bind, advance?, can]

/-- A run of a task is one of every task that begins with it. -/
theorem Moves.bind
    {surroundings : σ → σ → Prop} {task left : Task σ α} {before after : σ}
    (h : Moves surroundings task before left after)
    (follow : α → Task σ β) :
    Moves surroundings (task.bind follow) before (left.bind follow) after := by
  induction h with
  | refl => exact .refl _ _
  | around hchange _ ih => exact .around hchange ih
  | own htaken _ ih => exact .own (advance?_bind htaken follow) ih

/-- What becomes of a task that nobody disturbs, if no step of it has to wait. -/
def alone? : Task σ α → σ → Option (α × σ)
  | .done value, state => some (value, state)
  | .step ready next rest, state =>
      if can : ready state = true then (rest state can).alone? (next state) else none

/-- To be left alone is one of the runs. -/
theorem moves_of_alone?
    {surroundings : σ → σ → Prop} {task : Task σ α} {before after : σ} {value : α}
    (h : task.alone? before = some (value, after)) :
    Moves surroundings task before (.done value) after := by
  induction task generalizing before with
  | done other =>
      obtain ⟨rfl, rfl⟩ := Prod.mk.inj (Option.some.inj h)
      exact .refl _ _
  | step ready next rest ih =>
      by_cases hready : ready before = true
      · simp only [alone?, hready, dif_pos] at h
        exact .own (by simp [advance?, hready]) (ih before hready h)
      · simp [alone?, hready] at h

/-- A task and a state after so many steps of its own. -/
def steps? : Nat → Task σ α → σ → Option (Task σ α × σ)
  | 0, task, state => some (task, state)
  | count + 1, task, state => (task.advance? state).bind fun (left, after) => left.steps? count after

theorem moves_of_steps?
    {surroundings : σ → σ → Prop} {count : Nat} {task left : Task σ α} {before after : σ}
    (h : task.steps? count before = some (left, after)) :
    Moves surroundings task before left after := by
  induction count generalizing task before with
  | zero =>
      obtain ⟨rfl, rfl⟩ := Prod.mk.inj (Option.some.inj h)
      exact .refl _ _
  | succ count ih =>
      obtain ⟨⟨next, between⟩, htaken, hrest⟩ := Option.bind_eq_some_iff.mp h
      exact .own htaken (ih hrest)

theorem alone?_bind
    (task : Task σ α) (follow : α → Task σ β) (state : σ) :
    (task.bind follow).alone? state =
      (task.alone? state).bind fun (value, after) => (follow value).alone? after := by
  induction task generalizing state with
  | done value => rfl
  | step ready next rest ih =>
      by_cases hready : ready state = true
      · simp [bind, alone?, hready, ih]
      · simp [bind, alone?, hready]

/-! ## Tasks that may fail -/

section Failing

variable {task : ExceptT ε (Task σ) α} {follow : α → ExceptT ε (Task σ) β}

theorem within_pure (value : α) :
    (pure value : ExceptT ε (Task σ) α).run.Within relation := trivial

theorem within_throw (failure : ε) :
    (throw failure : ExceptT ε (Task σ) α).run.Within relation := trivial

theorem within_bind
    (h : task.run.Within relation)
    (hfollow : ∀ value, (follow value).run.Within relation) :
    (task >>= follow).run.Within relation := by
  refine Within.bind h fun result => ?_
  cases result with
  | ok value => exact hfollow value
  | error failure => trivial

theorem within_map
    (h : task.run.Within relation) (view : α → β) :
    (view <$> task).run.Within relation := by
  refine Within.bind h fun result => ?_
  cases result <;> trivial

theorem within_lift
    {sure : Task σ α}
    (h : sure.Within relation) :
    (ExceptT.lift sure : ExceptT ε (Task σ) α).run.Within relation :=
  Within.bind h fun _ => trivial

theorem emits_bind
    {δ : Type} {does : σ → σ → List δ → Prop}
    {holds : List δ → Except ε α → Prop} {holds' : List δ → Except ε β → Prop}
    (h : task.run.Emits does holds)
    (hok : ∀ deeds value, holds deeds (.ok value) →
      (follow value).run.Emits does fun later result => holds' (deeds ++ later) result)
    (herror : ∀ deeds failure, holds deeds (.error failure) → holds' deeds (.error failure)) :
    (task >>= follow).run.Emits does holds' := by
  refine Emits.bind h fun deeds result hholds => ?_
  cases result with
  | ok value => exact hok deeds value hholds
  | error failure =>
      change holds' (deeds ++ []) (.error failure)
      rw [List.append_nil]
      exact herror deeds failure hholds

theorem follows_lift
    {δ : Type} {does : σ → σ → List δ → Prop} {fits : List δ → Prop} {earlier : List δ}
    {sure : Task σ α} {holds : List δ → α → Prop} {holds' : List δ → Except ε α → Prop}
    (h : sure.Follows does fits earlier holds)
    (himp : ∀ deeds value, holds deeds value → holds' deeds (.ok value)) :
    (ExceptT.lift sure : ExceptT ε (Task σ) α).run.Follows does fits earlier holds' :=
  Follows.bind h himp

theorem follows_bind
    {δ : Type} {does : σ → σ → List δ → Prop} {fits : List δ → Prop} {earlier : List δ}
    {holds : List δ → Except ε α → Prop} {holds' : List δ → Except ε β → Prop}
    (h : task.run.Follows does fits earlier holds)
    (hok : ∀ deeds value, holds deeds (.ok value) → (follow value).run.Follows does fits deeds holds')
    (herror : ∀ deeds failure, holds deeds (.error failure) → holds' deeds (.error failure)) :
    (task >>= follow).run.Follows does fits earlier holds' := by
  refine Follows.bind h fun deeds result hholds => ?_
  cases result with
  | ok value => exact hok deeds value hholds
  | error failure => exact herror deeds failure hholds

theorem within_tryCatch
    (h : task.run.Within relation)
    {handle : ε → ExceptT ε (Task σ) α}
    (hhandle : ∀ failure, (handle failure).run.Within relation) :
    (tryCatch task handle).run.Within relation := by
  refine Within.bind h fun result => ?_
  cases result with
  | ok value => trivial
  | error failure => exact hhandle failure

theorem within_forM
    {option : Option β} {each : β → ExceptT ε (Task σ) PUnit}
    (h : ∀ value, (each value).run.Within relation) :
    (option.forM each).run.Within relation := by
  cases option with
  | none => trivial
  | some value => exact h value

theorem within_mapM
    {option : Option α} {each : α → ExceptT ε (Task σ) β}
    (h : ∀ value, (each value).run.Within relation) :
    (option.mapM each).run.Within relation := by
  cases option with
  | none => trivial
  | some value => exact within_map (h value) some

/-- After its first part has succeeded, a task goes on with the second. -/
theorem moves_of_bind
    {surroundings : σ → σ → Prop} {before after : σ} {value : α}
    (h : task.run.alone? before = some (.ok value, after)) :
    Moves surroundings (task >>= follow).run before (follow value).run after :=
  (moves_of_alone? h).bind _

theorem alone?_run_bind
    {before after : σ} {value : α}
    (h : task.run.alone? before = some (.ok value, after)) :
    (task >>= follow).run.alone? before = (follow value).run.alone? after := by
  refine (alone?_bind task.run _ before).trans ?_
  rw [h]
  rfl

theorem alone?_run_bind_error
    {before after : σ} {failure : ε}
    (h : task.run.alone? before = some (.error failure, after)) :
    (task >>= follow).run.alone? before = some (.error failure, after) := by
  refine (alone?_bind task.run _ before).trans ?_
  rw [h]
  rfl

end Failing
end Task
end CompilerRelay
