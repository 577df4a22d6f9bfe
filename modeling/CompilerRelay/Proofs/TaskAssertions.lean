import CompilerRelay.Proofs.TaskSteps

/-!
# Assertions about tasks

What can be said of a state between two steps of a task, while others take steps as well.

**Form.**  An `Assertion` is a property of the state that the surroundings keep, and from which it follows what is
to hold at every moment.  `Task.Meets pre task post`: a run of the task that begins where `pre` holds is at such
moments only, and where it ends `post` holds.  `Task.Ensures` is the same for a task that may fail.

**Composition.**  There is one rule for each way to build a task.

**Results.**
* `Task.Moves.of_bind`: a run of two tasks, one after the other, is still in the first or has come to the second.
* `Task.Meets.bind`: what the first task leaves is what the second one begins with.
* `Task.meets_of_within`: what every step keeps holds at the end.
-/

namespace CompilerRelay

/-- What the surroundings keep, and what makes the moment sound. -/
structure Assertion {σ : Type} (around : σ → σ → Prop) (always : σ → Prop) where
  holds : σ → Prop
  kept : ∀ {before after}, around before after → holds before → holds after
  sound : ∀ {state}, holds state → always state

namespace Assertion

variable {σ ι : Type} {around : σ → σ → Prop} {always : σ → Prop}

instance : CoeFun (Assertion around always) fun _ => σ → Prop := ⟨holds⟩

/-- One of the assertions holds. -/
def any (each : ι → Assertion around always) : Assertion around always where
  holds := fun state => ∃ index, each index state
  kept := fun hchange ⟨index, h⟩ => ⟨index, (each index).kept hchange h⟩
  sound := fun ⟨index, h⟩ => (each index).sound h

/-- An assertion together with what does not depend on the state. -/
def given (fact : Prop) (assertion : Assertion around always) : Assertion around always where
  holds := fun state => fact ∧ assertion state
  kept := fun hchange ⟨hfact, h⟩ => ⟨hfact, assertion.kept hchange h⟩
  sound := fun ⟨_, h⟩ => assertion.sound h

/-- An assertion together with another property that is kept where it holds. -/
def also
    (assertion : Assertion around always) (property : σ → Prop)
    (hkept : ∀ {before after}, around before after → assertion.holds before → property before → property after) :
    Assertion around always where
  holds := fun state => assertion state ∧ property state
  kept := fun hchange ⟨h, hproperty⟩ => ⟨assertion.kept hchange h, hkept hchange h hproperty⟩
  sound := fun ⟨h, _⟩ => assertion.sound h

end Assertion

namespace Task

variable {σ α β ε ι : Type} {around : σ → σ → Prop} {always : σ → Prop}

/-! ## Runs of two tasks -/

theorem eq_done_of_bind
    {task : Task σ α} {follow : α → Task σ β} {result : β}
    (h : task.bind follow = .done result) :
    ∃ value, task = .done value ∧ follow value = .done result := by
  cases task with
  | done value => exact ⟨value, rfl, h⟩
  | step ready next rest => cases h

/-- A run of two tasks, one after the other, is still in the first or has come to the second. -/
theorem Moves.of_bind
    {task : Task σ α} {follow : α → Task σ β} {left : Task σ β} {before after : σ}
    (h : Moves around (task.bind follow) before left after) :
    (∃ rest, left = rest.bind follow ∧ Moves around task before rest after) ∨
    ∃ value between, Moves around task before (.done value) between ∧
      Moves around (follow value) between left after := by
  generalize hwhole : task.bind follow = whole at h
  induction h generalizing task with
  | refl whole state =>
      subst hwhole
      exact .inl ⟨task, rfl, .refl _ _⟩
  | around hchange _ ih =>
      rcases ih hwhole with ⟨rest, hleft, hmoves⟩ | ⟨value, between, hmoves, hlater⟩
      · exact .inl ⟨rest, hleft, .around hchange hmoves⟩
      · exact .inr ⟨value, between, .around hchange hmoves, hlater⟩
  | @own whole left last before between after htaken hmore ih =>
      subst hwhole
      cases task with
      | done value => exact .inr ⟨value, before, .refl _ _, .own htaken hmore⟩
      | step ready next rest =>
          obtain ⟨_, _, _, can, hstep, hrest, hnext⟩ := exists_of_advance? htaken
          obtain ⟨rfl, rfl, hall⟩ := Task.step.inj hstep
          have hown : (Task.step ready next rest).advance? before = some (rest before can, between) := by
            simp [advance?, can, hnext]
          have hbound : (rest before can).bind follow = left := by
            rw [hrest, ← eq_of_heq hall]
          rcases ih hbound with ⟨later, hleft, hmoves⟩ | ⟨value, middle, hmoves, hlater⟩
          · exact .inl ⟨later, hleft, .own hown hmoves⟩
          · exact .inr ⟨value, middle, .own hown hmoves, hlater⟩

/-! ## Tasks -/

/-- A run that begins where `pre` holds is at sound moments only, and where it ends `post` holds. -/
def Meets (pre : Assertion around always) (task : Task σ α) (post : α → Assertion around always) : Prop :=
  ∀ before left after, pre before → Moves around task before left after →
    always after ∧ ∀ value, left = .done value → post value after

section Rules

variable {pre : Assertion around always}

theorem meets_done
    {value : α} {post : α → Assertion around always}
    (h : ∀ state, pre state → post value state) :
    Meets pre (.done value) post := by
  intro before left after hbefore hmoves
  generalize htask : Task.done value = task at hmoves
  induction hmoves with
  | refl task state =>
      subst htask
      refine ⟨pre.sound hbefore, fun other hother => ?_⟩
      obtain rfl := Task.done.inj hother
      exact h state hbefore
  | around hchange _ ih => exact ih (pre.kept hchange hbefore) htask
  | own htaken _ _ =>
      subst htask
      cases htaken

/-- A task whose first step comes to what the rest of it begins with. -/
theorem meets_step
    {ready : σ → Bool} {next : σ → σ} {rest : (state : σ) → ready state = true → Task σ α}
    {post : α → Assertion around always}
    (h : ∀ state can, pre state → ∃ mid : Assertion around always, mid (next state) ∧ Meets mid (rest state can) post) :
    Meets pre (.step ready next rest) post := by
  intro before left after hbefore hmoves
  generalize htask : Task.step ready next rest = task at hmoves
  induction hmoves with
  | refl task state =>
      subst htask
      exact ⟨pre.sound hbefore, fun value hvalue => by cases hvalue⟩
  | around hchange _ ih => exact ih (pre.kept hchange hbefore) htask
  | own htaken hmore _ =>
      subst htask
      obtain ⟨_, _, _, can, hstep, rfl, rfl⟩ := exists_of_advance? htaken
      obtain ⟨rfl, rfl, hall⟩ := Task.step.inj hstep
      obtain ⟨mid, hmid, hrest⟩ := h _ can hbefore
      rw [← eq_of_heq hall] at hmore
      exact hrest _ _ _ hmid hmore

theorem meets_act
    {change : σ → α × σ} {post : α → Assertion around always}
    (h : ∀ state, pre state → post (change state).1 (change state).2) :
    Meets pre (act change) post :=
  meets_step fun state _ hpre =>
    ⟨post (change state).1, h state hpre, meets_done fun _ hpost => hpost⟩

/-- What the first task leaves is what the second one begins with. -/
theorem Meets.bind
    {task : Task σ α} {mid : α → Assertion around always} (h : Meets pre task mid)
    {follow : α → Task σ β} {post : β → Assertion around always}
    (hfollow : ∀ value, Meets (mid value) (follow value) post) :
    Meets pre (task.bind follow) post := by
  intro before left after hbefore hmoves
  rcases hmoves.of_bind with ⟨rest, rfl, hfirst⟩ | ⟨value, between, hfirst, hsecond⟩
  · obtain ⟨halways, hend⟩ := h before rest after hbefore hfirst
    refine ⟨halways, fun result hresult => ?_⟩
    obtain ⟨value, rfl, hdone⟩ := eq_done_of_bind hresult
    exact (hfollow value after _ after (hend value rfl) (.refl _ _)).2 result hdone
  · exact hfollow value between left after ((h before _ between hbefore hfirst).2 value rfl) hsecond

theorem Meets.mono
    {task : Task σ α} {mid : α → Assertion around always} (h : Meets pre task mid)
    {other : Assertion around always} (hpre : ∀ state, other state → pre state)
    {post : α → Assertion around always} (hpost : ∀ value state, mid value state → post value state) :
    Meets other task post := by
  intro before left after hbefore hmoves
  obtain ⟨halways, hend⟩ := h before left after (hpre before hbefore) hmoves
  exact ⟨halways, fun value hvalue => hpost value after (hend value hvalue)⟩

theorem meets_any
    {each : ι → Assertion around always} {task : Task σ α} {post : α → Assertion around always}
    (h : ∀ index, Meets (each index) task post) :
    Meets (.any each) task post :=
  fun before left after ⟨index, hbefore⟩ hmoves => h index before left after hbefore hmoves

theorem meets_given
    {fact : Prop} {task : Task σ α} {post : α → Assertion around always}
    (h : fact → Meets pre task post) :
    Meets (.given fact pre) task post :=
  fun before left after ⟨hfact, hbefore⟩ hmoves => h hfact before left after hbefore hmoves

/-- What every step keeps holds at the end, with whatever the task yields. -/
theorem meets_of_within
    {relation : σ → σ → Prop} {property : α → Prop}
    {task : Task σ α} (hwithin : task.Within relation) (hyields : task.Yields property)
    (hkept : ∀ before after, relation before after → pre before → pre after) :
    Meets pre task fun value => .given (property value) pre := by
  induction task with
  | done value => exact meets_done fun state hpre => ⟨hyields, hpre⟩
  | step ready next rest ih =>
      refine meets_step fun state can hpre => ⟨pre, hkept _ _ (hwithin.1 state can) hpre, ?_⟩
      exact ih state can (hwithin.2 state can) (hyields state can)

end Rules

/-! ## Tasks that may fail -/

/-- What holds at the end of a task that may fail. -/
def outcome (post : α → Assertion around always) (failed : ε → Assertion around always) :
    Except ε α → Assertion around always
  | .ok value => post value
  | .error failure => failed failure

/-- A run that begins where `pre` holds is at sound moments only; where it ends well `post` holds, and where it
fails `failed` does. -/
def Ensures
    (pre : Assertion around always) (task : ExceptT ε (Task σ) α)
    (post : α → Assertion around always) (failed : ε → Assertion around always) : Prop :=
  Meets pre task.run (outcome post failed)

section Failing

variable {pre : Assertion around always} {failed : ε → Assertion around always}

theorem ensures_pure
    {value : α} {post : α → Assertion around always}
    (h : ∀ state, pre state → post value state) :
    Ensures pre (pure value) post failed :=
  meets_done h

theorem ensures_throw
    {failure : ε} {post : α → Assertion around always}
    (h : ∀ state, pre state → failed failure state) :
    Ensures pre (throw failure) post failed :=
  meets_done h

theorem Ensures.bind
    {task : ExceptT ε (Task σ) α} {mid : α → Assertion around always} (h : Ensures pre task mid failed)
    {follow : α → ExceptT ε (Task σ) β} {post : β → Assertion around always}
    (hfollow : ∀ value, Ensures (mid value) (follow value) post failed) :
    Ensures pre (task >>= follow) post failed := by
  refine Meets.bind h fun result => ?_
  cases result with
  | ok value => exact hfollow value
  | error failure => exact meets_done fun _ hfailed => hfailed

theorem Ensures.mono
    {task : ExceptT ε (Task σ) α} {mid : α → Assertion around always} (h : Ensures pre task mid failed)
    {other : Assertion around always} (hpre : ∀ state, other state → pre state)
    {post : α → Assertion around always} (hpost : ∀ value state, mid value state → post value state)
    {failed' : ε → Assertion around always}
    (hfailed : ∀ failure state, failed failure state → failed' failure state) :
    Ensures other task post failed' := by
  refine Meets.mono h hpre fun result => ?_
  cases result with
  | ok value => exact hpost value
  | error failure => exact hfailed failure

theorem Ensures.mono_pre
    {task : ExceptT ε (Task σ) α} {post : α → Assertion around always} (h : Ensures pre task post failed)
    {other : Assertion around always} (hpre : ∀ state, other state → pre state) :
    Ensures other task post failed :=
  h.mono hpre (fun _ _ hpost => hpost) fun _ _ hfailed => hfailed

theorem Ensures.mono_post
    {task : ExceptT ε (Task σ) α} {mid : α → Assertion around always} (h : Ensures pre task mid failed)
    {post : α → Assertion around always} (hpost : ∀ value state, mid value state → post value state) :
    Ensures pre task post failed :=
  h.mono (fun _ hpre => hpre) hpost fun _ _ hfailed => hfailed

theorem ensures_forM
    {option : Option β} {each : β → ExceptT ε (Task σ) PUnit}
    (h : ∀ value, Ensures pre (each value) (fun _ => pre) failed) :
    Ensures pre (option.forM each) (fun _ => pre) failed := by
  cases option with
  | none => exact ensures_pure fun _ hpre => hpre
  | some value => exact h value

theorem ensures_mapM
    {option : Option α} {each : α → ExceptT ε (Task σ) β}
    (h : ∀ value, Ensures pre (each value) (fun _ => pre) failed) :
    Ensures pre (option.mapM each) (fun _ => pre) failed := by
  cases option with
  | none => exact ensures_pure fun _ hpre => hpre
  | some value =>
      refine Meets.bind (h value) fun result => ?_
      cases result <;> exact meets_done fun _ hpost => hpost

theorem ensures_lift
    {sure : Task σ α} {post : α → Assertion around always}
    (h : Meets pre sure post) :
    Ensures pre (ExceptT.lift sure) post failed :=
  Meets.bind h fun _ => meets_done fun _ hpost => hpost

theorem ensures_any
    {each : ι → Assertion around always} {task : ExceptT ε (Task σ) α} {post : α → Assertion around always}
    (h : ∀ index, Ensures (each index) task post failed) :
    Ensures (.any each) task post failed :=
  meets_any h

theorem ensures_given
    {fact : Prop} {task : ExceptT ε (Task σ) α} {post : α → Assertion around always}
    (h : fact → Ensures pre task post failed) :
    Ensures (.given fact pre) task post failed :=
  meets_given h

theorem ensures_tryCatch
    {task : ExceptT ε (Task σ) α} {post : α → Assertion around always} {caught : ε → Assertion around always}
    (h : Ensures pre task post caught)
    {handle : ε → ExceptT ε (Task σ) α}
    (hhandle : ∀ failure, Ensures (caught failure) (handle failure) post failed) :
    Ensures pre (tryCatch task handle) post failed := by
  refine Meets.bind h fun result => ?_
  cases result with
  | ok value => exact meets_done fun _ hpost => hpost
  | error failure => exact hhandle failure

end Failing
end Task
end CompilerRelay
