import CompilerRelay.Proofs.LifecycleRun

/-!
# Whether an exit is noticed

The slot holds a session until somebody looks whether its process still lives.

**Input.**  A reachable relay, whose process may have exited by itself, and a demand.

**Form.**  `Relay.Unstarted relay operation` says what comes of a statement that is not to start the compiler: it is
skipped if and only if the slot holds no session, and a process is spawned only if that of the slot has exited.

**Results.**
* `Demand.within_sameCount`: what is never to start the compiler spawns nothing.
* `Relay.unstarted_law`: a statement that is not to start the compiler restarts it after an exit that was not noticed.
* `Relay.exit_law`: every demand that makes sure that the compiler runs notices the exit, but a start does not.
-/

namespace CompilerRelay

/-! ## Demands that spawn nothing -/

/-- Whether the compiler is never started at a demand. -/
def Demand.neverStarts : Demand → Bool
  | .stop | .endSession | .clean | .cleanTemplates | .quitDebug | .startLog | .stopLog | .runIfStarted _ => true
  | .start | .reset | .run _ | .submit _ | .runStatement _ | .compileFile _ | .runFile _ | .loadAll _
  | .compileFolders _ | .submitGoto _ _ | .goto _ _ => false

namespace Relay

/-- No process was spawned. -/
def SameCount (before after : Relay) : Prop :=
  after.sessions.length = before.sessions.length

theorem SameCount.refl (relay : Relay) : relay.SameCount relay := rfl

theorem SameCount.trans
    {first second third : Relay} (hfirst : first.SameCount second) (hsecond : second.SameCount third) :
    first.SameCount third :=
  Eq.trans hsecond hfirst

theorem Around.sameCount
    {before after : Relay} (h : before.Around after) :
    before.SameCount after :=
  h.passes.length_eq

theorem Aside.within_sameCount
    {α : Type} {operation : Operation α} (h : Aside operation) :
    operation.run.Within SameCount :=
  h.within.mono fun _ _ hsame => congrArg List.length hsame.sessions_eq

theorem send_within_sameCount (command : Command) : (send command).run.Within SameCount :=
  Task.within_act fun relay => (Passes.deliver command.render relay).length_eq

theorem endSession_within_sameCount : endSession.run.Within SameCount := by
  refine Task.within_bind (Task.within_lift (Task.within_act fun _ => rfl)) fun slot =>
    Task.within_bind (aside_onChannel _).within_sameCount fun _ => ?_
  cases slot with
  | running number =>
      exact Task.within_lift (Task.within_update fun relay => List.length_modify _ relay.sessions number)
  | stopped | starting => exact Task.within_pure _

theorem cleanAndReport_within_sameCount (header footer : String) :
    (cleanAndReport header footer).run.Within SameCount :=
  Task.within_bind (Task.within_lift (Task.within_act fun _ => rfl)) fun result =>
    Task.within_bind endSession_within_sameCount fun _ =>
      Task.within_bind (attempt_within .clean result) fun _ => (aside_changeOutput _).within_sameCount

end Relay

namespace Demand

open Relay

theorem answered_within
    {relation : Relay → Relay → Prop} {α : Type} {operation : Operation α} (h : operation.run.Within relation) :
    (answered operation).run.Within relation :=
  Task.within_bind h fun _ => Task.within_pure _

theorem within_sameCount
    {demand : Demand} (h : demand.neverStarts = true) :
    demand.operation.run.Within SameCount := by
  cases demand with
  | stop =>
      refine answered_within <| Task.within_bind (Aside.look _).within_sameCount fun running => ?_
      split
      · exact Task.within_bind aside_clearForBuild.within_sameCount fun _ =>
          Task.within_bind (aside_changeOutput _).within_sameCount fun _ => endSession_within_sameCount
      · exact Task.within_pure _
  | endSession => exact answered_within endSession_within_sameCount
  | clean =>
      exact answered_within <| Task.within_bind (aside_changeOutput _).within_sameCount fun _ =>
        cleanAndReport_within_sameCount _ _
  | cleanTemplates =>
      exact answered_within <| Task.within_bind aside_clearForBuild.within_sameCount fun _ =>
        Task.within_bind (aside_onTemplates _).within_sameCount fun _ =>
          Task.within_bind (aside_onChannel _).within_sameCount fun _ => cleanAndReport_within_sameCount _ _
  | quitDebug =>
      refine answered_within <| Task.within_bind (Aside.look _).within_sameCount fun running => ?_
      split
      · exact send_within_sameCount .quitDebug
      · exact Task.within_pure _
  | startLog => exact answered_within aside_startLog.within_sameCount
  | stopLog => exact answered_within (aside_changeOutput _).within_sameCount
  | runIfStarted code =>
      refine answered_within <| Task.within_bind aside_clearForBuild.within_sameCount fun _ =>
        Task.within_bind aside_clearDiagnostics.within_sameCount fun _ =>
          Task.within_bind (Aside.look _).within_sameCount fun running => ?_
      split
      · exact Task.within_bind (send_within_sameCount _) fun _ => Task.within_pure _
      · exact Task.within_pure _
  | start | reset | run | submit | runStatement | compileFile | runFile | loadAll | compileFolders | submitGoto
  | goto => cases h

end Demand

namespace Relay

/-- What is never to start the compiler spawns nothing. -/
theorem length_eq_of_neverStarts
    {relay middle : Relay} {demand : Demand} (hnever : demand.neverStarts = true)
    {left : Task Relay (Except Failure Unit)}
    (hmoves : Task.Moves Around demand.operation.run relay left middle) :
    middle.sessions.length = relay.sessions.length :=
  (hmoves.related SameCount.refl SameCount.trans Around.sameCount (Demand.within_sameCount hnever)).1

/-! ## Statements that are not to start the compiler -/

section Statements

variable {relay : Relay} {number : Nat} {α : Type}

/-- Nothing was spawned, or the process with a number has exited by itself. -/
def Spared (relay : Relay) (number : Nat) (middle : Relay) : Prop :=
  middle.exited number = false → middle.sessions.length = relay.sessions.length

/-- The slot holds the session that it held, and nothing was spawned. -/
def held (relay : Relay) (number : Nat) : Assertion Around (Spared relay number) where
  holds := fun middle => middle.slot = .running number ∧ middle.sessions.length = relay.sessions.length
  kept := fun haround ⟨hslot, hlength⟩ =>
    ⟨haround.passes.slot_eq.trans hslot, haround.passes.length_eq.trans hlength⟩
  sound := fun ⟨_, hlength⟩ _ => hlength

/-- The process with a number has exited by itself. -/
def gone (relay : Relay) (number : Nat) : Assertion Around (Spared relay number) where
  holds := fun middle => middle.exited number = true
  kept := fun haround hgone => haround.passes.ages.exited_of hgone
  sound := fun {middle} hgone hlasting => by
    have hexited : middle.exited number = true := hgone
    rw [hlasting] at hexited
    cases hexited

/-- Either of the two. -/
def spared (relay : Relay) (number : Nat) : Assertion Around (Spared relay number) :=
  .any fun exited : Bool => bif exited then gone relay number else held relay number

theorem spared_of_ages
    {before after : Relay} (h : spared relay number before) (hages : before.Ages after)
    (hslot : after.slot = before.slot) (hlength : after.sessions.length = before.sessions.length) :
    spared relay number after := by
  obtain ⟨exited, hexited⟩ := h
  refine ⟨exited, ?_⟩
  cases exited with
  | true => exact hages.exited_of hexited
  | false => exact ⟨hslot.trans hexited.1, hlength.trans hexited.2⟩

theorem Aside.spared
    {operation : Operation α} (h : Aside operation) :
    Task.Ensures (spared relay number) operation (fun _ => spared relay number) fun _ => spared relay number :=
  h.ensures (fun hsame hbefore => spared_of_ages hbefore
    (.of_sessions_eq hsame.config_eq hsame.host_eq hsame.sessions_eq) hsame.slot_eq
    (congrArg List.length hsame.sessions_eq)) fun _ _ _ hbefore => hbefore

theorem send_spared (command : Command) :
    Task.Ensures (spared relay number) (send command) (fun _ => spared relay number) fun _ => spared relay number := by
  refine Task.meets_act fun middle h => ?_
  have hpasses := Passes.deliver command.render middle
  have hafter := spared_of_ages h hpasses.ages hpasses.slot_eq hpasses.length_eq
  cases (deliver command.render middle).1 <;> exact hafter

theorem sendWatched_spared (command : Command) (watch : PendingWatch) :
    Task.Ensures (spared relay number) (sendWatched command watch) (fun _ => spared relay number)
      fun _ => spared relay number :=
  Task.ensures_tryCatch (send_spared command) fun _ =>
    (Aside.spared (aside_onChannel _)).bind fun _ => Task.ensures_throw fun _ h => h

/-- The compiler is started only after the process of the slot has exited. -/
theorem ensureRunning_spared :
    Task.Ensures (spared relay number) ensureRunning (fun _ => spared relay number) fun _ => spared relay number := by
  have hnotice : Task.Ensures (spared relay number)
      (change fun middle => if middle.hasExited then { middle with slot := .stopped } else middle)
      (fun _ => spared relay number) fun _ => spared relay number := by
    refine ensures_change fun middle h => ?_
    obtain ⟨exited, hexited⟩ := h
    cases exited with
    | true => exact ⟨true, by split <;> exact hexited⟩
    | false =>
        cases hnoticed : middle.hasExited with
        | true => exact ⟨true, (hasExited_of_slot hexited.1).symm.trans hnoticed⟩
        | false => exact ⟨false, hexited⟩
  refine hnotice.bind fun _ => Task.ensures_any fun exited => ?_
  cases exited with
  | true =>
      have hstart : (look isRunning >>= fun running => if !running then start else pure ()).run.Within Ages := by
        refine Task.within_bind (Ages.keeps.look_within _) fun running => ?_
        split
        · exact Ages.keeps.start_within
        · exact Task.within_pure _
      have hgone : Task.Meets (gone relay number) _ _ :=
        Task.meets_of_within hstart (Task.yields_true _) fun _ _ hages hexited => hages.exited_of hexited
      refine hgone.mono (fun _ h => h) fun result middle h => ?_
      cases result <;> exact ⟨true, h.2⟩
  | false =>
      have hrunning : ∀ middle, held relay number middle → middle.isRunning = true := by
        intro middle h
        rw [isRunning, h.1]
        rfl
      exact ensures_look hrunning (Task.ensures_pure fun _ h => ⟨false, h⟩)

theorem submit_spared (statement : Statement) :
    Task.Ensures (spared relay number) (submit statement) (fun _ => spared relay number)
      fun _ => spared relay number := by
  have hsend : Task.Ensures (spared relay number)
      (ensureRunning >>= fun _ => (do
        let watch ← watchFor statement.success statement.failure
        sendWatched (.raw statement.code) watch
        return some watch : Operation (Option PendingWatch)))
      (fun _ => spared relay number) fun _ => spared relay number :=
    ensureRunning_spared.bind fun _ =>
      (aside_watchFor statement.success statement.failure).spared.bind fun watch =>
        (sendWatched_spared _ watch).bind fun _ => Task.ensures_pure fun _ h => h
  refine (Aside.look isRunning).spared.bind fun running => ?_
  split
  · exact Task.ensures_pure fun _ h => h
  · split
    · exact aside_clearForBuild.spared.bind fun _ => hsend
    · exact hsend

theorem runStatement_spared (statement : Statement) :
    Task.Ensures (spared relay number) (runStatement statement) (fun _ => spared relay number)
      fun _ => spared relay number := by
  refine (submit_spared statement).bind fun submitted => ?_
  cases submitted with
  | none => exact Task.ensures_pure fun _ h => h
  | some watch => exact (aside_wait watch).spared.bind fun line => Task.ensures_pure fun _ h => h

/-- The slot is as it was, and nothing was spawned. -/
def unchanged (relay : Relay) : Assertion Around relay.SameCount where
  holds := fun middle => middle.slot = relay.slot ∧ middle.sessions.length = relay.sessions.length
  kept := fun haround ⟨hslot, hlength⟩ =>
    ⟨haround.passes.slot_eq.trans hslot, haround.passes.length_eq.trans hlength⟩
  sound := And.right

/-- A statement is skipped: it does not fail, and nothing is sent. -/
def Skips (relay : Relay) (operation : Operation (Option α)) : Prop :=
  Task.Ensures (unchanged relay) operation (fun value => .given (value = none) (unchanged relay))
    fun _ => .given False (unchanged relay)

theorem submit_skips
    {statement : Statement} (hstart : statement.start = false) (hstopped : relay.isRunning = false) :
    Skips relay (submit statement) := by
  have hstate : ∀ middle, unchanged relay middle → middle.isRunning = false := by
    intro middle h
    rw [isRunning, h.1]
    exact hstopped
  refine ensures_look hstate ?_
  simp only [hstart, Bool.not_false, Bool.and_self, if_true]
  exact Task.ensures_pure fun _ h => ⟨rfl, h⟩

theorem runStatement_skips
    {statement : Statement} (hstart : statement.start = false) (hstopped : relay.isRunning = false) :
    Skips relay (runStatement statement) := by
  refine (submit_skips hstart hstopped).bind fun submitted => Task.ensures_given fun hnone => ?_
  subst hnone
  exact Task.ensures_pure fun _ h => ⟨rfl, h⟩

/-- What comes of a statement that is not to start the compiler. -/
structure Unstarted (relay : Relay) (operation : Operation (Option α)) : Prop where
  /-- If the slot holds no session, the statement is skipped, and nothing is spawned. -/
  skipped : relay.isRunning = false → ∀ left middle, Task.Moves Around operation.run relay left middle →
    middle.sessions.length = relay.sessions.length ∧ ∀ result, left = .done result → result = .ok none
  /-- If the slot holds a session, the statement is not skipped, whatever became of the process. -/
  sent : relay.isRunning = true → ∀ after, ¬ Task.Moves Around operation.run relay (.done (.ok none)) after
  /-- Nothing is spawned unless the process of the slot has exited by itself. -/
  spared : ∀ number, relay.slot = .running number → ∀ left middle, Task.Moves Around operation.run relay left middle →
    middle.exited number = false → middle.sessions.length = relay.sessions.length
  /-- If it had exited, the statement is only sent to a process that was spawned for it. -/
  restarted : relay.hasExited = true → ∀ value after,
    Task.Moves Around operation.run relay (.done (.ok (some value))) after →
      ∃ number, after.slot = .running number ∧
        relay.sessions.length ≤ number ∧ number < after.sessions.length

theorem new_of_serving
    {number : Nat} (hserving : relay.Serving number) (hexited : relay.hasExited = true) :
    relay.sessions.length ≤ number := by
  rcases hserving with hnew | ⟨-, hlasting⟩
  · exact hnew
  · rw [hexited] at hlasting
    cases hlasting

theorem unstarted_of_ensures
    (hreachable : relay.Reachable) {statement : Statement} {operation : Operation (Option α)}
    (hsubmitted : Task.Ensures (resting relay false) operation (submitted relay false statement) (amiss relay false))
    (hspared : ∀ number, Task.Ensures (Relay.spared relay number) operation (fun _ => Relay.spared relay number)
      fun _ => Relay.spared relay number)
    (hskips : relay.isRunning = false → Skips relay operation) :
    Unstarted relay operation := by
  have hrest : resting relay false relay := ⟨hreachable.stands false, id⟩
  refine ⟨fun hstopped left middle hmoves => ?_, fun hrunning after hmoves => ?_,
    fun number hslot left middle hmoves => ?_, fun hexited value after hmoves => ?_⟩
  · obtain ⟨hlength, hend⟩ := hskips hstopped relay left middle ⟨rfl, rfl⟩ hmoves
    refine ⟨hlength, fun result hresult => ?_⟩
    have houtcome := hend result hresult
    cases result with
    | ok value => rw [houtcome.1]
    | error failure => exact houtcome.1.elim
  · obtain ⟨⟨-, hstopped⟩, -⟩ := (hsubmitted relay _ after hrest hmoves).2 _ rfl
    rw [hrunning] at hstopped
    cases hstopped
  · exact (hspared number relay left middle ⟨false, hslot, rfl⟩ hmoves).1
  · obtain ⟨number, hserving, hstands⟩ := (hsubmitted relay _ after hrest hmoves).2 _ rfl
    exact ⟨number, hstands.slot_eq, new_of_serving hserving hexited, hstands.known number rfl⟩

/-- **Statements that are not to start the compiler.**  Whether the compiler runs is asked of the slot alone, which
holds its session until somebody looks whether the process has exited. -/
theorem unstarted_law
    (hreachable : relay.Reachable) :
    -- What is never to start the compiler spawns nothing.
    (∀ demand : Demand, demand.neverStarts = true →
      ∀ left middle, Task.Moves Around demand.operation.run relay left middle →
        middle.sessions.length = relay.sessions.length) ∧
    -- A statement that is not to start it does so once the process of the slot has exited.
    ∀ statement : Statement, statement.start = false →
      Unstarted relay (submit statement) ∧ Unstarted relay (runStatement statement) :=
  ⟨fun _ hnever _ _ => length_eq_of_neverStarts hnever, fun statement hstart =>
    ⟨unstarted_of_ensures hreachable (submit_ensures statement) (fun _ => submit_spared statement)
      (submit_skips hstart),
    unstarted_of_ensures hreachable (runStatement_ensures statement) (fun _ => runStatement_spared statement)
      (runStatement_skips hstart)⟩⟩

end Statements

namespace UnnoticedExit

/-- The same statement, which is not to start the compiler. -/
def unstarted : Statement := { statement with start := false }

theorem unstarted_law_relay :
    relay.Reachable ∧ relay.hasExited = true ∧ unstarted.start = false ∧
    ∀ after, ¬ Task.Moves Around (runStatement unstarted).run relay (.done (.ok none)) after :=
  ⟨relay_reachable, rfl, rfl, ((unstarted_law relay_reachable).2 unstarted rfl).2.sent rfl⟩

/-- The statement restarts the compiler. -/
theorem unstarted_restarts :
    relay.Reachable ∧ relay.hasExited = true ∧ unstarted.start = false ∧
    Task.Moves Around (submit unstarted).run relay (.done (.ok (some ⟨1, 2000⟩))) resumed ∧
    relay.sessions.length = 1 ∧ resumed.sessions.length = 2 ∧ resumed.slot = .running 1 :=
  ⟨relay_reachable, rfl, rfl, Task.moves_of_alone? rfl, rfl, rfl, rfl⟩

end UnnoticedExit
/-! ## Demands that need the compiler -/

/-- The slot still holds the session whose process has exited, and nothing was spawned. -/
def unnoticed (relay : Relay) : Assertion Around fun _ => True where
  holds := fun middle =>
    middle.slot = relay.slot ∧ middle.sessions.length = relay.sessions.length ∧ middle.hasExited = true
  kept := fun haround ⟨hslot, hlength, hexited⟩ =>
    ⟨haround.passes.slot_eq.trans hslot, haround.passes.length_eq.trans hlength, haround.passes.hasExited hexited⟩
  sound := fun _ => trivial

/-- A start finds the slot occupied and does nothing. -/
theorem start_unnoticed (relay : Relay) :
    Task.Ensures (unnoticed relay) (Demand.operation .start) (fun _ => unnoticed relay)
      fun _ => .given False (unnoticed relay) :=
  Demand.ensures_answered (start_ensures_of_running fun _ h => isRunning_of_hasExited h.2.2)

/-- **Noticing an exit.**  Every demand that makes sure that the compiler runs asks whether the process has exited; a
start asks the slot alone. -/
theorem exit_law
    {relay : Relay} (hreachable : relay.Reachable) (hexited : relay.hasExited = true) :
    -- A demand that makes sure that the compiler runs and ends well leaves a session whose process was spawned for it.
    (∀ demand : Demand, demand.ensuresRunning = true →
      ∀ after, Task.Moves Around demand.operation.run relay (.done (.ok ())) after →
        ∃ number, after.slot = .running number ∧
          relay.sessions.length ≤ number ∧ number < after.sessions.length) ∧
    -- A start always ends well, and leaves the session whose process has exited.
    ∀ result after, Task.Moves Around (Demand.operation .start).run relay (.done result) after →
      result = .ok () ∧ after.slot = relay.slot ∧ after.sessions.length = relay.sessions.length ∧
        after.hasExited = true := by
  refine ⟨fun demand hneeds after hmoves => ?_, fun result after hmoves => ?_⟩
  · have hrest : resting relay demand.ends relay := ⟨hreachable.stands demand.ends, id⟩
    have hleaves : (demand.leaves relay).holds after :=
      (demand.ensures relay relay _ after hrest hmoves).2 (.ok ()) rfl
    rw [Demand.leaves, hneeds] at hleaves
    obtain ⟨number, hserving, hstands⟩ := hleaves
    exact ⟨number, hstands.slot_eq, new_of_serving hserving hexited, hstands.known number rfl⟩
  · have hend := (start_unnoticed relay relay _ after ⟨rfl, rfl, hexited⟩ hmoves).2 result rfl
    cases result with
    | ok value => exact ⟨rfl, hend⟩
    | error failure => exact hend.1.elim

namespace UnnoticedExit

theorem exit_law_relay :
    relay.Reachable ∧ relay.hasExited = true ∧
    ∀ after, Task.Moves Around (Demand.operation (.run "second")).run relay (.done (.ok ())) after →
      ∃ number, after.slot = .running number ∧ 1 ≤ number ∧ number < after.sessions.length :=
  ⟨relay_reachable, rfl, (exit_law relay_reachable rfl).1 (.run "second") rfl⟩

/-- A start reports success, and no process lives. -/
theorem start_leaves_exited :
    relay.Reachable ∧ relay.hasExited = true ∧
    Task.Moves Around (Demand.operation .start).run relay (.done (.ok ())) relay ∧
    relay.slot = .running 0 ∧ relay.sessions.length = 1 ∧ relay.lives 0 = false :=
  ⟨relay_reachable, rfl, Task.moves_of_alone? rfl, rfl, rfl, rfl⟩

end UnnoticedExit
end Relay
end CompilerRelay
