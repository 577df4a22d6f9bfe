import CompilerRelay.Proofs.LifecyclePhases
import CompilerRelay.Proofs.RestartIsolation

/-!
# The course of sessions

What every demand does to the slot and to the processes, finished or dropped midway, and what follows for every
reachable relay.

**Input.**  A reachable relay and a demand, with everything that may go on beside it.

**Form.**  `Demand.operation` is what the relay does at a demand, with whether it fails.  `Relay.resting origin ends`
is what a demand begins with that finds the relay as `origin`.

**Results.**
* `Demand.ensures`: what a demand leaves where it ends well, and where it fails.
* `Relay.Reachable.stands`: where nothing is carried out, only the process of the slot may live.
* `Relay.lifecycle_law`: what holds at every moment of a demand, and at its end.
-/

namespace CompilerRelay

/-! ## Demands with their results -/

namespace Demand

/-- An operation of which only the failure is looked at. -/
def answered {α : Type} (operation : Operation α) : Operation Unit := do
  let _ ← operation
  return

/-- What the relay does at a demand, with whether it fails. -/
def operation : Demand → Operation Unit
  | .start => answered Relay.start
  | .reset => answered Relay.reset
  | .stop => answered Relay.stop
  | .endSession => answered Relay.endSession
  | .clean => answered Relay.clean
  | .cleanTemplates => answered Relay.cleanTemplates
  | .quitDebug => answered Relay.quitDebug
  | .startLog => answered Relay.startLog
  | .stopLog => answered Relay.stopLog
  | .run code => answered (Relay.run code)
  | .runIfStarted code => answered (Relay.runIfStarted code)
  | .submit statement => answered (Relay.submit statement)
  | .runStatement statement => answered (Relay.runStatement statement)
  | .compileFile file => answered (Relay.compileFile file)
  | .runFile file => answered (Relay.runFile file)
  | .loadAll file => answered (Relay.loadAll file)
  | .compileFolders directories => answered (Relay.compileFolders directories)
  | .submitGoto file offset => answered (Relay.submitGoto file offset)
  | .goto file offset => answered (Relay.goto file offset)

theorem taskOf_answered {α : Type} (operation : Operation α) : taskOf (answered operation) = taskOf operation := by
  rw [answered, taskOf_bind, taskOf]
  congr 1
  funext result
  cases result <;> rfl

theorem task_eq (demand : Demand) : demand.task = taskOf demand.operation := by
  cases demand <;> exact (taskOf_answered _).symm

/-- Whether a demand may end the session that it finds. -/
def ends : Demand → Bool
  | .reset | .stop | .endSession | .clean | .cleanTemplates => true
  | .start | .quitDebug | .startLog | .stopLog | .run _ | .runIfStarted _ | .submit _ | .runStatement _
  | .compileFile _ | .runFile _ | .loadAll _ | .compileFolders _ | .submitGoto _ _ | .goto _ _ => false

/-- Whether a demand is a start or a reset. -/
def isStart : Demand → Bool
  | .start | .reset => true
  | .stop | .endSession | .clean | .cleanTemplates | .quitDebug | .startLog | .stopLog | .run _ | .runIfStarted _
  | .submit _ | .runStatement _ | .compileFile _ | .runFile _ | .loadAll _ | .compileFolders _ | .submitGoto _ _
  | .goto _ _ => false

/-- Whether a demand makes sure that the compiler runs. -/
def ensuresRunning : Demand → Bool
  | .run _ | .compileFile _ | .runFile _ | .loadAll _ | .compileFolders _ | .submitGoto _ _ | .goto _ _ => true
  | .submit statement | .runStatement statement => statement.start
  | .start | .reset | .stop | .endSession | .clean | .cleanTemplates | .quitDebug | .startLog | .stopLog
  | .runIfStarted _ => false

end Demand

namespace Relay

/-- A session that a demand may be served by that found the relay as `origin`: a new one, or the one in the slot
unless its process had exited. -/
def Serving (origin : Relay) (number : Nat) : Prop :=
  origin.sessions.length ≤ number ∨ (origin.slot = .running number ∧ origin.hasExited = false)

/-- A demand that found the relay as `origin` has not come to the sessions yet. -/
def resting (origin : Relay) (ends : Bool) : Assertion Around (Moment origin ends) :=
  (stands origin ends (.ofSlot origin.slot)).also (fun relay => origin.hasExited = true → relay.hasExited = true)
    fun haround _ hexited hbefore => haround.passes.hasExited (hexited hbefore)

section Operations

variable {origin : Relay} {ends : Bool} {known : Nat → Prop} {α : Type}

theorem rests_of_resting
    {relay : Relay} (h : resting origin ends relay) :
    rests origin ends relay :=
  ⟨_, .same, h.1⟩

theorem stands_of_resting
    {relay : Relay} (h : resting origin ends relay) :
    stands origin ends (.ofSlot origin.slot) relay :=
  h.1

theorem rests_of_serves
    {relay : Relay} (h : serves origin ends known relay) :
    rests origin ends relay := by
  obtain ⟨number, -, hstands⟩ := h
  exact ⟨_, .running number, hstands⟩

theorem rests_of_amiss
    {failure : Failure} {relay : Relay} (h : amiss origin ends failure relay) :
    rests origin ends relay := by
  cases failure with
  | notRunning =>
      obtain ⟨number, hstands, -⟩ := h
      exact ⟨_, .running number, hstands⟩
  | start | preprocess | watch | definition | clean | log | invalidPattern => exact h

/-- What may stand before the compiler is needed: nothing is under way, and every new session will do. -/
structure Opening (known : Nat → Prop) (pre : Assertion Around (Moment origin ends)) : Prop where
  new : ∀ number, origin.sessions.length ≤ number → known number
  kept : ∀ {before after}, pre before → before.SameSessions after → pre after
  rests : ∀ {relay}, pre relay → rests origin ends relay
  idle : ∀ {relay}, pre relay → Idle origin ends known relay

theorem opening_resting : Opening origin.Serving (resting origin ends) where
  new := fun _ hnew => .inl hnew
  kept := fun h hsame => ⟨h.1.sameSessions hsame, fun hexited => hsame.hasExited_eq.trans (h.2 hexited)⟩
  rests := rests_of_resting
  idle := by
    intro relay h
    refine ⟨origin.slot, h.1, fun number hslot hlasting => .inr ⟨hslot, ?_⟩⟩
    refine Bool.eq_false_iff.mpr fun hexited => ?_
    rw [h.2 hexited] at hlasting
    cases hlasting

namespace Opening

variable {pre : Assertion Around (Moment origin ends)}

theorem serves (h : Opening known pre) : Opening known (serves origin ends known) where
  new := h.new
  kept := fun ⟨number, hknown, hstands⟩ hsame => ⟨number, hknown, hstands.sameSessions hsame⟩
  rests := rests_of_serves
  idle := fun ⟨number, hknown, hstands⟩ => ⟨.running number, hstands, fun other hother _ => by
    obtain rfl := Slot.running.inj hother
    exact hknown⟩

theorem aside
    (h : Opening known pre) {operation : Operation α} (haside : Aside operation) :
    Task.Ensures pre operation (fun _ => pre) (amiss origin ends) :=
  haside.ensures (fun hsame hpre => h.kept hpre hsame) fun _ _ hfailure hpre => amiss_of_rests hfailure (h.rests hpre)

theorem ensureRunning (h : Opening known pre) :
    Task.Ensures pre ensureRunning (fun _ => Relay.serves origin ends known) (amiss origin ends) :=
  (ensureRunning_ensures h.new fun _ => h.idle).mono (fun _ hpre => hpre) (fun _ _ hpost => hpost)
    fun _ _ => amiss_of_notStarted

theorem runCommand (h : Opening known pre) (command : Command) :
    Task.Ensures pre (runCommand command) (fun _ => Relay.serves origin ends known) (amiss origin ends) :=
  (h.aside aside_clearForBuild).bind fun _ =>
    (h.aside aside_clearDiagnostics).bind fun _ =>
      h.ensureRunning.bind fun _ => send_ensures command

/-- The file of a template is generated, and a command on it is sent. -/
theorem sendBuilt (h : Opening known pre) (file : Path) (command : Path → Command) :
    Task.Ensures (Relay.serves origin ends known)
      (do
        let target ← preprocess file
        send (command target)
        return target : Operation Path)
      (fun _ => Relay.serves origin ends known) (amiss origin ends) :=
  (h.serves.aside (aside_preprocess file)).bind fun target =>
    (send_ensures (command target)).bind fun _ => Task.ensures_pure fun _ hpost => hpost

theorem compileFile (h : Opening known pre) (file : Path) :
    Task.Ensures pre (compileFile file) (fun _ => Relay.serves origin ends known) (amiss origin ends) :=
  (h.aside aside_clearForBuild).bind fun _ =>
    (h.aside aside_clearDiagnostics).bind fun _ =>
      h.ensureRunning.bind fun _ => h.sendBuilt file .compileFile

theorem runFile (h : Opening known pre) (file : Path) :
    Task.Ensures pre (runFile file) (fun _ => Relay.serves origin ends known) (amiss origin ends) := by
  have hrest : Task.Ensures pre (clearDiagnostics >>= fun _ => Relay.ensureRunning >>= fun _ => (do
      let target ← preprocess file
      send (.runFile target)
      return target : Operation Path))
      (fun _ => Relay.serves origin ends known) (amiss origin ends) :=
    (h.aside aside_clearDiagnostics).bind fun _ => h.ensureRunning.bind fun _ => h.sendBuilt file .runFile
  unfold Relay.runFile
  split
  · exact (h.aside aside_clearForBuild).bind fun _ => hrest
  · exact hrest

theorem loadAll (h : Opening known pre) (file : Path) :
    Task.Ensures pre (loadAll file) (fun _ => Relay.serves origin ends known) (amiss origin ends) :=
  (h.aside aside_clearDiagnostics).bind fun _ => h.ensureRunning.bind fun _ => send_ensures (.loadAll file)

/-- The compiler is made sure of twice, and its process may exit in between. -/
theorem compileFolders (h : Opening known pre) (directories : List Path) :
    Task.Ensures pre (compileFolders directories) (fun _ => Relay.serves origin ends known) (amiss origin ends) :=
  h.ensureRunning.bind fun _ =>
    (h.serves.aside (aside_onTemplates _)).bind fun _ =>
      (h.serves.aside (aside_onChannel _)).bind fun _ => h.serves.runCommand (.compileAllBelow directories)

/-- A watch is installed, and a command is sent whose outcome it waits for. -/
theorem sendWatching
    (h : Opening known pre) (success : Pattern) (failure : Option Pattern) (command : Command)
    (wrap : PendingWatch → α) {post : α → Assertion Around (Moment origin ends)}
    (hpost : ∀ watch relay, Relay.serves origin ends known relay → post (wrap watch) relay) :
    Task.Ensures (Relay.serves origin ends known)
      (do
        let watch ← watchFor success failure
        sendWatched command watch
        return wrap watch : Operation α)
      post (amiss origin ends) :=
  (h.serves.aside (aside_watchFor success failure)).bind fun watch =>
    (sendWatched_ensures command watch).bind fun _ => Task.ensures_pure (hpost watch)

theorem submitGoto (h : Opening known pre) (file : Path) (offset : Nat) :
    Task.Ensures pre (submitGoto file offset) (fun _ => Relay.serves origin ends known) (amiss origin ends) :=
  h.ensureRunning.bind fun _ =>
    (h.serves.aside (.attempt (fun _ hfailure => by cases hfailure) _)).bind fun pattern =>
      h.sendWatching pattern none (.refers file offset) id fun _ _ hserves => hserves

theorem goto (h : Opening known pre) (file : Path) (offset : Nat) :
    Task.Ensures pre (goto file offset) (fun _ => Relay.serves origin ends known) (amiss origin ends) :=
  (h.submitGoto file offset).bind fun watch => h.serves.aside (aside_waitLocation watch)

end Opening

/-! ## Statements -/

/-- What a statement leaves: it is skipped only if it must not start the compiler and the slot held no session. -/
def submitted (origin : Relay) (ends : Bool) (statement : Statement) :
    Option α → Assertion Around (Moment origin ends)
  | none => .given (statement.start = false ∧ origin.isRunning = false) (resting origin ends)
  | some _ => serves origin ends origin.Serving

theorem isRunning_eq_of_resting
    {relay : Relay} (h : resting origin ends relay) :
    relay.isRunning = origin.isRunning := by
  rw [isRunning_eq h.1, Phase.slot_ofSlot, isRunning]

theorem submit_ensures (statement : Statement) :
    Task.Ensures (resting origin ends) (submit statement) (submitted origin ends statement) (amiss origin ends) := by
  have hsend : Task.Ensures (resting origin ends)
      (ensureRunning >>= fun _ => (do
        let watch ← watchFor statement.success statement.failure
        sendWatched (.raw statement.code) watch
        return some watch : Operation (Option PendingWatch)))
      (submitted origin ends statement) (amiss origin ends) :=
    opening_resting.ensureRunning.bind fun _ =>
      opening_resting.sendWatching statement.success statement.failure (.raw statement.code) some fun _ _ h => h
  refine ensures_look (fun _ => isRunning_eq_of_resting) ?_
  split
  · next hskipped =>
      exact Task.ensures_pure fun _ h => ⟨by simpa using hskipped, h⟩
  · split
    · exact (opening_resting.aside aside_clearForBuild).bind fun _ => hsend
    · exact hsend

theorem runStatement_ensures (statement : Statement) :
    Task.Ensures (resting origin ends) (runStatement statement) (submitted origin ends statement)
      (amiss origin ends) := by
  refine (submit_ensures statement).bind fun submitted => ?_
  cases submitted with
  | none => exact Task.ensures_pure fun _ h => h
  | some watch =>
      exact (opening_resting.serves.aside (aside_wait watch)).bind fun line => Task.ensures_pure fun _ h => h

/-! ## Demands that need no compiler -/

theorem send_ensures_of_running (hrunning : origin.isRunning = true) (command : Command) :
    Task.Ensures (resting origin ends) (send command) (fun _ => rests origin ends) (amiss origin ends) := by
  obtain ⟨number, hslot⟩ := exists_of_isRunning hrunning
  have hsend : Task.Ensures (serves origin ends (· = number)) (send command)
      (fun _ => serves origin ends (· = number)) (amiss origin ends) :=
    send_ensures command
  refine (hsend.mono_post fun _ _ => rests_of_serves).mono_pre fun relay h => ⟨number, rfl, ?_⟩
  have hstands := h.1
  rwa [hslot] at hstands

theorem quitDebug_ensures :
    Task.Ensures (resting origin ends) quitDebug (fun _ => rests origin ends) (amiss origin ends) := by
  refine ensures_look (fun _ => isRunning_eq_of_resting) ?_
  split
  · next hrunning => exact send_ensures_of_running hrunning .quitDebug
  · exact Task.ensures_pure fun _ => rests_of_resting

theorem runIfStarted_ensures (code : String) :
    Task.Ensures (resting origin ends) (runIfStarted code) (fun _ => rests origin ends) (amiss origin ends) := by
  refine (opening_resting.aside aside_clearForBuild).bind fun _ =>
    (opening_resting.aside aside_clearDiagnostics).bind fun _ =>
      ensures_look (fun _ => isRunning_eq_of_resting) ?_
  split
  · next hrunning =>
      exact (send_ensures_of_running hrunning (.raw code)).bind fun _ => Task.ensures_pure fun _ h => h
  · exact Task.ensures_pure fun _ => rests_of_resting

/-! ## Demands that start or end a session -/

theorem start_ensures_of_resting :
    Task.Ensures (resting origin ends) start (fun _ => rests origin ends) (notStarted origin ends) := by
  have hstart {slot : Slot} (hslot : origin.slot = slot) (hphase : slot = .stopped ∨ slot = .starting) :
      Task.Ensures (resting origin ends) start (fun _ => rests origin ends) (notStarted origin ends) := by
    have hopen : Phase.ofSlot origin.slot = .stopped ∨ Phase.ofSlot origin.slot = .starting := by
      rw [hslot]
      rcases hphase with rfl | rfl
      · exact .inl rfl
      · exact .inr rfl
    exact ((start_ensures hopen).mono_post fun _ _ => rests_of_serves).mono_pre fun _ => stands_of_resting
  cases hslot : origin.slot with
  | stopped => exact hstart hslot (.inl rfl)
  | starting => exact hstart hslot (.inr rfl)
  | running number =>
      have hrunning : ∀ relay, resting origin ends relay → relay.isRunning = true := by
        intro relay h
        rw [isRunning_eq_of_resting h, isRunning, hslot]
        rfl
      exact (start_ensures_of_running hrunning).mono_post fun _ _ => rests_of_resting

theorem endSession_ensures_of_resting {failed : Failure → Assertion Around (Moment origin true)} :
    Task.Ensures (resting origin true) endSession (fun _ => stands origin true .stopped) failed :=
  endSession_ensures.mono_pre fun _ => stands_of_resting

theorem reset_ensures :
    Task.Ensures (resting origin true) reset (fun _ => rests origin true) (notStarted origin true) := by
  have hclear : Task.Ensures (stands origin true .stopped) clearForBuild (fun _ => stands origin true .stopped)
      (notStarted origin true) :=
    clearForBuild_ensures Stands.sameSessions
  refine endSession_ensures_of_resting.bind fun _ => hclear.bind fun _ => ?_
  exact (start_ensures (.inl rfl)).mono_post fun _ _ => rests_of_serves

theorem rests_of_stopped
    {relay : Relay} (h : stands origin ends .stopped relay) :
    rests origin ends relay :=
  ⟨.stopped, .stopped, h⟩

theorem stop_ensures :
    Task.Ensures (resting origin true) stop (fun _ => rests origin true) (amiss origin true) := by
  refine ensures_look (fun _ => isRunning_eq_of_resting) ?_
  split
  · refine (opening_resting.aside aside_clearForBuild).bind fun _ =>
      (opening_resting.aside (aside_changeOutput _)).bind fun _ => ?_
    exact endSession_ensures_of_resting.mono_post fun _ _ => rests_of_stopped
  · exact Task.ensures_pure fun _ => rests_of_resting

theorem cleanAndReport_ensures (header footer : String) :
    Task.Ensures (resting origin true) (cleanAndReport header footer)
      (fun _ => rests origin true) (amiss origin true) := by
  refine (opening_resting.aside (.take fun _ => ⟨rfl, rfl, rfl, rfl⟩)).bind fun result =>
    endSession_ensures_of_resting.bind fun _ => ?_
  have hkept {before after : Relay} (hsame : before.SameSessions after) (h : stands origin true .stopped before) :
      stands origin true .stopped after :=
    h.sameSessions hsame
  have hreport : Aside (attempt .clean result >>= fun written => reportClean header written.text footer) :=
    .bind (.attempt (fun _ h => by cases h) result) fun written => aside_changeOutput _
  exact (hreport.ensures hkept fun _ _ hfailure h => amiss_of_rests hfailure (rests_of_stopped h)).mono_post
    fun _ _ => rests_of_stopped

theorem clean_ensures :
    Task.Ensures (resting origin true) clean (fun _ => rests origin true) (amiss origin true) :=
  (opening_resting.aside (aside_changeOutput _)).bind fun _ => cleanAndReport_ensures _ _

theorem cleanTemplates_ensures :
    Task.Ensures (resting origin true) cleanTemplates (fun _ => rests origin true) (amiss origin true) :=
  (opening_resting.aside aside_clearForBuild).bind fun _ =>
    (opening_resting.aside (aside_onTemplates _)).bind fun _ =>
      (opening_resting.aside (aside_onChannel _)).bind fun _ => cleanAndReport_ensures _ _

end Operations
end Relay

/-! ## All demands -/

namespace Demand

open Relay

/-- What a demand leaves that ended well. -/
def leaves (demand : Demand) (origin : Relay) : Assertion Around (Moment origin demand.ends) :=
  bif demand.ensuresRunning then serves origin demand.ends origin.Serving else rests origin demand.ends

/-- What a demand leaves that failed. -/
def fails (demand : Demand) (origin : Relay) (failure : Failure) : Assertion Around (Moment origin demand.ends) :=
  bif demand.isStart then notStarted origin demand.ends failure else amiss origin demand.ends failure

theorem ensures_answered
    {always : Relay → Prop} {pre post : Assertion Around always} {failed : Failure → Assertion Around always}
    {α : Type} {operation : Operation α} (h : Task.Ensures pre operation (fun _ => post) failed) :
    Task.Ensures pre (answered operation) (fun _ => post) failed :=
  h.bind fun _ => Task.ensures_pure fun _ hpost => hpost

/-- A statement that may start the compiler is not skipped. -/
theorem ensures_submitted
    {origin : Relay} {α : Type} {operation : Operation (Option α)} {statement : Statement}
    (h : Task.Ensures (resting origin false) operation (submitted origin false statement) (amiss origin false)) :
    Task.Ensures (resting origin false) (answered operation)
      (fun _ => bif statement.start then serves origin false origin.Serving else rests origin false)
      (amiss origin false) := by
  refine ensures_answered (h.mono_post fun result relay hpost => ?_)
  cases result with
  | none =>
      obtain ⟨⟨hstart, -⟩, hrest⟩ := hpost
      rw [hstart]
      exact rests_of_resting hrest
  | some value =>
      cases statement.start with
      | true => exact hpost
      | false => exact rests_of_serves hpost

/-- What a demand leaves where it ends well, and where it fails. -/
theorem ensures (demand : Demand) (origin : Relay) :
    Task.Ensures (resting origin demand.ends) demand.operation (fun _ => demand.leaves origin)
      (demand.fails origin) := by
  cases demand with
  | start => exact ensures_answered start_ensures_of_resting
  | reset => exact ensures_answered reset_ensures
  | stop => exact ensures_answered stop_ensures
  | endSession =>
      exact ensures_answered (endSession_ensures_of_resting.mono_post fun _ _ => rests_of_stopped)
  | clean => exact ensures_answered clean_ensures
  | cleanTemplates => exact ensures_answered cleanTemplates_ensures
  | quitDebug => exact ensures_answered quitDebug_ensures
  | startLog =>
      exact ensures_answered ((opening_resting.aside aside_startLog).mono_post fun _ _ => rests_of_resting)
  | stopLog =>
      exact ensures_answered ((opening_resting.aside (aside_changeOutput _)).mono_post fun _ _ => rests_of_resting)
  | run code => exact ensures_answered (opening_resting.runCommand (.raw code))
  | runIfStarted code => exact ensures_answered (runIfStarted_ensures code)
  | submit statement => exact ensures_submitted (submit_ensures statement)
  | runStatement statement => exact ensures_submitted (runStatement_ensures statement)
  | compileFile file => exact ensures_answered (opening_resting.compileFile file)
  | runFile file => exact ensures_answered (opening_resting.runFile file)
  | loadAll file => exact ensures_answered (opening_resting.loadAll file)
  | compileFolders directories => exact ensures_answered (opening_resting.compileFolders directories)
  | submitGoto file offset => exact ensures_answered (opening_resting.submitGoto file offset)
  | goto file offset => exact ensures_answered (opening_resting.goto file offset)

theorem rests_of_leaves
    {demand : Demand} {origin relay : Relay} (h : demand.leaves origin relay) :
    rests origin demand.ends relay := by
  unfold leaves at h
  cases hneeds : demand.ensuresRunning with
  | true =>
      rw [hneeds] at h
      exact rests_of_serves h
  | false =>
      rw [hneeds] at h
      exact h

theorem amiss_of_fails
    {demand : Demand} {origin : Relay} {failure : Failure} {relay : Relay} (h : demand.fails origin failure relay) :
    amiss origin demand.ends failure relay := by
  unfold fails at h
  cases hstart : demand.isStart with
  | true =>
      rw [hstart] at h
      exact amiss_of_notStarted h
  | false =>
      rw [hstart] at h
      exact h

theorem meets (demand : Demand) (origin : Relay) :
    Task.Meets (resting origin demand.ends) demand.task fun _ => rests origin demand.ends := by
  rw [task_eq]
  refine Task.Meets.bind (demand.ensures origin) fun result => Task.meets_done fun relay h => ?_
  cases result with
  | ok value => exact rests_of_leaves h
  | error failure => exact rests_of_amiss (amiss_of_fails h)

end Demand

namespace Relay

/-! ## Reachable relays -/

/-- Where nothing is carried out, only the process of the slot may live. -/
theorem Reachable.stands
    {relay : Relay} (h : relay.Reachable) (ends : Bool) :
    Stands relay ends (.ofSlot relay.slot) relay := by
  induction h generalizing ends with
  | new config environment host files =>
      exact ⟨.stopped, rfl, rfl, le_rfl, rfl, fun number hlives => absurd (lt_of_lives hlives) (Nat.not_lt_zero number),
        fun number hnumber => by cases hnumber⟩
  | around _ haround ih =>
      exact ((ih ends).passes haround.passes).again (by rw [haround.passes.slot_eq]) ends
  | @done before after demand _ hmoves ih =>
      obtain ⟨phase, hfinal, hstands⟩ :=
        (demand.meets before before (.done ()) after ⟨ih demand.ends, id⟩ hmoves).2 () rfl
      exact hstands.again (by rw [hstands.slot_eq]; exact hfinal.eq_ofSlot) ends
  | @dropped before after demand left _ hmoves ih =>
      obtain ⟨phase, hstands⟩ := (demand.meets before before left after ⟨ih demand.ends, id⟩ hmoves).1
      exact hstands.dropStart ends

/-! ## What holds at every moment -/

theorem Stands.lives_cases
    {origin relay : Relay} {ends : Bool} {phase : Phase} (h : Stands origin ends phase relay)
    {number : Nat} (hlives : relay.lives number = true) :
    relay.slot = .running number ∨
    (relay.slot = .starting ∧ origin.sessions.length ≤ number) ∨
    (relay.slot = .stopped ∧ origin.slot = .running number ∧ ends = true) := by
  have hprocess := h.alone number hlives
  have hslot := h.slot_eq
  cases h.allowed with
  | stopped | starting => cases hprocess
  | spawned hwait hnew =>
      obtain rfl := Option.some.inj hprocess
      exact .inr (.inl ⟨hslot, hnew⟩)
  | running =>
      obtain rfl := Option.some.inj hprocess
      exact .inl hslot
  | ending hends hheld =>
      obtain rfl := Option.some.inj hprocess
      exact .inr (.inr ⟨hslot, hheld, hends⟩)

theorem Stands.lives_unique
    {origin relay : Relay} {ends : Bool} {phase : Phase} (h : Stands origin ends phase relay)
    {one other : Nat} (hone : relay.lives one = true) (hother : relay.lives other = true) :
    one = other :=
  Option.some.inj ((h.alone one hone).symm.trans (h.alone other hother))

theorem slot_ne_starting_of_rests
    {origin relay : Relay} {ends : Bool} (h : rests origin ends relay) (horigin : origin.slot ≠ .starting) :
    relay.slot ≠ .starting := by
  obtain ⟨phase, hfinal, hstands⟩ := h
  rw [hstands.slot_eq]
  cases hfinal with
  | stopped | running => exact fun hstarting => by cases hstarting
  | same => rwa [Phase.slot_ofSlot]

/-- **The lifecycle of the compiler.**  A process that lives holds the slot, but for two courses of events: a start that
has spawned it and goes on, and the end of a session, from the moment the slot is freed to the moment the process is
killed. -/
theorem lifecycle_law
    {relay : Relay} (hreachable : relay.Reachable) :
    -- Where nothing is carried out, no process lives but the one that holds the slot.
    (∀ number, relay.lives number = true → relay.slot = .running number) ∧
    ∀ demand : Demand,
      -- While a demand is carried out, at most one process lives: it holds the slot, or it was spawned by a start
      -- that is under way, or the demand is one that ends a session, and it has freed the slot.
      (∀ left middle, Task.Moves Around demand.operation.run relay left middle →
        (∀ one other, middle.lives one = true → middle.lives other = true → one = other) ∧
        ∀ number, middle.lives number = true →
          middle.slot = .running number ∨
          (middle.slot = .starting ∧ relay.sessions.length ≤ number) ∨
          (middle.slot = .stopped ∧ relay.slot = .running number ∧ demand.ends = true)) ∧
      -- When it ends, the slot is empty or holds a session unless a dropped start had left it otherwise; it is empty
      -- after a start that failed; and to be told that the compiler is not running takes a session in the slot for
      -- which nobody takes statements any more, so it is never for want of one that a command is not sent.
      (∀ result after, Task.Moves Around demand.operation.run relay (.done result) after →
        (relay.slot ≠ .starting → after.slot ≠ .starting) ∧
        (demand.isStart = true → ∀ failure, result = .error failure → after.slot = .stopped) ∧
        (result = .error .notRunning → ∃ number, after.slot = .running number ∧ after.takes number = false)) := by
  refine ⟨fun number hlives => ?_, fun demand => ?_⟩
  · have hstands := hreachable.stands false
    rcases hstands.lives_cases hlives with hslot | ⟨-, hnew⟩ | ⟨-, -, hends⟩
    · exact hslot
    · exact absurd (lt_of_lives hlives) hnew.not_gt
    · cases hends
  have hrest : resting relay demand.ends relay := ⟨hreachable.stands demand.ends, id⟩
  refine ⟨fun left middle hmoves => ?_, fun result after hmoves => ?_⟩
  · obtain ⟨phase, hstands⟩ := (demand.ensures relay relay left middle hrest hmoves).1
    exact ⟨fun one other => hstands.lives_unique, fun number => hstands.lives_cases⟩
  have hend := (demand.ensures relay relay (.done result) after hrest hmoves).2 result rfl
  cases result with
  | ok value =>
      exact ⟨slot_ne_starting_of_rests (Demand.rests_of_leaves hend), (fun _ _ hfailed => by cases hfailed),
        (fun hfailed => by cases hfailed)⟩
  | error failure =>
      have hamiss := Demand.amiss_of_fails hend
      refine ⟨slot_ne_starting_of_rests (rests_of_amiss hamiss), fun hstart _ _ => ?_, fun hfailed => ?_⟩
      · have hfails : (demand.fails relay failure).holds after := hend
        rw [Demand.fails, hstart] at hfails
        exact hfails.2.slot_eq
      · obtain rfl := Except.error.inj hfailed
        obtain ⟨number, hstands, hdeaf⟩ := hamiss
        exact ⟨number, hstands.slot_eq, hdeaf⟩

namespace UnnoticedExit

theorem lifecycle_started :
    started.Reachable ∧ started.lives 0 = true ∧ started.slot = .running 0 ∧
    ∀ result after, Task.Moves Around (Demand.operation .reset).run started (.done result) after →
      after.slot ≠ .starting :=
  ⟨started_reachable, rfl, (lifecycle_law started_reachable).1 0 rfl, fun result after hmoves =>
    (((lifecycle_law started_reachable).2 .reset).2 result after hmoves).1 (by decide)⟩

/-- The relay in the course of a stop: the slot was freed, and those who wait for output are not told yet. -/
def ending : Relay :=
  ((Demand.operation .stop).run.steps? 5 started).elim started Prod.snd

/-- No start goes on, the slot is empty, and the process lives. -/
theorem lives_ending :
    started.Reachable ∧ started.slot = .running 0 ∧ Demand.stop.isStart = false ∧
      (∃ left, Task.Moves Around (Demand.operation .stop).run started left ending) ∧
      ending.slot = .stopped ∧ ending.lives 0 = true :=
  ⟨started_reachable, rfl, rfl,
    ⟨_, Task.moves_of_steps? (rfl : (Demand.operation .stop).run.steps? 5 started = some (_, ending))⟩, rfl, rfl⟩

end UnnoticedExit
end Relay
end CompilerRelay
