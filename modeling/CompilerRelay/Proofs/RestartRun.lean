import CompilerRelay.Proofs.RelayRun

/-!
# Restarts

The run of a demand that starts a session in place of one that lost the slot, when nothing else happens meanwhile.

**Input.**  A relay whose slot holds no session, or one whose process exited unnoticed, and a demand.

**Algorithm.**  The demand clears views, frees the slot, and starts a session.  A line that says that the compiler
takes commands is watched for before the process is spawned; the outcome of a statement or a look-up is watched for
after that.

**Results.**
* `Relay.restarts_comesToStart`: every demand that restarts the compiler comes to the start.
* `Relay.restart_awaits`: from there it comes to wait for a line, and the older sessions are read as before.
-/

namespace CompilerRelay
namespace Demand

/-- Whether a demand watches for the outcome of what it sends. -/
def watches : Demand → Bool
  | .submit _ | .runStatement _ | .submitGoto _ _ | .goto _ _ => true
  | .start | .reset | .stop | .endSession | .clean | .cleanTemplates | .quitDebug | .startLog | .stopLog
  | .run _ | .runIfStarted _ | .compileFile _ | .runFile _ | .loadAll _ | .compileFolders _ => false

end Demand

namespace Relay

/-- The slot holds no session whose process runs. -/
def Lost (relay : Relay) : Prop :=
  relay.hasExited = true ∨ relay.isRunning = false

/-- A demand starts a session in place of one that lost the slot. -/
def Restarts (relay : Relay) : Demand → Prop
  | .start | .reset => relay.isRunning = false
  | .submit statement | .runStatement statement => statement.start = true ∧ relay.Lost
  | .run _ | .compileFile _ | .runFile _ | .loadAll _ | .compileFolders _ | .submitGoto _ _ | .goto _ _ =>
      relay.Lost
  | .stop | .endSession | .clean | .cleanTemplates | .quitDebug | .startLog | .stopLog | .runIfStarted _ => False

/-- A demand that restarts the compiler gets as far as to watch for something: for the line that says that the
compiler takes commands, or, if no such line is configured, for the outcome of what it sends to the process that it
spawned. -/
def CanWatch (relay : Relay) (demand : Demand) : Prop :=
  match relay.config.readyPattern with
  | some text => ∃ pattern, relay.host.compile text = .ok pattern
  | none => demand.watches = true ∧ ∃ number, relay.spawn.1 = .ok number

/-- A new watch waits, and every older session is read as before. -/
structure Awaits (before middle : Relay) : Prop where
  new_watch : ∃ watch, middle.channel.watch.active = some watch ∧ before.channel.watch.lastId < watch.id
  reads_eq : ∀ number, number < before.sessions.length → middle.reads number = before.reads number

/-- All that a restart depends on is as before; the slot and what is shown may differ. -/
structure Alike (before after : Relay) : Prop where
  config_eq : after.config = before.config
  host_eq : after.host = before.host
  files_eq : after.files = before.files
  sessions_eq : after.sessions = before.sessions
  lastId_eq : after.channel.watch.lastId = before.channel.watch.lastId

theorem Alike.refl (relay : Relay) : relay.Alike relay := ⟨rfl, rfl, rfl, rfl, rfl⟩

theorem Alike.trans
    {first second third : Relay}
    (hfirst : first.Alike second) (hsecond : second.Alike third) :
    first.Alike third where
  config_eq := hsecond.config_eq.trans hfirst.config_eq
  host_eq := hsecond.host_eq.trans hfirst.host_eq
  files_eq := hsecond.files_eq.trans hfirst.files_eq
  sessions_eq := hsecond.sessions_eq.trans hfirst.sessions_eq
  lastId_eq := hsecond.lastId_eq.trans hfirst.lastId_eq

theorem Alike.spawn_eq
    {before after : Relay}
    (h : before.Alike after) :
    after.spawn.1 = before.spawn.1 := by
  unfold spawn
  rw [h.config_eq, h.host_eq, h.files_eq, h.sessions_eq]
  split
  · rfl
  · split <;> rfl

theorem Alike.canWatch
    {before after : Relay} {demand : Demand}
    (h : before.Alike after) (hcan : before.CanWatch demand) :
    after.CanWatch demand := by
  unfold CanWatch at hcan ⊢
  rwa [h.config_eq, h.host_eq, h.spawn_eq]

theorem Alike.lost
    {before after : Relay}
    (h : before.Alike after) (hslot : after.slot = before.slot) (hlost : before.Lost) :
    after.Lost := by
  unfold Lost hasExited isRunning session? at hlost ⊢
  rwa [hslot, h.sessions_eq]

/-- Installing a watch leaves every session as it is. -/
theorem awaits_install
    {before : Relay} (relay : Relay)
    (hlastId : relay.channel.watch.lastId = before.channel.watch.lastId)
    (hsessions : before.sessions <+: relay.sessions)
    (success : String → Bool) (failure : Option (String → Bool)) :
    before.Awaits { relay with channel := (relay.channel.install success failure).2 } := by
  refine ⟨⟨⟨relay.channel.watch.lastId + 1, success, failure⟩, rfl, ?_⟩, ?_⟩
  · rw [hlastId]
    exact Nat.lt_succ_self _
  · intro number hnumber
    obtain ⟨newer, hnewer⟩ := hsessions
    simp only [reads, session?, ← hnewer]
    rw [List.getElem?_append_left hnumber]

/-! ## Parts of the run -/

theorem spawn_of_ok
    {relay : Relay} {number : Nat}
    (h : relay.spawn.1 = .ok number) :
    relay.spawn = (.ok relay.sessions.length, { relay with sessions := relay.sessions ++ [{}] }) := by
  unfold spawn at h ⊢
  split at h
  · cases h
  · split at h
    · cases h
    · simp only

theorem alone?_look
    (view : Relay → α) (follow : α → Operation β) (relay : Relay) :
    (look view >>= follow).run.alone? relay = (follow (view relay)).run.alone? relay := rfl

theorem alone?_take
    (change : Relay → α × Relay) (follow : α → Operation β) (relay : Relay) :
    (ExceptT.lift (Task.act change) >>= follow).run.alone? relay =
      (follow (change relay).1).run.alone? (change relay).2 := rfl

/-- A run that goes on. -/
theorem moves_on
    {task middle : Task Relay α} {first second third : Relay}
    (h : Task.Moves Around task first middle second)
    (hmore : ∃ left, Task.Moves Around middle second left third) :
    ∃ left, Task.Moves Around task first left third := by
  obtain ⟨left, hleft⟩ := hmore
  exact ⟨left, h.trans hleft⟩

theorem moves_look
    (view : Relay → α) (follow : α → Operation β) (relay : Relay) :
    Task.Moves Around (look view >>= follow).run relay (follow (view relay)).run relay :=
  Task.moves_of_bind rfl

theorem moves_change
    (change : Relay → Relay) (follow : Unit → Operation β) (relay : Relay) :
    Task.Moves Around (Relay.change change >>= follow).run relay (follow ()).run (change relay) :=
  Task.moves_of_bind rfl

theorem clearForBuild_alone (relay : Relay) :
    ∃ after, clearForBuild.run.alone? relay = some (.ok (), after) ∧ relay.Alike after ∧
      after.slot = relay.slot := by
  cases hclear : relay.config.clearOutput with
  | true =>
      refine ⟨relay.changeChannel Channel.clear, ?_, ⟨rfl, rfl, rfl, rfl, rfl⟩, rfl⟩
      rw [clearForBuild, alone?_look, hclear]
      rfl
  | false =>
      refine ⟨relay, ?_, .refl relay, rfl⟩
      rw [clearForBuild, alone?_look, hclear]
      rfl

theorem clearDiagnostics_moves (follow : PUnit → Operation α) (relay : Relay) :
    ∃ after, relay.Alike after ∧ after.slot = relay.slot ∧
      Task.Moves Around (clearDiagnostics >>= follow).run relay (follow ()).run after :=
  ⟨relay.changeChannel Channel.clearDiagnostics, ⟨rfl, rfl, rfl, rfl, rfl⟩, rfl,
    moves_change _ follow relay⟩

theorem clearViews_moves (follow : PUnit → Operation α) (relay : Relay) :
    ∃ after, relay.Alike after ∧ after.slot = relay.slot ∧
      Task.Moves Around (clearForBuild >>= fun _ => clearDiagnostics >>= follow).run relay
        (follow ()).run after := by
  obtain ⟨cleared, halone, halike, hslot⟩ := clearForBuild_alone relay
  obtain ⟨after, hforgotten, hkept, hmoves⟩ := clearDiagnostics_moves follow cleared
  exact ⟨after, halike.trans hforgotten, hkept.trans hslot, (Task.moves_of_bind halone).trans hmoves⟩

/-- A statement that starts the compiler gets to the point at which it makes sure that the compiler runs. -/
theorem submit_moves
    {statement : Statement} (hstart : statement.start = true) (relay : Relay) :
    ∃ after, relay.Alike after ∧ after.slot = relay.slot ∧
      Task.Moves Around (submit statement).run relay (submitCleared statement).run after := by
  have hlooked : Task.Moves Around (submit statement).run relay
      (if !statement.start && !relay.isRunning then pure none
        else if !statement.keepOutput then clearForBuild >>= fun _ => submitCleared statement
        else submitCleared statement : Operation (Option PendingWatch)).run relay :=
    Task.moves_of_bind rfl
  rw [hstart, Bool.not_true, Bool.false_and, if_neg (by decide)] at hlooked
  cases hkeep : statement.keepOutput with
  | true =>
      rw [hkeep] at hlooked
      exact ⟨relay, .refl relay, rfl, hlooked⟩
  | false =>
      rw [hkeep] at hlooked
      obtain ⟨after, halone, halike, hslot⟩ := clearForBuild_alone relay
      exact ⟨after, halike, hslot, hlooked.trans (Task.moves_of_bind halone)⟩

/-- A relay whose session is lost starts another. -/
theorem ensureRunning_moves
    {relay : Relay}
    (hlost : relay.Lost) :
    ∃ after, relay.Alike after ∧ after.isRunning = false ∧
      Task.Moves Around ensureRunning.run relay start.run after := by
  let after := if relay.hasExited then { relay with slot := .stopped } else relay
  have halike : relay.Alike after := by
    by_cases hexited : relay.hasExited = true
    · simp only [after, hexited, if_true]
      exact ⟨rfl, rfl, rfl, rfl, rfl⟩
    · simp only [after, hexited]
      exact .refl relay
  have hstopped : after.isRunning = false := by
    by_cases hexited : relay.hasExited = true
    · simp only [after, hexited, if_true]
      rfl
    · simp only [after, hexited, Bool.false_eq_true, if_false]
      exact hlost.resolve_left hexited
  have hlooked : Task.Moves Around ensureRunning.run relay
      (if !after.isRunning then start else pure () : Operation Unit).run after :=
    (moves_change _ _ relay).trans (moves_look isRunning _ after)
  rw [hstopped] at hlooked
  exact ⟨after, halike, hstopped, hlooked⟩

/-- Without a session in the slot, ending it leaves the sessions as they are. -/
theorem endSession_alone
    {relay : Relay}
    (hstopped : relay.isRunning = false) :
    endSession.run.alone? relay =
      some (.ok (), Relay.changeChannel { relay with slot := .stopped } Channel.abandon) := by
  rw [endSession, alone?_take]
  cases hslot : relay.slot with
  | running session =>
      rw [isRunning, hslot] at hstopped
      cases hstopped
  | stopped | starting =>
      simp only [freeSlot, hslot]
      rfl

theorem reset_moves
    {relay : Relay}
    (hstopped : relay.isRunning = false) :
    ∃ after, relay.Alike after ∧ after.isRunning = false ∧
      Task.Moves Around reset.run relay start.run after := by
  have hended := endSession_alone hstopped
  obtain ⟨after, halone, halike, hslot⟩ := clearForBuild_alone
    (Relay.changeChannel { relay with slot := .stopped } Channel.abandon)
  have hfreed : relay.Alike (Relay.changeChannel { relay with slot := .stopped } Channel.abandon) :=
    ⟨rfl, rfl, rfl, rfl, WatchSlot.lastId_settle relay.channel.watch _⟩
  refine ⟨after, hfreed.trans halike, ?_, ?_⟩
  · rw [isRunning, hslot]
    rfl
  · exact (Task.moves_of_bind hended).trans (Task.moves_of_bind halone)

/-- Without a line to wait for, a session gets the slot as soon as its process was spawned. -/
theorem start_alone
    {relay : Relay} {number : Nat}
    (hstopped : relay.isRunning = false)
    (hpattern : relay.config.readyPattern = none)
    (hspawn : relay.spawn.1 = .ok number) :
    start.run.alone? relay = some (.ok (),
      { relay with
        sessions := relay.sessions ++ [{}]
        slot := .running relay.sessions.length }) := by
  have halike : relay.Alike { relay with slot := .starting } := ⟨rfl, rfl, rfl, rfl, rfl⟩
  have hspawned : (spawnWatched none).run.alone? { relay with slot := .starting } =
      some (.ok relay.sessions.length,
        { relay with slot := .starting, sessions := relay.sessions ++ [{}] }) := by
    rw [spawnWatched, alone?_take, spawn_of_ok (halike.spawn_eq.trans hspawn)]
    rfl
  rw [start, alone?_look, hstopped, if_neg (by decide), alone?_look, hpattern]
  change (ExceptT.run (spawnWatched none >>= _)).alone? { relay with slot := .starting } = _
  rw [Task.alone?_run_bind hspawned]
  rfl

/-- With a line to wait for, the watch for it is installed before anything is spawned. -/
theorem start_moves
    {relay : Relay} {text : String} {pattern : Pattern}
    (hstopped : relay.isRunning = false)
    (hpattern : relay.config.readyPattern = some text)
    (hcompile : relay.host.compile text = .ok pattern) :
    ∃ left, Task.Moves Around start.run relay left
      { relay with
        slot := .starting
        channel := (relay.channel.install pattern.occursIn none).2 } := by
  unfold start
  refine moves_on (moves_look isRunning _ relay) ?_
  rw [hstopped, if_neg (by decide)]
  refine moves_on (moves_look _ _ relay) ?_
  have hcompiled : (some text).mapM relay.host.compile = .ok (some pattern) := by
    change some <$> relay.host.compile text = _
    rw [hcompile]
    rfl
  rw [hpattern, hcompiled]
  refine moves_on (moves_change _ _ relay) ?_
  exact ⟨_, Task.moves_of_bind rfl⟩

theorem watchFor_moves (success : Pattern) (failure : Option Pattern) (relay : Relay) :
    ∃ left, Task.Moves Around (watchFor success failure).run relay left
      { relay with
        channel := (relay.channel.install success.occursIn (failure.map (·.occursIn))).2 } :=
  ⟨_, Task.moves_of_bind rfl⟩

/-! ## Demands that restart the compiler -/

/-- Undisturbed, a task comes to the point at which it starts a session; one that watches installs its watch next. -/
def ComesToStart (relay : Relay) (task : Task Relay Unit) (watches : Bool) : Prop :=
  ∃ after rest, relay.Alike after ∧ after.isRunning = false ∧
    Task.Moves Around task relay (start.run.bind rest) after ∧
    (watches = true → ∀ ready : Relay, ∃ left success failure,
      Task.Moves Around (rest (.ok ())) ready left
        { ready with channel := (ready.channel.install success failure).2 })

/-- An operation comes to the start if it comes to the point at which it makes sure that the compiler runs. -/
theorem comesToStart_of_moves
    {operation : Operation α} {follow : PUnit → Operation α} {watches : Bool} {relay after : Relay}
    (halike : relay.Alike after) (hlost : after.Lost)
    (hmoves : Task.Moves Around operation.run relay (ensureRunning >>= follow).run after)
    (hwatch : watches = true → ∀ ready : Relay, ∃ left success failure,
      Task.Moves Around (follow ()).run ready left
        { ready with channel := (ready.channel.install success failure).2 })
    (last : Except Failure α → Task Relay Unit) :
    relay.ComesToStart (operation.run.bind last) watches := by
  obtain ⟨freed, hfreed, hstopped, hensure⟩ := ensureRunning_moves hlost
  have hassoc : (ensureRunning >>= follow).run.bind last = ensureRunning.run.bind _ :=
    Task.bind_assoc _ _ _
  have hbound := hmoves.bind last
  rw [hassoc] at hbound
  refine ⟨freed, _, halike.trans hfreed, hstopped, hbound.trans (hensure.bind _), ?_⟩
  intro hwatches ready
  obtain ⟨left, success, failure, hinstalled⟩ := hwatch hwatches ready
  exact ⟨_, success, failure, hinstalled.bind last⟩

/-- An operation that does not watch only has to come to that point. -/
theorem comesToStart_unwatched
    {operation : Operation α} {follow : PUnit → Operation α} {relay after : Relay}
    (halike : relay.Alike after) (hlost : after.Lost)
    (hmoves : Task.Moves Around operation.run relay (ensureRunning >>= follow).run after)
    (last : Except Failure α → Task Relay Unit) :
    relay.ComesToStart (operation.run.bind last) false :=
  comesToStart_of_moves halike hlost hmoves (fun hwatches => by cases hwatches) last

theorem submit_comesToStart
    {statement : Statement} (hstart : statement.start = true)
    {relay : Relay} (hlost : relay.Lost)
    (last : Except Failure (Option PendingWatch) → Task Relay Unit) :
    relay.ComesToStart ((submit statement).run.bind last) true := by
  obtain ⟨after, halike, hslot, hmoves⟩ := submit_moves hstart relay
  refine comesToStart_of_moves halike (halike.lost hslot hlost) hmoves (fun _ ready => ?_) last
  obtain ⟨left, hinstalled⟩ := watchFor_moves statement.success statement.failure ready
  exact ⟨_, _, _, hinstalled.bind _⟩

theorem submitGoto_comesToStart
    (file : Path) (offset : Nat)
    {relay : Relay} (hlost : relay.Lost)
    (last : Except Failure PendingWatch → Task Relay Unit) :
    relay.ComesToStart ((submitGoto file offset).run.bind last) true := by
  refine comesToStart_of_moves (.refl relay) hlost (.refl _ relay) (fun _ ready => ?_) last
  have hcompiles : (Pattern.compile definitionPattern).toOption.isSome = true := by decide +kernel
  cases hcompile : Pattern.compile definitionPattern with
  | error invalid =>
      rw [hcompile] at hcompiles
      cases hcompiles
  | ok pattern =>
      obtain ⟨left, hinstalled⟩ := watchFor_moves pattern none ready
      exact ⟨_, _, _, hinstalled.bind _⟩

/-- Every demand that restarts the compiler comes to the start before it watches for anything. -/
theorem restarts_comesToStart
    {relay : Relay} {demand : Demand}
    (hrestarts : relay.Restarts demand) :
    relay.ComesToStart demand.task demand.watches := by
  cases demand with
  | start => exact ⟨relay, _, .refl relay, hrestarts, .refl _ relay, fun hwatches => by cases hwatches⟩
  | reset =>
      obtain ⟨after, halike, hstopped, hmoves⟩ := reset_moves hrestarts
      exact ⟨after, _, halike, hstopped, hmoves.bind _, fun hwatches => by cases hwatches⟩
  | submit statement => exact submit_comesToStart hrestarts.1 hrestarts.2 _
  | runStatement statement =>
      simp only [Demand.task, Demand.taskOf_bind, runStatement]
      exact submit_comesToStart hrestarts.1 hrestarts.2 _
  | submitGoto file offset => exact submitGoto_comesToStart file offset hrestarts _
  | goto file offset =>
      simp only [Demand.task, Demand.taskOf_bind, goto]
      exact submitGoto_comesToStart file offset hrestarts _
  | run code =>
      obtain ⟨after, halike, hslot, hmoves⟩ :=
        clearViews_moves (fun _ => ensureRunning >>= fun _ => send (.raw code)) relay
      exact comesToStart_unwatched halike (halike.lost hslot hrestarts) hmoves _
  | compileFile file =>
      obtain ⟨after, halike, hslot, hmoves⟩ := clearViews_moves (fun _ => ensureRunning >>= fun _ => do
        let target ← preprocess file
        send (.compileFile target)
        return target) relay
      exact comesToStart_unwatched halike (halike.lost hslot hrestarts) hmoves _
  | runFile file =>
      let follow : PUnit → Operation Path := fun _ => ensureRunning >>= fun _ => do
        let target ← preprocess file
        send (.runFile target)
        return target
      cases hloader : isLoader file with
      | true =>
          have hshown : runFile file = clearDiagnostics >>= follow := by
            simp only [runFile, hloader, Bool.not_true, Bool.false_eq_true, if_false]
            rfl
          obtain ⟨after, halike, hslot, hmoves⟩ := clearDiagnostics_moves follow relay
          rw [← hshown] at hmoves
          exact comesToStart_unwatched halike (halike.lost hslot hrestarts) hmoves _
      | false =>
          have hshown : runFile file = clearForBuild >>= fun _ => clearDiagnostics >>= follow := by
            simp only [runFile, hloader, Bool.not_false, if_true]
            rfl
          obtain ⟨after, halike, hslot, hmoves⟩ := clearViews_moves follow relay
          rw [← hshown] at hmoves
          exact comesToStart_unwatched halike (halike.lost hslot hrestarts) hmoves _
  | loadAll file =>
      obtain ⟨after, halike, hslot, hmoves⟩ :=
        clearDiagnostics_moves (fun _ => ensureRunning >>= fun _ => send (.loadAll file)) relay
      exact comesToStart_unwatched halike (halike.lost hslot hrestarts) hmoves _
  | compileFolders directories =>
      exact comesToStart_unwatched (.refl relay) hrestarts (.refl _ relay) _
  | stop | endSession | clean | cleanTemplates | quitDebug | startLog | stopLog | runIfStarted =>
      cases hrestarts

/-- A demand that restarts the compiler comes to wait for a line, and every older session is read as before. -/
theorem restart_awaits
    {before : Relay} {demand : Demand}
    (hrestarts : before.Restarts demand) (hcan : before.CanWatch demand) :
    ∃ middle, before.Runs [demand] middle ∧ before.Awaits middle := by
  obtain ⟨freed, rest, halike, hstopped, hcomes, hwatch⟩ := restarts_comesToStart hrestarts
  have hcanFreed := halike.canWatch hcan
  have hruns {left : Task Relay Unit} {middle : Relay}
      (hmoves : Task.Moves Around (start.run.bind rest) freed left middle) :
      before.Runs [demand] middle :=
    ⟨_, (hcomes.trans hmoves).bind _⟩
  cases hpattern : freed.config.readyPattern with
  | some text =>
      have hcompiles : ∃ pattern, freed.host.compile text = .ok pattern := by
        simpa [CanWatch, hpattern] using hcanFreed
      obtain ⟨pattern, hcompile⟩ := hcompiles
      -- The line is watched for before anything is spawned, so the run stops inside the start.
      obtain ⟨left, hmoves⟩ := start_moves hstopped hpattern hcompile
      refine ⟨_, hruns (hmoves.bind rest), ?_⟩
      exact awaits_install { freed with slot := .starting } halike.lastId_eq
        (by simp [halike.sessions_eq]) pattern.occursIn none
  | none =>
      have hspawns : demand.watches = true ∧ ∃ number, freed.spawn.1 = .ok number := by
        simpa [CanWatch, hpattern] using hcanFreed
      obtain ⟨hwatches, number, hspawn⟩ := hspawns
      let ready : Relay :=
        { freed with
          sessions := freed.sessions ++ [{}]
          slot := .running freed.sessions.length }
      -- Once the new session has the slot, the watch of the demand itself is installed.
      have hstarted : Task.Moves Around start.run freed (.done (.ok ())) ready :=
        Task.moves_of_alone? (start_alone hstopped hpattern hspawn)
      obtain ⟨left, success, failure, hinstalled⟩ := hwatch hwatches ready
      refine ⟨_, hruns ((hstarted.bind rest).trans hinstalled), ?_⟩
      exact awaits_install ready halike.lastId_eq (by simp [ready, halike.sessions_eq]) success failure

end Relay
end CompilerRelay
