import CompilerRelay.Proofs.ChannelRun
import CompilerRelay.Proofs.TaskSteps
import CompilerRelay.Relay.Editing

/-!
# How the relay evolves

What no step changes, whoever takes it.

**Invariant.**  `Relay.Evolves` relates the relay to what it becomes: the configuration stays, the channel goes
through a run of its own, sessions are only added, and the output of a session that is no longer read is not read
again.

**Results.**
* `Relay.Evolves.happens`: whatever happens keeps the invariant.
* `Relay.start_within` and its like: so does every step of the operations that the demands are made of.
-/

namespace CompilerRelay
namespace Relay

/-- Whether the output of the session with a number is read. -/
def reads (relay : Relay) (number : Nat) : Bool :=
  (relay.session? number).any (·.reader)

/-- What a relay becomes. -/
structure Evolves (before after : Relay) : Prop where
  config_eq : after.config = before.config
  host_eq : after.host = before.host
  output : ∃ acts,
    Channel.performAll (before.channel, before.files) acts = (after.channel, after.files)
  sessions_le : before.sessions.length ≤ after.sessions.length
  unread : ∀ number, number < before.sessions.length →
    before.reads number = false → after.reads number = false

namespace Evolves

variable {before between after relay : Relay}

theorem refl (relay : Relay) : relay.Evolves relay where
  config_eq := rfl
  host_eq := rfl
  output := ⟨[], rfl⟩
  sessions_le := Nat.le_refl _
  unread := fun _ _ h => h

theorem trans
    (hfirst : before.Evolves between) (hsecond : between.Evolves after) :
    before.Evolves after where
  config_eq := hsecond.config_eq.trans hfirst.config_eq
  host_eq := hsecond.host_eq.trans hfirst.host_eq
  output := by
    obtain ⟨first, hfirst⟩ := hfirst.output
    obtain ⟨second, hsecond⟩ := hsecond.output
    exact ⟨first ++ second, by rw [Channel.performAll_append, hfirst, hsecond]⟩
  sessions_le := hfirst.sessions_le.trans hsecond.sessions_le
  unread := fun number hnumber hunread =>
    hsecond.unread number (hnumber.trans_le hfirst.sessions_le)
      (hfirst.unread number hnumber hunread)

/-- Neither the slot nor the clock counts. -/
theorem of_slot (relay : Relay) (slot : Slot) (clock : Nat) :
    relay.Evolves { relay with slot, clock } where
  config_eq := rfl
  host_eq := rfl
  output := ⟨[], rfl⟩
  sessions_le := Nat.le_refl _
  unread := fun _ _ h => h

/-- A run of the channel. -/
theorem of_output
    {channel : Channel} {files : FileTree} (acts : List ChannelAct)
    (h : Channel.performAll (relay.channel, relay.files) acts = (channel, files)) :
    relay.Evolves { relay with channel, files } where
  config_eq := rfl
  host_eq := rfl
  output := ⟨acts, h⟩
  sessions_le := Nat.le_refl _
  unread := fun _ _ h => h

theorem changeOutput
    {change : Channel → FileTree → Channel × FileTree} (acts : List ChannelAct)
    (h : Channel.performAll (relay.channel, relay.files) acts = change relay.channel relay.files) :
    relay.Evolves (relay.changeOutput change) :=
  of_output acts h

theorem changeChannel
    {change : Channel → Channel} (act : ChannelAct)
    (h : Channel.perform (relay.channel, relay.files) act = (change relay.channel, relay.files)) :
    relay.Evolves (relay.changeChannel change) :=
  of_output [act] h

/-- Sessions may change as long as no output is read again. -/
theorem of_sessions
    {sessions : List Session}
    (hlength : relay.sessions.length ≤ sessions.length)
    (hreader : ∀ (number : Nat) (session other : Session),
      relay.sessions[number]? = some session → sessions[number]? = some other →
      other.reader = true → session.reader = true) :
    relay.Evolves { relay with sessions } where
  config_eq := rfl
  host_eq := rfl
  output := ⟨[], rfl⟩
  sessions_le := hlength
  unread := by
    intro number hnumber hunread
    have hthere : number < sessions.length := hnumber.trans_le hlength
    have hread := hreader number relay.sessions[number] sessions[number]
      (List.getElem?_eq_getElem hnumber) (List.getElem?_eq_getElem hthere)
    simp only [reads, session?, List.getElem?_eq_getElem hnumber, Option.any_some] at hunread
    simp only [reads, session?, List.getElem?_eq_getElem hthere, Option.any_some]
    by_contra hagain
    rw [hread (by simpa using hagain)] at hunread
    cases hunread

theorem changeSession
    (relay : Relay) (number : Nat) {change : Session → Session}
    (hchange : ∀ session, (change session).reader = true → session.reader = true) :
    relay.Evolves (relay.changeSession number change) := by
  refine of_sessions (by simp) ?_
  intro other session changed hsession hchanged hreader
  rw [List.getElem?_modify, hsession] at hchanged
  obtain rfl := Option.some.inj hchanged
  by_cases hother : number = other
  · exact hchange session (by simpa [hother] using hreader)
  · simpa [hother] using hreader

/-! ## What the surroundings do -/

theorem report (relay : Relay) (chunk : Bytes) : relay.Evolves (relay.report chunk) := by
  simp only [Relay.report]
  split
  · exact refl relay
  · exact changeOutput [.notify errorNotification, .write (errorLine _)] rfl

theorem endOutput (relay : Relay) (number : Nat) (reason : StopReason) :
    relay.Evolves (relay.endOutput number reason) := by
  have hfinished : relay.Evolves (relay.changeOutput Channel.finish) := changeOutput [.finish] rfl
  have htold : (relay.changeOutput Channel.finish).Evolves
      ((relay.changeOutput Channel.finish).changeChannel (·.emit (.sessionStopped reason))) :=
    changeChannel (.sessionStopped reason) rfl
  exact (hfinished.trans htold).trans (changeSession _ number fun _ h => by cases h)

/-- Whatever happens keeps the invariant. -/
theorem happens (relay : Relay) (happening : Happening) : relay.Evolves (relay.after happening) := by
  cases happening with
  | output number chunk =>
      change relay.Evolves (relay.changeOutput fun channel files => channel.writeBytes files chunk)
      exact changeOutput [.writeBytes chunk] rfl
  | outputEnd number reason => exact endOutput relay number reason
  | report number chunk => exact report relay chunk
  | reportEnd number => exact changeSession relay number fun _ h => h
  | exit number => exact changeSession relay number fun _ h => h
  | written number =>
      refine changeSession relay number fun session h => ?_
      unfold Session.write at h
      split at h <;> exact h
  | writeFailed number => exact changeSession relay number fun _ h => h
  | time milliseconds => exact of_slot relay relay.slot (relay.clock + milliseconds)
  | files files => exact of_output [.files files] rfl

/-! ## What the steps of demands do -/

theorem spawn (relay : Relay) : relay.Evolves relay.spawn.2 := by
  unfold Relay.spawn
  split
  · exact refl relay
  · split
    · exact refl relay
    · refine of_sessions (by simp) ?_
      intro number session other hsession hother hreader
      have hnumber : number < relay.sessions.length := by
        by_contra hlarge
        rw [List.getElem?_eq_none (by omega)] at hsession
        cases hsession
      rw [List.getElem?_append_left hnumber, hsession] at hother
      rw [Option.some.inj hother]
      exact hreader

theorem killSession (relay : Relay) (number : Nat) : relay.Evolves (relay.killSession number) :=
  changeSession relay number fun _ h => by cases h

theorem deliver (text : String) (relay : Relay) : relay.Evolves (Relay.deliver text relay).2 := by
  unfold Relay.deliver
  split
  · split
    · exact changeSession relay _ fun _ h => h
    · exact refl relay
  · exact refl relay
  · exact refl relay

theorem locate (line : String) (relay : Relay) : relay.Evolves (Relay.locate line relay).2 := by
  unfold Relay.locate
  split
  · next location _ =>
      refine of_output [.locate location] ?_
      rfl
  · exact refl relay
  · exact refl relay

theorem beginLog (relay : Relay) : relay.Evolves relay.beginLog.2 := by
  unfold Relay.beginLog
  have hwritten : Channel.performAll (relay.channel, relay.files)
      [.write (logLine relay.channel.log.path), .enableLog (relay.host.stamp relay.clock)] =
        (Channel.enableLog _ _ _).2 := rfl
  simp only
  split
  · next hlog => exact of_output _ (hwritten.trans (congrArg Prod.snd hlog))
  · next hlog => exact of_output _ (hwritten.trans (congrArg Prod.snd hlog))

theorem reportClean (relay : Relay) (header output footer : String) :
    relay.Evolves (relay.changeOutput fun channel files =>
      let (headed, files) := channel.write files ("[INFO " ++ header ++ ":]\n" ++ rule ++ "\n")
      let (filled, files) := headed.writeBlock files output
      filled.write files (rule ++ "\n[INFO " ++ footer ++ "]\n")) :=
  changeOutput [.write _, .writeBlock output, .write _] rfl

theorem dropStart (relay : Relay) : relay.Evolves relay.dropStart := by
  unfold Relay.dropStart
  split
  · refine of_sessions (by simp) ?_
    intro number session other hsession hother hreader
    rw [List.getElem?_mapIdx, hsession, Option.map_some] at hother
    obtain rfl := Option.some.inj hother
    split at hreader <;> exact hreader
  all_goals
    refine of_sessions (by simp) ?_
    intro number session other hsession hother hreader
    rw [List.getElem?_map, hsession, Option.map_some] at hother
    obtain rfl := Option.some.inj hother
    exact hreader

end Evolves

/-! ## Steps that start and end sessions -/

end Relay

/-- Whether an act neither writes to the channel nor changes files. -/
def ChannelAct.isMute : ChannelAct → Bool
  | .clear | .clearDiagnostics | .install _ _ | .clearWatch _ | .abandon | .forgetTemplates | .locate _ => true
  | .writeBytes _ | .write _ | .writeBlock _ | .line _ | .finish | .enableLog _ | .disableLog | .notify _
  | .sessionStopped _ | .files _ => false

namespace Relay

/-- What is kept by all that starting and ending a session is made of. -/
structure Keeps (relation : Relay → Relay → Prop) : Prop where
  refl : ∀ relay : Relay, relation relay relay
  slot : ∀ (relay : Relay) (slot : Slot), relation relay { relay with slot }
  act : ∀ (relay : Relay) (act : ChannelAct), act.isMute = true →
    relation relay { relay with channel := (Channel.perform (relay.channel, relay.files) act).1 }
  spawn : ∀ relay : Relay, relation relay relay.spawn.2
  killSession : ∀ (relay : Relay) (number : Nat), relation relay (relay.killSession number)

theorem attempt_within
    {relation : Relay → Relay → Prop} {α ε : Type}
    (fault : ε → Failure) (result : Except ε α) :
    (attempt fault result).run.Within relation := by
  cases result <;> trivial

namespace Keeps

variable {relation : Relay → Relay → Prop} {α : Type}

theorem look_within (h : Keeps relation) (view : Relay → α) : (look view).run.Within relation :=
  Task.within_lift (Task.within_look h.refl view)

theorem setSlot_within (h : Keeps relation) (slot : Slot) : (setSlot slot).run.Within relation :=
  Task.within_lift (Task.within_update fun relay => h.slot relay slot)

theorem install_within (h : Keeps relation) (success : Pattern) (failure : Option Pattern) :
    (install success failure).run.Within relation :=
  Task.within_lift (Task.within_act fun relay =>
    h.act relay (.install success.occursIn (failure.map Pattern.occursIn)) rfl)

theorem clearWatch_within (h : Keeps relation) (id : Nat) : (clearWatch id).run.Within relation :=
  Task.within_lift (Task.within_update fun relay => h.act relay (.clearWatch id) rfl)

theorem awaitWatch_within (h : Keeps relation) (watch : PendingWatch) : (awaitWatch watch).Within relation := by
  unfold awaitWatch
  refine Task.Within.bind (Task.within_look h.refl _) fun start => ?_
  refine Task.Within.bind (Task.within_await h.refl _) fun settled => ?_
  cases settled with
  | some settlement => exact Task.within_done _
  | none =>
      refine Task.Within.bind (Task.within_update fun relay => ?_) fun _ => Task.within_done _
      exact h.act relay (.clearWatch watch.id) rfl

theorem clearForBuild_within (h : Keeps relation) : clearForBuild.run.Within relation := by
  refine Task.within_bind (h.look_within _) fun wanted => ?_
  split
  · exact Task.within_lift (Task.within_update fun relay => h.act relay .clear rfl)
  · exact Task.within_pure _

theorem spawnWatched_within (h : Keeps relation) (ready : Option Nat) :
    (spawnWatched ready).run.Within relation := by
  refine Task.within_bind (Task.within_lift (Task.within_act h.spawn)) fun result => ?_
  cases result with
  | ok session => exact Task.within_pure session
  | error cause =>
      refine Task.within_bind (Task.within_forM h.clearWatch_within) fun _ => ?_
      exact Task.within_bind (h.setSlot_within .stopped) fun _ => Task.within_throw _

theorem awaitReady_within (h : Keeps relation) (session id : Nat) :
    (awaitReady session id).run.Within relation := by
  refine Task.within_bind (h.look_within _) fun limit => ?_
  refine Task.within_bind (Task.within_lift (h.awaitWatch_within ⟨id, limit⟩)) fun result => ?_
  cases result with
  | ok line => exact Task.within_pure _
  | error cause =>
      refine Task.within_bind (Task.within_lift (Task.within_update fun relay => ?_)) fun _ => ?_
      · exact h.killSession relay session
      · exact Task.within_bind (h.setSlot_within .stopped) fun _ => Task.within_throw _

theorem start_within (h : Keeps relation) : start.run.Within relation := by
  refine Task.within_bind (h.look_within _) fun running => ?_
  split
  · exact Task.within_pure _
  · refine Task.within_bind (h.look_within _) fun compiled => ?_
    refine Task.within_bind (attempt_within .invalidPattern _) fun pattern => ?_
    refine Task.within_bind (h.setSlot_within .starting) fun _ => ?_
    refine Task.within_bind (Task.within_mapM fun pattern => h.install_within pattern none) fun ready => ?_
    refine Task.within_bind (h.spawnWatched_within ready) fun session => ?_
    refine Task.within_bind (Task.within_forM (h.awaitReady_within session)) fun _ => ?_
    exact h.setSlot_within (.running session)

theorem endSession_within (h : Keeps relation) : endSession.run.Within relation := by
  refine Task.within_bind (Task.within_lift (Task.within_act fun relay => h.slot relay .stopped)) fun slot => ?_
  refine Task.within_bind (Task.within_lift (Task.within_update fun relay => h.act relay .abandon rfl)) fun _ => ?_
  cases slot with
  | running session => exact Task.within_lift (Task.within_update fun relay => h.killSession relay session)
  | stopped | starting => exact Task.within_pure _

theorem reset_within (h : Keeps relation) : reset.run.Within relation :=
  Task.within_bind h.endSession_within fun _ =>
    Task.within_bind h.clearForBuild_within fun _ => h.start_within

end Keeps

theorem Evolves.keeps : Keeps Evolves where
  refl := Evolves.refl
  slot := fun relay slot => Evolves.of_slot relay slot relay.clock
  act := fun relay act hmute => by
    refine Evolves.of_output [act] (Prod.ext rfl ?_)
    cases act with
    | clear | clearDiagnostics | install | clearWatch | abandon | forgetTemplates | locate => rfl
    | writeBytes | write | writeBlock | line | finish | enableLog | disableLog | notify | sessionStopped
    | files => cases hmute
  spawn := Evolves.spawn
  killSession := Evolves.killSession

/-! ## Steps of demands -/

section Steps

variable {α ε : Type}

theorem look_within (view : Relay → α) : (look view).run.Within Evolves :=
  Evolves.keeps.look_within view

theorem change_within
    {change : Relay → Relay}
    (h : ∀ relay : Relay, relay.Evolves (change relay)) :
    (Relay.change change).run.Within Evolves :=
  Task.within_lift (Task.within_update h)

theorem act_within
    {change : Relay → Except Failure α × Relay}
    (h : ∀ relay : Relay, relay.Evolves (change relay).2) :
    (act change).run.Within Evolves :=
  Task.within_act h

theorem take_within
    {change : Relay → α × Relay}
    (h : ∀ relay : Relay, relay.Evolves (change relay).2) :
    (ExceptT.lift (Task.act change) : Operation α).run.Within Evolves :=
  Task.within_lift (Task.within_act h)

/-- An act on the channel alone. -/
theorem onChannel_within
    {change : Channel → Channel} (act : ChannelAct)
    (h : ∀ channel files, Channel.perform (channel, files) act = (change channel, files)) :
    (onChannel change).run.Within Evolves :=
  change_within fun relay => Evolves.changeChannel act (h relay.channel relay.files)

theorem say_within (text : String) : (say text).run.Within Evolves :=
  change_within fun _ => Evolves.changeOutput [.write text] rfl

theorem clearWatch_within (id : Nat) : (clearWatch id).run.Within Evolves :=
  Evolves.keeps.clearWatch_within id

theorem awaitWatch_within (watch : PendingWatch) : (awaitWatch watch).Within Evolves :=
  Evolves.keeps.awaitWatch_within watch

theorem wait_within (watch : PendingWatch) : watch.wait.run.Within Evolves :=
  Task.within_bind (Task.within_lift (awaitWatch_within watch)) fun result =>
    attempt_within .watch result

theorem waitLocation_within (watch : PendingWatch) : watch.waitLocation.run.Within Evolves :=
  Task.within_bind (wait_within watch) fun line => act_within (Evolves.locate line)

theorem clearForBuild_within : clearForBuild.run.Within Evolves :=
  Evolves.keeps.clearForBuild_within

theorem clearDiagnostics_within : clearDiagnostics.run.Within Evolves :=
  onChannel_within .clearDiagnostics fun _ _ => rfl

theorem forgetTemplates_within : (onChannel Channel.forgetTemplates).run.Within Evolves :=
  onChannel_within .forgetTemplates fun _ _ => rfl

theorem start_within : start.run.Within Evolves :=
  Evolves.keeps.start_within

theorem endSession_within : endSession.run.Within Evolves :=
  Evolves.keeps.endSession_within

theorem ensureRunning_within : ensureRunning.run.Within Evolves := by
  refine Task.within_bind (change_within fun relay => ?_) fun _ => ?_
  · split
    · exact Evolves.of_slot relay .stopped relay.clock
    · exact Evolves.refl relay
  · refine Task.within_bind (look_within _) fun running => ?_
    split
    · exact start_within
    · exact Task.within_pure _

theorem send_within (command : Command) : (send command).run.Within Evolves :=
  act_within (Evolves.deliver command.render)

theorem sendWatched_within (command : Command) (watch : PendingWatch) :
    (sendWatched command watch).run.Within Evolves :=
  Task.within_tryCatch (send_within command) fun _ =>
    Task.within_bind (clearWatch_within watch.id) fun _ => Task.within_throw _

theorem cleanAndReport_within (header footer : String) :
    (cleanAndReport header footer).run.Within Evolves := by
  refine Task.within_bind (take_within fun _ => Evolves.of_output [.files _] rfl) fun result => ?_
  refine Task.within_bind endSession_within fun _ => ?_
  refine Task.within_bind (attempt_within .clean result) fun written => ?_
  exact change_within fun relay => Evolves.reportClean relay header written.text footer

theorem onTemplates_within (work : Path → FileTree → Except TemplateFault α × FileTree) :
    (onTemplates work).run.Within Evolves :=
  Task.within_bind (take_within fun _ => Evolves.of_output [.files _] rfl) fun result =>
    attempt_within .preprocess result

theorem watchFor_within (success : Pattern) (failure : Option Pattern) :
    (watchFor success failure).run.Within Evolves :=
  Task.within_bind (Evolves.keeps.install_within success failure) fun _ =>
    Task.within_bind (look_within _) fun _ => Task.within_pure _

theorem preprocess_within (file : Path) : (preprocess file).run.Within Evolves := by
  refine Task.within_bind (onTemplates_within _) fun target => ?_
  split
  · exact Task.within_bind forgetTemplates_within fun _ => Task.within_pure _
  · exact Task.within_pure _

theorem runCommand_within (command : Command) : (runCommand command).run.Within Evolves :=
  Task.within_bind clearForBuild_within fun _ =>
    Task.within_bind clearDiagnostics_within fun _ =>
      Task.within_bind ensureRunning_within fun _ => send_within command

theorem compile_within (code success : String) (failure : Option String) :
    (compile code success failure).run.Within Evolves :=
  Task.within_bind (look_within _) fun _ => attempt_within .invalidPattern _

/-- What is left of a statement when the view is cleared. -/
def submitCleared (statement : Statement) : Operation (Option PendingWatch) := do
  ensureRunning
  let watch ← watchFor statement.success statement.failure
  sendWatched (.raw statement.code) watch
  return some watch

theorem submitCleared_within (statement : Statement) :
    (submitCleared statement).run.Within Evolves :=
  Task.within_bind ensureRunning_within fun _ =>
    Task.within_bind (watchFor_within _ _) fun watch =>
      Task.within_bind (sendWatched_within _ watch) fun _ => Task.within_pure _

theorem submit_within (statement : Statement) : (submit statement).run.Within Evolves := by
  refine Task.within_bind (look_within _) fun running => ?_
  split
  · exact Task.within_pure _
  · split
    · exact Task.within_bind clearForBuild_within fun _ => submitCleared_within statement
    · exact submitCleared_within statement

theorem submitGoto_within (file : Path) (offset : Nat) :
    (submitGoto file offset).run.Within Evolves :=
  Task.within_bind ensureRunning_within fun _ =>
    Task.within_bind (attempt_within .invalidPattern _) fun pattern =>
      Task.within_bind (watchFor_within pattern none) fun watch =>
        Task.within_bind (sendWatched_within _ watch) fun _ => Task.within_pure _

end Steps
end Relay
end CompilerRelay
