import CompilerRelay.Proofs.RelayRun

/-!
# What becomes of sessions

What the surroundings can do to the sessions of the relay, and what steps leave them alone.

**Invariant.**  `Relay.Ages`: sessions are only added, a process that ended stays as it ended, and a writer that ended
takes nothing any more.

**Results.**
* `Relay.Around.passes`: the surroundings let sessions age, and change neither the slot nor the number of sessions;
  they install no watch.
* `Relay.Aside`: an operation that touches nothing but the channel and the files, and does not fail for want of a
  session.  There is one lemma for each such operation and for each way to build one.
-/

namespace CompilerRelay

/-! ## Watches that are not renewed -/

namespace WatchSlot

/-- What becomes of a slot. -/
def Becomes (before after : WatchSlot) : Prop :=
  ∃ requests, after = before.performAll requests

theorem Becomes.lastId_le
    {before after : WatchSlot} (h : before.Becomes after) :
    before.lastId ≤ after.lastId := by
  obtain ⟨requests, rfl⟩ := h
  rw [lastId_performAll]
  exact Nat.le_add_right _ _

/-- What becomes of a slot as long as nothing is installed. -/
def Dwindles (before after : WatchSlot) : Prop :=
  ∃ requests, requests.countP WatchRequest.isInstall = 0 ∧ after = before.performAll requests

theorem Dwindles.refl (slot : WatchSlot) : slot.Dwindles slot := ⟨[], rfl, rfl⟩

theorem Dwindles.trans
    {first second third : WatchSlot}
    (hfirst : first.Dwindles second) (hsecond : second.Dwindles third) :
    first.Dwindles third := by
  obtain ⟨one, hone, rfl⟩ := hfirst
  obtain ⟨two, htwo, rfl⟩ := hsecond
  exact ⟨one ++ two, by rw [List.countP_append, hone, htwo], (performAll_append first one two).symm⟩

theorem performAll_of_empty
    {slot : WatchSlot} (hempty : slot.active = none)
    {requests : List WatchRequest} (hnone : requests.countP WatchRequest.isInstall = 0) :
    slot.performAll requests = slot := by
  induction requests with
  | nil => rfl
  | cons request rest ih =>
      have hsame : (slot.perform request).2 = slot := by
        cases request with
        | install success failure => simp [WatchRequest.isInstall] at hnone
        | offer line => simp [perform, offer_of_empty line hempty]
        | clearIf id => simp [perform, clearIf, hempty]
        | abandon => simp [perform, abandon, settle, hempty]
      rw [performAll_cons, hsame]
      exact ih (by simpa using List.countP_eq_zero.mpr fun other hmem =>
        List.countP_eq_zero.mp hnone other (List.mem_cons_of_mem _ hmem))

theorem Dwindles.active_eq_none
    {before after : WatchSlot} (h : before.Dwindles after) (hempty : before.active = none) :
    after.active = none := by
  obtain ⟨requests, hnone, rfl⟩ := h
  rw [performAll_of_empty hempty hnone, hempty]

end WatchSlot

theorem Channel.perform_dwindles
    (state : Channel × FileTree) (act : ChannelAct) (hact : act.isInstall = false) :
    state.1.watch.Dwindles (Channel.perform state act).1.watch := by
  obtain ⟨requests, hwatch, hcount⟩ := Channel.perform_watch state act
  exact ⟨requests, by simpa [hact] using hcount, hwatch⟩

/-! ## Sessions -/

/-- What a session may become. -/
structure Session.Ages (before after : Session) : Prop where
  life : after.life = before.life ∨ before.life = .alive
  writer : after.writer = true → before.writer = true

theorem Session.Ages.refl (session : Session) : session.Ages session := ⟨.inl rfl, id⟩

theorem Session.Ages.trans
    {first second third : Session}
    (hfirst : first.Ages second) (hsecond : second.Ages third) :
    first.Ages third where
  life := by
    rcases hsecond.life with hsame | halive
    · rw [hsame]
      exact hfirst.life
    · rcases hfirst.life with hsame | halive'
      · exact .inr (hsame ▸ halive)
      · exact .inr halive'
  writer := hfirst.writer ∘ hsecond.writer

namespace Relay

theorem Evolves.becomes
    {before after : Relay} (h : before.Evolves after) :
    before.channel.watch.Becomes after.channel.watch := by
  obtain ⟨acts, hacts⟩ := h.output
  obtain ⟨requests, hwatch⟩ := Channel.performAll_watch (before.channel, before.files) acts
  rw [hacts] at hwatch
  exact ⟨requests, hwatch⟩

/-- Whether the process with a number lives. -/
def lives (relay : Relay) (number : Nat) : Bool :=
  (relay.session? number).any (·.life == .alive)

/-- Whether the process with a number has exited by itself. -/
def exited (relay : Relay) (number : Nat) : Bool :=
  (relay.session? number).any (·.life == .exited)

/-- Whether statements are still taken for the process with a number. -/
def takes (relay : Relay) (number : Nat) : Bool :=
  (relay.session? number).any (·.writer)

theorem hasExited_of_slot
    {relay : Relay} {number : Nat} (hslot : relay.slot = .running number) :
    relay.hasExited = relay.exited number := by
  simp only [hasExited, hslot, exited]

theorem exists_of_hasExited
    {relay : Relay} (h : relay.hasExited = true) :
    ∃ number, relay.slot = .running number ∧ relay.exited number = true := by
  cases hslot : relay.slot with
  | running number => exact ⟨number, rfl, hasExited_of_slot hslot ▸ h⟩
  | stopped | starting => simp [hasExited, hslot] at h

theorem exists_of_isRunning
    {relay : Relay} (h : relay.isRunning = true) :
    ∃ number, relay.slot = .running number := by
  cases hslot : relay.slot with
  | running number => exact ⟨number, rfl⟩
  | stopped | starting => simp [isRunning, hslot, Slot.state] at h

theorem isRunning_of_hasExited
    {relay : Relay} (h : relay.hasExited = true) :
    relay.isRunning = true := by
  obtain ⟨number, hslot, -⟩ := exists_of_hasExited h
  rw [isRunning, hslot]
  rfl

theorem not_lives_of_exited
    {relay : Relay} {number : Nat} (h : relay.exited number = true) :
    relay.lives number = false := by
  obtain ⟨session, hsession, hlife⟩ := (Option.any_eq_true _ _).mp h
  have hexited : session.life = .exited := by simpa using hlife
  simp [lives, hsession, hexited]

theorem lt_of_lives
    {relay : Relay} {number : Nat} (h : relay.lives number = true) :
    number < relay.sessions.length := by
  obtain ⟨session, hsession, -⟩ := (Option.any_eq_true _ _).mp h
  exact (List.getElem?_eq_some_iff.mp hsession).1

/-- Sessions are only added, and those that were there grow old. -/
structure Ages (before after : Relay) : Prop where
  config_eq : after.config = before.config
  host_eq : after.host = before.host
  sessions_le : before.sessions.length ≤ after.sessions.length
  session : ∀ number session, before.session? number = some session →
    ∃ later, after.session? number = some later ∧ session.Ages later

namespace Ages

variable {before between after relay : Relay}

theorem of_sessions_eq
    (hconfig : after.config = before.config) (hhost : after.host = before.host)
    (hsessions : after.sessions = before.sessions) :
    before.Ages after where
  config_eq := hconfig
  host_eq := hhost
  sessions_le := (congrArg List.length hsessions).ge
  session := fun number session hsession =>
    ⟨session, by rwa [session?, hsessions], .refl session⟩

theorem refl (relay : Relay) : relay.Ages relay := of_sessions_eq rfl rfl rfl

theorem trans
    (hfirst : before.Ages between) (hsecond : between.Ages after) :
    before.Ages after where
  config_eq := hsecond.config_eq.trans hfirst.config_eq
  host_eq := hsecond.host_eq.trans hfirst.host_eq
  sessions_le := hfirst.sessions_le.trans hsecond.sessions_le
  session := by
    intro number session hsession
    obtain ⟨later, hlater, hages⟩ := hfirst.session number session hsession
    obtain ⟨last, hlast, hages'⟩ := hsecond.session number later hlater
    exact ⟨last, hlast, hages.trans hages'⟩

theorem changeSession
    (relay : Relay) (number : Nat) {change : Session → Session}
    (hchange : ∀ session : Session, session.Ages (change session)) :
    relay.Ages (relay.changeSession number change) where
  config_eq := rfl
  host_eq := rfl
  sessions_le := (List.length_modify change relay.sessions number).ge
  session := by
    intro other session hsession
    by_cases hother : number = other
    · subst hother
      exact ⟨change session, by rw [session?_changeSession_self, hsession]; rfl, hchange session⟩
    · exact ⟨session, by rwa [session?_changeSession_of_ne relay change hother], .refl session⟩

theorem spawn (relay : Relay) : relay.Ages relay.spawn.2 := by
  unfold Relay.spawn
  split
  · exact refl relay
  · split
    · exact refl relay
    · refine ⟨rfl, rfl, by simp, fun number session hsession => ⟨session, ?_, .refl session⟩⟩
      have hnumber : number < relay.sessions.length := (List.getElem?_eq_some_iff.mp hsession).1
      rw [session?, List.getElem?_append_left hnumber]
      exact hsession

theorem killSession (relay : Relay) (number : Nat) : relay.Ages (relay.killSession number) := by
  refine changeSession relay number fun session => ⟨?_, fun h => by cases h⟩
  by_cases halive : session.life = .alive <;> simp [halive]

theorem keeps : Keeps Ages where
  refl := refl
  slot := fun _ _ => of_sessions_eq rfl rfl rfl
  act := fun _ _ _ => of_sessions_eq rfl rfl rfl
  spawn := spawn
  killSession := killSession

theorem exited_of
    (h : before.Ages after) {number : Nat} (hexited : before.exited number = true) :
    after.exited number = true := by
  obtain ⟨session, hsession, hlife⟩ := (Option.any_eq_true _ _).mp hexited
  obtain ⟨later, hlater, hages⟩ := h.session number session hsession
  have hend : session.life = .exited := by simpa using hlife
  rcases hages.life with hsame | halive
  · simp [exited, hlater, hsame, hend]
  · rw [halive] at hend
    cases hend

theorem lives_of
    (h : before.Ages after) {number : Nat} (hnumber : number < before.sessions.length)
    (hlives : after.lives number = true) :
    before.lives number = true := by
  have hsession : before.session? number = some before.sessions[number] := List.getElem?_eq_getElem hnumber
  obtain ⟨later, hlater, hages⟩ := h.session number _ hsession
  have halive : later.life = .alive := by simpa [lives, hlater] using hlives
  rcases hages.life with hsame | hbefore
  · simp [lives, hsession, ← hsame, halive]
  · simp [lives, hsession, hbefore]

theorem takes_of
    (h : before.Ages after) {number : Nat} (hnumber : number < before.sessions.length)
    (htakes : after.takes number = true) :
    before.takes number = true := by
  have hsession : before.session? number = some before.sessions[number] := List.getElem?_eq_getElem hnumber
  obtain ⟨later, hlater, hages⟩ := h.session number _ hsession
  have hwriter : later.writer = true := by simpa [takes, hlater] using htakes
  simp [takes, hsession, hages.writer hwriter]

end Ages

/-! ## A demand that is dropped -/

theorem dropStart_slot (relay : Relay) : relay.dropStart.slot = relay.slot := by
  unfold dropStart
  split <;> rfl

theorem dropStart_config (relay : Relay) : relay.dropStart.config = relay.config := by
  unfold dropStart
  split <;> rfl

theorem dropStart_host (relay : Relay) : relay.dropStart.host = relay.host := by
  unfold dropStart
  split <;> rfl

theorem length_dropStart (relay : Relay) : relay.dropStart.sessions.length = relay.sessions.length := by
  unfold dropStart
  split
  · exact List.length_mapIdx
  all_goals exact List.length_map _

theorem drop_life (session : Session) : (Session.drop session).life ≠ .alive := by
  by_cases halive : session.life = .alive <;> simp [Session.drop, halive]

/-- Only the process of the slot outlives a demand that is dropped. -/
theorem lives_dropStart
    {relay : Relay} {number : Nat} (h : relay.dropStart.lives number = true) :
    relay.slot = .running number ∧ relay.lives number = true := by
  obtain ⟨session, hsession, hlife⟩ := (Option.any_eq_true _ _).mp h
  have halive : session.life = .alive := by simpa using hlife
  have hdropped {other : Session} (hother : Session.drop other = session) : False :=
    drop_life other (hother ▸ halive)
  unfold dropStart session? at hsession
  cases hslot : relay.slot with
  | running holder =>
      simp only [hslot, List.getElem?_mapIdx, Option.map_eq_some_iff] at hsession
      obtain ⟨known, hknown, hsame⟩ := hsession
      by_cases hholder : number = holder
      · rw [if_pos hholder] at hsame
        subst hholder hsame
        exact ⟨rfl, by simp [lives, session?, hknown, halive]⟩
      · rw [if_neg hholder] at hsame
        exact (hdropped hsame).elim
  | stopped | starting =>
      simp only [hslot, List.getElem?_map, Option.map_eq_some_iff] at hsession
      obtain ⟨known, -, hsame⟩ := hsession
      exact (hdropped hsame).elim

/-! ## The surroundings -/

/-- What may come about without a step of an operation. -/
structure Passes (before after : Relay) : Prop where
  ages : before.Ages after
  slot_eq : after.slot = before.slot
  length_eq : after.sessions.length = before.sessions.length
  watch : before.channel.watch.Dwindles after.channel.watch

namespace Passes

variable {before after : Relay}

/-- Sessions age, and the channel stays as it is. -/
theorem changeSession
    (relay : Relay) (number : Nat) {change : Session → Session}
    (hchange : ∀ session : Session, session.Ages (change session)) :
    relay.Passes (relay.changeSession number change) where
  ages := .changeSession relay number hchange
  slot_eq := rfl
  length_eq := List.length_modify change relay.sessions number
  watch := .refl _

/-- The channel hears something, and the sessions stay as they are. -/
theorem of_channel
    (relay : Relay) {channel : Channel} {files : FileTree} {clock : Nat}
    (hwatch : relay.channel.watch.Dwindles channel.watch) :
    relay.Passes { relay with channel, files, clock } where
  ages := .of_sessions_eq rfl rfl rfl
  slot_eq := rfl
  length_eq := rfl
  watch := hwatch

theorem trans
    {first second third : Relay} (hfirst : first.Passes second) (hsecond : second.Passes third) :
    first.Passes third where
  ages := hfirst.ages.trans hsecond.ages
  slot_eq := hsecond.slot_eq.trans hfirst.slot_eq
  length_eq := hsecond.length_eq.trans hfirst.length_eq
  watch := hfirst.watch.trans hsecond.watch

theorem report (relay : Relay) (chunk : Bytes) : relay.Passes (relay.report chunk) := by
  simp only [Relay.report]
  split
  · exact of_channel relay (.refl _)
  · exact of_channel relay (Channel.perform_dwindles (relay.channel.emit _, relay.files) (.write _) rfl)

theorem endOutput (relay : Relay) (number : Nat) (reason : StopReason) :
    relay.Passes (relay.endOutput number reason) := by
  have hfinished : relay.Passes
      ((relay.changeOutput Channel.finish).changeChannel (·.emit (.sessionStopped reason))) :=
    of_channel relay (Channel.perform_dwindles (relay.channel, relay.files) .finish rfl)
  exact hfinished.trans (changeSession _ number fun session => ⟨.inl rfl, id⟩)

/-- Only what can happen does: a process exits only while it lives. -/
theorem happens
    {relay : Relay} {happening : Happening} (hadmits : relay.admits happening = true) :
    relay.Passes (relay.after happening) := by
  cases happening with
  | output number chunk =>
      exact of_channel relay (Channel.perform_dwindles (relay.channel, relay.files) (.writeBytes chunk) rfl)
  | outputEnd number reason => exact endOutput relay number reason
  | report number chunk => exact report relay chunk
  | reportEnd number => exact changeSession relay number fun session => ⟨.inl rfl, id⟩
  | exit number =>
      -- The session is known to live, which `changeSession` does not ask for.
      obtain ⟨session, hsession, hlife⟩ := (Option.any_eq_true _ _).mp hadmits
      have halive : session.life = .alive := by simpa using hlife
      refine ⟨⟨rfl, rfl, (List.length_modify _ relay.sessions number).ge, ?_⟩, rfl,
        List.length_modify _ relay.sessions number, .refl _⟩
      intro other known hknown
      by_cases hother : number = other
      · subst hother
        obtain rfl := Option.some.inj (hsession.symm.trans hknown)
        refine ⟨{ session with life := .exited }, ?_, .inr halive, id⟩
        change (relay.changeSession number _).session? number = _
        rw [session?_changeSession_self, hsession]
        rfl
      · refine ⟨known, ?_, .refl known⟩
        change (relay.changeSession number _).session? other = _
        rwa [session?_changeSession_of_ne relay _ hother]
  | written number =>
      refine changeSession relay number fun session => ?_
      unfold Session.write
      split
      · exact .refl session
      · exact ⟨.inl rfl, id⟩
  | writeFailed number => exact changeSession relay number fun session => ⟨.inl rfl, fun h => by cases h⟩
  | time milliseconds => exact of_channel relay (.refl _)
  | files files => exact of_channel relay (.refl _)

theorem hasExited
    (h : before.Passes after) (hexited : before.hasExited = true) :
    after.hasExited = true := by
  obtain ⟨number, hslot, hgone⟩ := exists_of_hasExited hexited
  rw [hasExited_of_slot (h.slot_eq.trans hslot)]
  exact h.ages.exited_of hgone

/-- To queue a statement is no more than what happens to a session anyway. -/
theorem deliver (text : String) (relay : Relay) : relay.Passes (Relay.deliver text relay).2 := by
  have hsame : relay.Passes relay := of_channel relay (.refl _)
  unfold Relay.deliver
  split
  · split
    · exact changeSession relay _ fun session => ⟨.inl rfl, id⟩
    · exact hsame
  · exact hsame
  · exact hsame

end Passes

theorem Around.passes
    {before after : Relay} (h : before.Around after) :
    before.Passes after := by
  cases h with
  | happens hchanges =>
      obtain ⟨happening, hadmits, rfl⟩ := hchanges
      exact .happens hadmits
  | givesUp id =>
      exact .of_channel before (Channel.perform_dwindles (before.channel, before.files) (.clearWatch id) rfl)
  | takesIn line =>
      unfold locate
      split
      · exact .of_channel before (.refl _)
      · exact .of_channel before (.refl _)
      · exact .of_channel before (.refl _)

/-! ## Steps that leave sessions alone -/

/-- Nothing but the channel, the files and the clock differs. -/
structure SameSessions (before after : Relay) : Prop where
  config_eq : after.config = before.config
  host_eq : after.host = before.host
  slot_eq : after.slot = before.slot
  sessions_eq : after.sessions = before.sessions

theorem SameSessions.refl (relay : Relay) : relay.SameSessions relay := ⟨rfl, rfl, rfl, rfl⟩

theorem SameSessions.takes_eq
    {before after : Relay} (h : before.SameSessions after) (number : Nat) :
    after.takes number = before.takes number := by
  simp only [takes, session?, h.sessions_eq]

theorem SameSessions.hasExited_eq
    {before after : Relay} (h : before.SameSessions after) :
    after.hasExited = before.hasExited := by
  simp only [hasExited, session?, h.slot_eq, h.sessions_eq]

/-- An operation that touches nothing but the channel and the files, and does not fail for want of a session. -/
structure Aside {α : Type} (operation : Operation α) : Prop where
  within : operation.run.Within SameSessions
  yields : operation.run.Yields (· ≠ .error .notRunning)

section Aside

variable {α β ε : Type}

theorem Aside.pure (value : α) : Aside (pure value : Operation α) :=
  ⟨trivial, fun h => by cases h⟩

theorem Aside.bind
    {operation : Operation α} (h : Aside operation)
    {follow : α → Operation β} (hfollow : ∀ value, Aside (follow value)) :
    Aside (operation >>= follow) where
  within := Task.within_bind h.within fun value => (hfollow value).within
  yields := by
    refine Task.Yields.bind h.yields fun result hresult => ?_
    cases result with
    | ok value => exact (hfollow value).yields
    | error failure => exact fun hfailure => hresult (congrArg Except.error (Except.error.inj hfailure))

theorem Aside.lift
    {task : Task Relay α} (h : task.Within SameSessions) :
    Aside (ExceptT.lift task : Operation α) where
  within := Task.within_lift h
  yields := Task.yields_bind task fun value hvalue => by cases hvalue

theorem Aside.take
    {change : Relay → α × Relay} (h : ∀ relay : Relay, relay.SameSessions (change relay).2) :
    Aside (ExceptT.lift (Task.act change) : Operation α) :=
  .lift (Task.within_act h)

theorem Aside.change
    {change : Relay → Relay} (h : ∀ relay : Relay, relay.SameSessions (change relay)) :
    Aside (Relay.change change) :=
  .lift (Task.within_update h)

theorem Aside.look (view : Relay → α) : Aside (look view) :=
  .take SameSessions.refl

theorem Aside.attempt
    {fault : ε → Failure} (hfault : ∀ cause, fault cause ≠ .notRunning) (result : Except ε α) :
    Aside (attempt fault result) := by
  cases result with
  | ok value => exact .pure value
  | error cause => exact ⟨trivial, fun h => hfault cause (Except.error.inj h)⟩

theorem aside_onChannel (change : Channel → Channel) : Aside (onChannel change) :=
  .change fun _ => ⟨rfl, rfl, rfl, rfl⟩

theorem aside_changeOutput (change : Channel → FileTree → Channel × FileTree) :
    Aside (Relay.change (·.changeOutput change)) :=
  .change fun _ => ⟨rfl, rfl, rfl, rfl⟩

theorem aside_clearForBuild : Aside clearForBuild := by
  refine .bind (.look _) fun wanted => ?_
  cases wanted with
  | true => exact aside_onChannel _
  | false => exact .pure _

theorem aside_clearDiagnostics : Aside clearDiagnostics := aside_onChannel _

theorem aside_install (success : Pattern) (failure : Option Pattern) : Aside (install success failure) :=
  .take fun _ => ⟨rfl, rfl, rfl, rfl⟩

theorem aside_watchFor (success : Pattern) (failure : Option Pattern) : Aside (watchFor success failure) :=
  .bind (aside_install success failure) fun _ => .bind (.look _) fun _ => .pure _

theorem aside_onTemplates (work : Path → FileTree → Except TemplateFault α × FileTree) :
    Aside (onTemplates work) :=
  .bind (.take fun _ => ⟨rfl, rfl, rfl, rfl⟩) fun _ => .attempt (fun _ h => by cases h) _

theorem aside_preprocess (file : Path) : Aside (preprocess file) := by
  refine .bind (aside_onTemplates _) fun target => ?_
  cases target.same file with
  | true => exact .pure _
  | false => exact .bind (aside_onChannel _) fun _ => .pure _

theorem within_awaitWatch (watch : PendingWatch) : (awaitWatch watch).Within SameSessions := by
  refine Task.Within.bind (Task.within_look SameSessions.refl _) fun start => ?_
  refine Task.Within.bind (Task.within_await SameSessions.refl _) fun settled => ?_
  cases settled with
  | some settlement => exact Task.within_done _
  | none => exact Task.Within.bind (Task.within_update fun _ => ⟨rfl, rfl, rfl, rfl⟩) fun _ => Task.within_done _

theorem aside_wait (watch : PendingWatch) : Aside watch.wait :=
  .bind (.lift (within_awaitWatch watch)) fun _ => .attempt (fun _ h => by cases h) _

theorem aside_locate (line : String) : Aside (act (locate line)) := by
  have hlocate (relay : Relay) :
      relay.SameSessions (locate line relay).2 ∧ (locate line relay).1 ≠ .error .notRunning := by
    unfold locate
    split <;> exact ⟨⟨rfl, rfl, rfl, rfl⟩, fun h => by cases h⟩
  exact ⟨Task.within_act fun relay => (hlocate relay).1, fun relay _ => (hlocate relay).2⟩

theorem aside_waitLocation (watch : PendingWatch) : Aside watch.waitLocation :=
  .bind (aside_wait watch) aside_locate

theorem aside_startLog : Aside startLog := by
  have hbegin (relay : Relay) :
      relay.SameSessions relay.beginLog.2 ∧ relay.beginLog.1 ≠ .error .notRunning := by
    simp only [beginLog]
    split <;> exact ⟨⟨rfl, rfl, rfl, rfl⟩, fun h => by cases h⟩
  exact ⟨Task.within_act fun relay => (hbegin relay).1, fun relay _ => (hbegin relay).2⟩

end Aside
end Relay
end CompilerRelay
