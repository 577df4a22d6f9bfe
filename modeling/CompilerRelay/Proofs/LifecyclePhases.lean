import CompilerRelay.Proofs.RelaySessions
import CompilerRelay.Proofs.TaskAssertions

/-!
# Phases of a session

How the slot and the processes go together at every moment of a demand.

**Form.**  A `Phase` says what the slot holds and which process may live.  `Relay.stands origin ends phase` asserts
that the relay is in that phase, in the course of a demand that began at `origin`; `ends` says whether the demand may
end the session that it found.

**Results.**
* `Relay.start_ensures`: a start comes to a new session, or it fails and leaves the slot empty and no process alive.
* `Relay.endSession_ensures`: after the end of a session no process lives.
* `Relay.ensureRunning_ensures`: the slot holds a session afterwards; it is a new one if the process had exited.
* `Relay.send_ensures`: sending needs a session in the slot, and it fails only if nobody takes statements for it.
-/

namespace CompilerRelay

/-- Whether the line that says that the compiler takes commands, if there is one, can be watched for. -/
def Relay.CanWait (relay : Relay) : Prop :=
  ∃ ready, relay.config.readyPattern.mapM relay.host.compile = .ok ready

theorem Relay.CanWait.of_eq
    {before after : Relay} (h : before.CanWait) (hconfig : after.config = before.config)
    (hhost : after.host = before.host) :
    after.CanWait := by
  obtain ⟨ready, hready⟩ := h
  exact ⟨ready, by rwa [hconfig, hhost]⟩

/-- Whether a failure is one of starting the compiler. -/
def Failure.isOfStart : Failure → Bool
  | .start _ | .invalidPattern _ => true
  | .preprocess _ | .watch _ | .notRunning | .definition _ | .clean _ | .log _ _ => false

/-- How the slot and the processes go together. -/
inductive Phase where
  | stopped
  /-- A start has begun, and nothing was spawned. -/
  | starting
  /-- A process was spawned, and it does not hold the slot yet. -/
  | spawned (number : Nat)
  | running (number : Nat)
  /-- The slot was freed, and the process that held it is going to be killed. -/
  | ending (number : Nat)

namespace Phase

/-- What the slot holds. -/
def slot : Phase → Slot
  | .stopped | .ending _ => .stopped
  | .starting | .spawned _ => .starting
  | .running number => .running number

/-- The process that may live. -/
def process? : Phase → Option Nat
  | .stopped | .starting => none
  | .spawned number | .running number | .ending number => some number

/-- The phase of a relay that carries nothing out. -/
def ofSlot : Slot → Phase
  | .stopped => .stopped
  | .starting => .starting
  | .running number => .running number

@[simp] theorem slot_ofSlot (slot : Slot) : (ofSlot slot).slot = slot := by
  cases slot <;> rfl

/-- The phase after the slot was freed. -/
def freed : Slot → Phase
  | .stopped | .starting => .stopped
  | .running number => .ending number

/-- The phases that a demand can come to that began at `origin`. -/
inductive Allowed (origin : Relay) (ends : Bool) : Phase → Prop
  | stopped : Allowed origin ends .stopped
  | starting (hwait : origin.CanWait) : Allowed origin ends .starting
  /-- The process was spawned since the demand began. -/
  | spawned {number : Nat} (hwait : origin.CanWait) (hnew : origin.sessions.length ≤ number) :
      Allowed origin ends (.spawned number)
  | running {number : Nat} : Allowed origin ends (.running number)
  /-- The process held the slot when the demand began. -/
  | ending {number : Nat} (hends : ends = true) (hslot : origin.slot = .running number) :
      Allowed origin ends (.ending number)

/-- The phases that a demand can end in that began at `origin`. -/
inductive Final (origin : Relay) : Phase → Prop
  | stopped : Final origin .stopped
  | running (number : Nat) : Final origin (.running number)
  | same : Final origin (ofSlot origin.slot)

theorem Final.eq_ofSlot
    {origin : Relay} {phase : Phase} (h : phase.Final origin) :
    phase = ofSlot phase.slot := by
  cases h with
  | stopped | running => rfl
  | same => rw [slot_ofSlot]

end Phase

namespace Relay

/-- The relay is in a phase, in the course of a demand that began at `origin`. -/
structure Stands (origin : Relay) (ends : Bool) (phase : Phase) (relay : Relay) : Prop where
  allowed : phase.Allowed origin ends
  config_eq : relay.config = origin.config
  host_eq : relay.host = origin.host
  sessions_le : origin.sessions.length ≤ relay.sessions.length
  slot_eq : relay.slot = phase.slot
  /-- No other process lives. -/
  alone : ∀ number, relay.lives number = true → phase.process? = some number
  known : ∀ number, phase.process? = some number → number < relay.sessions.length

/-- A moment of a demand that began at `origin`. -/
def Moment (origin : Relay) (ends : Bool) (relay : Relay) : Prop :=
  ∃ phase, Stands origin ends phase relay

namespace Stands

variable {origin relay after : Relay} {ends : Bool} {phase : Phase}

/-- The phase stays as long as the slot does and no process comes to life. -/
theorem of_eq
    (h : Stands origin ends phase relay)
    (hconfig : after.config = relay.config) (hhost : after.host = relay.host) (hslot : after.slot = relay.slot)
    (hlength : after.sessions.length = relay.sessions.length)
    (hlives : ∀ number, after.lives number = true → relay.lives number = true) :
    Stands origin ends phase after where
  allowed := h.allowed
  config_eq := hconfig.trans h.config_eq
  host_eq := hhost.trans h.host_eq
  sessions_le := hlength ▸ h.sessions_le
  slot_eq := hslot.trans h.slot_eq
  alone := fun number hnumber => h.alone number (hlives number hnumber)
  known := fun number hnumber => hlength ▸ h.known number hnumber

theorem passes
    (h : Stands origin ends phase relay) (hpasses : relay.Passes after) :
    Stands origin ends phase after :=
  h.of_eq hpasses.ages.config_eq hpasses.ages.host_eq hpasses.slot_eq hpasses.length_eq fun _ hlives =>
    hpasses.ages.lives_of (hpasses.length_eq ▸ lt_of_lives hlives) hlives

theorem sameSessions
    (h : Stands origin ends phase relay) (hsame : relay.SameSessions after) :
    Stands origin ends phase after :=
  h.of_eq hsame.config_eq hsame.host_eq hsame.slot_eq (congrArg List.length hsame.sessions_eq) fun number hlives => by
    rwa [lives, session?, hsame.sessions_eq] at hlives

theorem setSlot
    (h : Stands origin ends phase relay) {other : Phase}
    (hallowed : other.Allowed origin ends) (hprocess : other.process? = phase.process?) :
    Stands origin ends other { relay with slot := other.slot } where
  allowed := hallowed
  config_eq := h.config_eq
  host_eq := h.host_eq
  sessions_le := h.sessions_le
  slot_eq := rfl
  alone := fun number hlives => hprocess ▸ h.alone number hlives
  known := fun number hnumber => h.known number (hprocess ▸ hnumber)

/-- The slot may be freed if its process has exited. -/
theorem notice
    (h : Stands origin ends phase relay) (hexited : relay.hasExited = true) :
    Stands origin ends .stopped { relay with slot := .stopped } where
  allowed := .stopped
  config_eq := h.config_eq
  host_eq := h.host_eq
  sessions_le := h.sessions_le
  slot_eq := rfl
  alone := by
    intro number hlives
    have hbefore : relay.lives number = true := hlives
    obtain ⟨holder, hslot, hgone⟩ := exists_of_hasExited hexited
    have hphase : phase.process? = some holder := by
      have hheld : phase.slot = .running holder := h.slot_eq.symm.trans hslot
      cases phase <;> simp_all [Phase.slot, Phase.process?]
    obtain rfl := Option.some.inj (hphase.symm.trans (h.alone number hbefore))
    rw [not_lives_of_exited hgone] at hbefore
    cases hbefore
  known := fun number hnumber => by cases hnumber

/-- Another process that may live, and it holds no slot that it did not hold before. -/
theorem spawn
    (h : Stands origin ends .starting relay) (hwait : origin.CanWait) :
    Stands origin ends (.spawned relay.sessions.length) { relay with sessions := relay.sessions ++ [{}] } where
  allowed := .spawned hwait h.sessions_le
  config_eq := h.config_eq
  host_eq := h.host_eq
  sessions_le := by simpa using Nat.le_succ_of_le h.sessions_le
  slot_eq := h.slot_eq
  alone := by
    intro number hlives
    have hnumber : number < relay.sessions.length + 1 := by simpa using lt_of_lives hlives
    rcases Nat.lt_succ_iff_lt_or_eq.mp hnumber with hold | rfl
    · have hbefore : relay.lives number = true := by
        simpa [lives, session?, List.getElem?_append_left hold] using hlives
      cases h.alone number hbefore
    · rfl
  known := by
    intro number hnumber
    obtain rfl := Option.some.inj hnumber
    simp

theorem not_lives_killSession
    (h : Stands origin ends phase relay) {number : Nat} (hprocess : phase.process? = some number)
    (other : Nat) :
    (relay.killSession number).lives other = false := by
  by_cases hother : number = other
  · subst hother
    rw [lives, killSession, session?_changeSession_self, Option.any_map]
    refine Bool.eq_false_iff.mpr fun hany => ?_
    obtain ⟨session, -, hlife⟩ := (Option.any_eq_true _ _).mp hany
    by_cases halive : session.life = .alive <;> simp [halive] at hlife
  · refine Bool.eq_false_iff.mpr fun hlives => hother ?_
    rw [lives, killSession, session?_changeSession_of_ne relay _ hother] at hlives
    exact Option.some.inj (hprocess.symm.trans (h.alone other hlives))

theorem killSession
    (h : Stands origin ends phase relay) {number : Nat} (hprocess : phase.process? = some number)
    {other : Phase} (hallowed : other.Allowed origin ends)
    (hslot : other.slot = phase.slot) (hnone : other.process? = none) :
    Stands origin ends other (relay.killSession number) where
  allowed := hallowed
  config_eq := h.config_eq
  host_eq := h.host_eq
  sessions_le := h.sessions_le.trans (List.length_modify _ relay.sessions number).ge
  slot_eq := h.slot_eq.trans hslot.symm
  alone := fun another hlives => by
    rw [h.not_lives_killSession hprocess another] at hlives
    cases hlives
  known := fun another hanother => by
    rw [hnone] at hanother
    cases hanother

/-- What a demand leaves is what the next one begins with. -/
theorem again
    (h : Stands origin ends phase relay) (hphase : phase = .ofSlot relay.slot) (other : Bool) :
    Stands relay other (.ofSlot relay.slot) relay where
  allowed := by
    have hallowed := h.allowed
    rw [hphase] at hallowed
    cases hslot : relay.slot with
    | stopped => exact .stopped
    | starting =>
        rw [hslot] at hallowed
        cases hallowed with
        | starting hwait => exact .starting (hwait.of_eq h.config_eq h.host_eq)
    | running number => exact .running
  config_eq := rfl
  host_eq := rfl
  sessions_le := le_rfl
  slot_eq := (Phase.slot_ofSlot relay.slot).symm
  alone := hphase ▸ h.alone
  known := hphase ▸ h.known

/-- A demand that is dropped leaves what the next one begins with, whatever it was about to do. -/
theorem dropStart
    (h : Stands origin ends phase relay) (other : Bool) :
    Stands relay.dropStart other (.ofSlot relay.dropStart.slot) relay.dropStart where
  allowed := by
    have hslot := (dropStart_slot relay).trans h.slot_eq
    rw [hslot]
    cases hallowed : h.allowed with
    | stopped | ending => exact .stopped
    | starting hwait | spawned hwait =>
        exact .starting (hwait.of_eq ((dropStart_config relay).trans h.config_eq)
          ((dropStart_host relay).trans h.host_eq))
    | running => exact .running
  config_eq := rfl
  host_eq := rfl
  sessions_le := le_rfl
  slot_eq := (Phase.slot_ofSlot _).symm
  alone := by
    intro number hlives
    obtain ⟨hslot, -⟩ := lives_dropStart hlives
    rw [dropStart_slot, hslot]
    rfl
  known := by
    intro number hnumber
    rw [length_dropStart]
    rw [dropStart_slot, h.slot_eq] at hnumber
    cases phase with
    | running holder => exact h.known number hnumber
    | stopped | starting | spawned | ending => cases hnumber

end Stands

/-- The relay is in a phase, in the course of a demand that began at `origin`. -/
def stands (origin : Relay) (ends : Bool) (phase : Phase) : Assertion Around (Moment origin ends) where
  holds := Stands origin ends phase
  kept := fun haround h => h.passes haround.passes
  sound := fun h => ⟨phase, h⟩

/-- The slot holds a session of which something is known. -/
def serves (origin : Relay) (ends : Bool) (known : Nat → Prop) : Assertion Around (Moment origin ends) :=
  .any fun number => .given (known number) (stands origin ends (.running number))

/-- The slot holds a session for which no statements are taken any more. -/
def deaf (origin : Relay) (ends : Bool) (number : Nat) : Assertion Around (Moment origin ends) :=
  (stands origin ends (.running number)).also (fun relay => relay.takes number = false) fun haround h hdeaf => by
    have hpasses := haround.passes
    refine Bool.eq_false_iff.mpr fun htakes => ?_
    rw [hpasses.ages.takes_of (h.known number rfl) htakes] at hdeaf
    cases hdeaf

/-- What a demand may leave when it ends. -/
def rests (origin : Relay) (ends : Bool) : Assertion Around (Moment origin ends) :=
  .any fun phase => .given (phase.Final origin) (stands origin ends phase)

/-- What a demand that failed leaves. -/
def amiss (origin : Relay) (ends : Bool) : Failure → Assertion Around (Moment origin ends)
  | .notRunning => .any fun number => deaf origin ends number
  | _ => rests origin ends

/-- A start failed, and the slot is empty. -/
def notStarted (origin : Relay) (ends : Bool) (failure : Failure) : Assertion Around (Moment origin ends) :=
  .given (failure.isOfStart = true) (stands origin ends .stopped)

section Operations

variable {origin : Relay} {ends : Bool} {phase : Phase} {known : Nat → Prop} {α β : Type}

theorem amiss_of_rests
    {failure : Failure} (hfailure : failure ≠ .notRunning)
    {relay : Relay} (h : rests origin ends relay) :
    amiss origin ends failure relay := by
  cases failure with
  | notRunning => exact absurd rfl hfailure
  | start | preprocess | watch | definition | clean | log | invalidPattern => exact h

theorem amiss_of_notStarted
    {failure : Failure} {relay : Relay} (h : notStarted origin ends failure relay) :
    amiss origin ends failure relay := by
  refine amiss_of_rests (fun hfailure => ?_) ⟨.stopped, .stopped, h.2⟩
  subst hfailure
  cases h.1

theorem rests_sameSessions
    {before after : Relay} (h : rests origin ends before) (hsame : before.SameSessions after) :
    rests origin ends after := by
  obtain ⟨phase, hphase, hstands⟩ := h
  exact ⟨phase, hphase, hstands.sameSessions hsame⟩

theorem amiss_sameSessions
    {failure : Failure} {before after : Relay}
    (h : amiss origin ends failure before) (hsame : before.SameSessions after) :
    amiss origin ends failure after := by
  cases failure with
  | notRunning =>
      obtain ⟨number, hstands, hdeaf⟩ := h
      exact ⟨number, hstands.sameSessions hsame, (hsame.takes_eq number).trans hdeaf⟩
  | start | preprocess | watch | definition | clean | log | invalidPattern => exact rests_sameSessions h hsame

/-! ## Rules for the steps of the relay -/

section Rules

variable {always : Relay → Prop} {pre : Assertion Around always} {failed : Failure → Assertion Around always}

theorem ensures_change
    {change : Relay → Relay} {post : Assertion Around always}
    (h : ∀ relay, pre relay → post (change relay)) :
    Task.Ensures pre (Relay.change change) (fun _ => post) failed :=
  Task.ensures_lift (Task.meets_act h)

theorem ensures_take
    {change : Relay → α × Relay} {post : α → Assertion Around always}
    (h : ∀ relay, pre relay → post (change relay).1 (change relay).2) :
    Task.Ensures pre (ExceptT.lift (Task.act change) : Operation α) post failed :=
  Task.ensures_lift (Task.meets_act h)

/-- A look at what is known already. -/
theorem ensures_look
    {view : Relay → α} {value : α} (hview : ∀ relay, pre relay → view relay = value)
    {follow : α → Operation β} {post : β → Assertion Around always}
    (h : Task.Ensures pre (follow value) post failed) :
    Task.Ensures pre (look view >>= follow) post failed := by
  have hlook : Task.Ensures pre (look view) (fun seen => .given (seen = value) pre) failed :=
    ensures_take fun relay hpre => ⟨hview relay hpre, hpre⟩
  refine hlook.bind fun seen => Task.ensures_given fun hseen => ?_
  rwa [hseen]

/-- Steps that leave sessions alone leave what is said of them. -/
theorem ensures_within
    {task : Task Relay α} (h : task.Within SameSessions)
    (hkept : ∀ {before after}, before.SameSessions after → pre before → pre after) :
    Task.Ensures pre (ExceptT.lift task : Operation α) (fun _ => pre) failed :=
  Task.ensures_lift <| (Task.meets_of_within h (Task.yields_true task) fun _ _ => hkept).mono (fun _ hpre => hpre)
    fun _ _ hresult => hresult.2

/-- An operation that leaves sessions alone leaves what is said of them. -/
theorem Aside.ensures
    {operation : Operation α} (h : Aside operation)
    (hkept : ∀ {before after}, before.SameSessions after → pre before → pre after)
    (hfailed : ∀ failure relay, failure ≠ .notRunning → pre relay → failed failure relay) :
    Task.Ensures pre operation (fun _ => pre) failed := by
  refine (Task.meets_of_within h.within h.yields fun _ _ => hkept).mono (fun _ hpre => hpre)
    fun result relay hresult => ?_
  obtain ⟨hnot, hpre⟩ := hresult
  cases result with
  | ok value => exact hpre
  | error failure => exact hfailed failure relay (fun heq => hnot (congrArg Except.error heq)) hpre

theorem clearForBuild_ensures
    {always : Relay → Prop} {pre : Assertion Around always} {failed : Failure → Assertion Around always}
    (hkept : ∀ {before after}, pre before → before.SameSessions after → pre after) :
    Task.Ensures pre clearForBuild (fun _ => pre) failed := by
  have hlook : Task.Ensures pre (look (·.config.clearOutput)) (fun _ => pre) failed := ensures_take fun _ h => h
  refine hlook.bind fun wanted => ?_
  cases wanted with
  | true => exact ensures_change fun _ h => hkept h ⟨rfl, rfl, rfl, rfl⟩
  | false => exact Task.ensures_pure fun _ h => h

end Rules

/-! ## Starting -/

theorem isRunning_eq
    {relay : Relay} (h : Stands origin ends phase relay) :
    relay.isRunning = (phase.slot.state == .running) := by
  rw [isRunning, h.slot_eq]

theorem spawn_cases (relay : Relay) :
    (∃ cause, relay.spawn = (.error cause, relay)) ∨
    relay.spawn = (.ok relay.sessions.length, { relay with sessions := relay.sessions ++ [{}] }) := by
  unfold spawn
  split
  · exact .inl ⟨_, rfl⟩
  · split
    · exact .inl ⟨_, rfl⟩
    · exact .inr rfl

theorem freeStarting_ensures {failed : Failure → Assertion Around (Moment origin ends)} :
    Task.Ensures (stands origin ends .starting) (setSlot .stopped) (fun _ => stands origin ends .stopped) failed :=
  ensures_change fun _ h => h.setSlot .stopped rfl

theorem spawnWatched_ensures (hwait : origin.CanWait) (ready : Option Nat) :
    Task.Ensures (stands origin ends .starting) (spawnWatched ready)
      (fun number => .given (origin.sessions.length ≤ number) (stands origin ends (.spawned number)))
      (notStarted origin ends) := by
  have hspawn : Task.Ensures (stands origin ends .starting) (ExceptT.lift (Task.act spawn) : Operation _)
      (Task.outcome (fun number => .given (origin.sessions.length ≤ number) (stands origin ends (.spawned number)))
        fun _ => stands origin ends .starting) (notStarted origin ends) := by
    refine ensures_take fun relay hstands => ?_
    rcases spawn_cases relay with ⟨cause, hfail⟩ | hok
    · rw [hfail]
      exact hstands
    · rw [hok]
      exact ⟨hstands.sessions_le, hstands.spawn hwait⟩
  refine hspawn.bind fun result => ?_
  cases result with
  | ok number => exact Task.ensures_pure fun _ h => h
  | error cause =>
      have hclear : Task.Ensures (stands origin ends .starting) (ready.forM clearWatch)
          (fun _ => stands origin ends .starting) (notStarted origin ends) :=
        Task.ensures_forM fun _ => ensures_change fun _ h => h.sameSessions ⟨rfl, rfl, rfl, rfl⟩
      exact hclear.bind fun _ => freeStarting_ensures.bind fun _ => Task.ensures_throw fun _ h => ⟨rfl, h⟩

theorem awaitReady_ensures (hwait : origin.CanWait) (number id : Nat) :
    Task.Ensures (stands origin ends (.spawned number)) (awaitReady number id)
      (fun _ => stands origin ends (.spawned number)) (notStarted origin ends) := by
  have hlook : Task.Ensures (stands origin ends (.spawned number)) (look (·.config.startupTimeout))
      (fun _ => stands origin ends (.spawned number)) (notStarted origin ends) :=
    ensures_take fun _ h => h
  refine hlook.bind fun limit => ?_
  have hawait : Task.Ensures (stands origin ends (.spawned number))
      (ExceptT.lift (awaitWatch ⟨id, limit⟩) : Operation _)
      (fun _ => stands origin ends (.spawned number)) (notStarted origin ends) :=
    ensures_within (within_awaitWatch ⟨id, limit⟩) fun hsame h => h.sameSessions hsame
  refine hawait.bind fun result => ?_
  cases result with
  | ok line => exact Task.ensures_pure fun _ h => h
  | error cause =>
      have hkill : Task.Ensures (stands origin ends (.spawned number)) (Relay.change (·.killSession number))
          (fun _ => stands origin ends .starting) (notStarted origin ends) :=
        ensures_change fun _ h => h.killSession rfl (.starting hwait) rfl rfl
      exact hkill.bind fun _ => freeStarting_ensures.bind fun _ => Task.ensures_throw fun _ h => ⟨rfl, h⟩

/-- A start comes to a new session, or it fails and leaves the slot empty and no process alive. -/
theorem start_ensures (hphase : phase = .stopped ∨ phase = .starting) :
    Task.Ensures (stands origin ends phase) start
      (fun _ => serves origin ends (origin.sessions.length ≤ ·)) (notStarted origin ends) := by
  have hstate : ∀ relay, stands origin ends phase relay → relay.isRunning = false := by
    intro relay h
    rw [isRunning_eq h]
    rcases hphase with rfl | rfl <;> rfl
  have hready : ∀ relay, stands origin ends phase relay →
      relay.config.readyPattern.mapM relay.host.compile = origin.config.readyPattern.mapM origin.host.compile := by
    intro relay h
    rw [h.config_eq, h.host_eq]
  refine ensures_look hstate (ensures_look hready ?_)
  cases hcompiled : origin.config.readyPattern.mapM origin.host.compile with
  | error invalid =>
      -- A start that has begun has a pattern that compiles, so this one has found the slot empty.
      refine Task.ensures_throw fun relay h => ⟨rfl, ?_⟩
      rcases hphase with rfl | rfl
      · exact h
      · cases h.allowed with
        | starting hwait =>
            obtain ⟨ready, hready⟩ := hwait
            rw [hcompiled] at hready
            cases hready
  | ok pattern =>
      have hwait : origin.CanWait := ⟨pattern, hcompiled⟩
      have hprocess : phase.process? = none := by rcases hphase with rfl | rfl <;> rfl
      have hbegin : Task.Ensures (stands origin ends phase) (setSlot .starting)
          (fun _ => stands origin ends .starting) (notStarted origin ends) :=
        ensures_change fun _ h => h.setSlot (.starting hwait) hprocess.symm
      have hinstall : Task.Ensures (stands origin ends .starting) (pattern.mapM fun pattern => install pattern none)
          (fun _ => stands origin ends .starting) (notStarted origin ends) :=
        Task.ensures_mapM fun _ => ensures_take fun _ h => h.sameSessions ⟨rfl, rfl, rfl, rfl⟩
      refine hbegin.bind fun _ => hinstall.bind fun ready => (spawnWatched_ensures hwait ready).bind fun number => ?_
      refine Task.ensures_given fun hnew => (Task.ensures_forM (awaitReady_ensures hwait number)).bind fun _ => ?_
      exact ensures_change fun _ h => ⟨number, hnew, h.setSlot .running rfl⟩

/-- Nothing is started while the slot holds a session. -/
theorem start_ensures_of_running
    {always : Relay → Prop} {pre : Assertion Around always} {failed : Failure → Assertion Around always}
    (hrunning : ∀ relay, pre relay → relay.isRunning = true) :
    Task.Ensures pre start (fun _ => pre) failed :=
  ensures_look hrunning (Task.ensures_pure fun _ h => h)

/-! ## Ending -/

/-- After the end of a session no process lives. -/
theorem endSession_ensures {failed : Failure → Assertion Around (Moment origin true)} :
    Task.Ensures (stands origin true (.ofSlot origin.slot)) endSession
      (fun _ => stands origin true .stopped) failed := by
  have hfree : Task.Ensures (stands origin true (.ofSlot origin.slot)) (ExceptT.lift (Task.act freeSlot) : Operation _)
      (fun slot => .given (slot = origin.slot) (stands origin true (.freed origin.slot))) failed := by
    refine ensures_take fun relay h => ⟨?_, ?_⟩
    · exact h.slot_eq.trans (Phase.slot_ofSlot origin.slot)
    · have hfreed : (Phase.freed origin.slot).slot = .stopped := by cases origin.slot <;> rfl
      have hallowed : (Phase.freed origin.slot).Allowed origin true := by
        cases hslot : origin.slot with
        | stopped | starting => exact .stopped
        | running number => exact .ending rfl hslot
      have hsame := h.setSlot hallowed (by cases origin.slot <;> rfl)
      rwa [hfreed] at hsame
  have habandon : Task.Ensures (stands origin true (.freed origin.slot)) (onChannel Channel.abandon)
      (fun _ => stands origin true (.freed origin.slot)) failed :=
    ensures_change fun _ h => h.sameSessions ⟨rfl, rfl, rfl, rfl⟩
  refine hfree.bind fun slot => Task.ensures_given fun hslot => habandon.bind fun _ => ?_
  rw [← hslot]
  cases slot with
  | stopped | starting => exact Task.ensures_pure fun _ h => h
  | running number => exact ensures_change fun _ h => h.killSession rfl .stopped rfl rfl

/-! ## Making sure that the compiler runs -/

/-- Nothing is under way, and something is known of the session that the slot holds, unless its process has exited. -/
def Idle (origin : Relay) (ends : Bool) (known : Nat → Prop) (relay : Relay) : Prop :=
  ∃ slot, Stands origin ends (.ofSlot slot) relay ∧
    ∀ number, slot = .running number → relay.hasExited = false → known number

/-- The slot holds a session afterwards; it is a new one if the process had exited. -/
theorem ensureRunning_ensures
    (hnew : ∀ number, origin.sessions.length ≤ number → known number)
    {pre : Assertion Around (Moment origin ends)} (hpre : ∀ relay, pre relay → Idle origin ends known relay) :
    Task.Ensures pre ensureRunning (fun _ => serves origin ends known) (notStarted origin ends) := by
  -- A session whose process has exited is left, so what stays in the slot is a session of which something is known.
  have hnotice : Task.Ensures pre
      (change fun relay => if relay.hasExited then { relay with slot := .stopped } else relay)
      (fun _ => .any fun slot => .given (∀ number, slot = .running number → known number)
        (stands origin ends (.ofSlot slot)))
      (notStarted origin ends) := by
    refine ensures_change fun relay h => ?_
    obtain ⟨slot, hstands, hknown⟩ := hpre relay h
    cases hexited : relay.hasExited with
    | false => exact ⟨slot, fun number hslot => hknown number hslot hexited, hstands⟩
    | true => exact ⟨.stopped, (fun number hslot => by cases hslot), hstands.notice hexited⟩
  have hstart {phase : Phase} (hphase : phase = .stopped ∨ phase = .starting) :
      Task.Ensures (stands origin ends phase) start (fun _ => serves origin ends known) (notStarted origin ends) :=
    (start_ensures hphase).mono_post fun _ _ ⟨number, hnumber, h⟩ => ⟨number, hnew number hnumber, h⟩
  refine hnotice.bind fun _ => Task.ensures_any fun slot => Task.ensures_given fun hsettled => ?_
  have hstate : ∀ relay, stands origin ends (.ofSlot slot) relay → relay.isRunning = (slot.state == .running) := by
    intro relay h
    rw [isRunning_eq h, Phase.slot_ofSlot]
  refine ensures_look hstate ?_
  cases slot with
  | stopped => exact hstart (.inl rfl)
  | starting => exact hstart (.inr rfl)
  | running number => exact Task.ensures_pure fun _ h => ⟨number, hsettled number rfl, h⟩

/-! ## Sending -/

/-- Sending fails only where nobody takes statements for the session of the slot. -/
theorem send_ensures (command : Command) :
    Task.Ensures (serves origin ends known) (send command) (fun _ => serves origin ends known) (amiss origin ends) := by
  refine Task.ensures_any fun number => Task.ensures_given fun hknown => Task.meets_act fun relay h => ?_
  have hslot : relay.slot = .running number := h.slot_eq
  cases htakes : relay.takes number with
  | false =>
      have hdeliver : deliver command.render relay = (.error .notRunning, relay) := by
        rw [takes] at htakes
        simp [deliver, hslot, htakes]
      rw [hdeliver]
      exact ⟨number, h, htakes⟩
  | true =>
      have hdelivered : (deliver command.render relay).1 = .ok () := by
        rw [takes] at htakes
        simp [deliver, hslot, htakes]
      rw [hdelivered]
      exact ⟨number, hknown, h.passes (.deliver command.render relay)⟩

theorem sendWatched_ensures (command : Command) (watch : PendingWatch) :
    Task.Ensures (serves origin ends known) (sendWatched command watch)
      (fun _ => serves origin ends known) (amiss origin ends) := by
  refine Task.ensures_tryCatch (send_ensures command) fun failure => ?_
  have hclear : Task.Ensures (amiss origin ends failure) (clearWatch watch.id)
      (fun _ => amiss origin ends failure) (amiss origin ends) :=
    ensures_change fun _ h => amiss_sameSessions h ⟨rfl, rfl, rfl, rfl⟩
  exact hclear.bind fun _ => Task.ensures_throw fun _ h => h

end Operations
end Relay
end CompilerRelay
