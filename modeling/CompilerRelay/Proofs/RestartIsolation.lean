import CompilerRelay.Proofs.RestartRun

/-!
# What older sessions still say

A session that lost the slot may still have output on the way, and all sessions speak into one channel.

**Input.**  A reachable relay, and demands.  The sessions that are there already are the older ones.

**Form.**  `Relay.Isolated before demands`: in no run of the demands does the output of an older session, or the end
of it, settle a watch that was installed in the run.

**Results.**
* `Relay.settlement?_outputEnd`: the end of any session's output settles the watch that waits.
* `Relay.isolated_iff`: demands are isolated if and only if no new watch ever waits while an older session is read.
* `Relay.restart_isolation`: a restart is isolated exactly when no older session is read any more.
-/

namespace CompilerRelay

/-- The session whose output a happening is, or whose output it ends. -/
def Happening.speaker? : Happening → Option Nat
  | .output session _ | .outputEnd session _ => some session
  | .report _ _ | .reportEnd _ | .exit _ | .written _ | .writeFailed _ | .time _ | .files _ => none

namespace Relay

/-- The output of no session is read any more. -/
def Silent (relay : Relay) : Prop :=
  ∀ number, number < relay.sessions.length → relay.reads number = false

/-- In no run of the demands does an older session settle a watch that was installed in the run. -/
def Isolated (before : Relay) (demands : List Demand) : Prop :=
  ∀ middle, before.Runs demands middle →
    ∀ happening number,
      happening.speaker? = some number → number < before.sessions.length →
      middle.admits happening = true →
      ∀ id, before.channel.watch.lastId < id →
        middle.channel.watch.settlement? id = none →
        (middle.after happening).channel.watch.settlement? id = none

/-- A watch that was installed since then waits while the output of an older session is read. -/
def Exposed (before middle : Relay) : Prop :=
  (∃ watch, middle.channel.watch.active = some watch ∧ before.channel.watch.lastId < watch.id) ∧
  ∃ number, number < before.sessions.length ∧ middle.reads number = true

/-! ## What a session says to the watch that waits -/

/-- A session speaks to whoever waits, without installing anything. -/
theorem watch_of_speaker?
    (relay : Relay) {happening : Happening} {number : Nat}
    (hspeaker : happening.speaker? = some number) :
    ∃ requests, requests.countP WatchRequest.isInstall = 0 ∧
      (relay.after happening).channel.watch = relay.channel.watch.performAll requests := by
  have hoffers (lines : List String) :
      (lines.map WatchRequest.offer).countP WatchRequest.isInstall = 0 := by
    rw [List.countP_eq_zero]
    simp [WatchRequest.isInstall]
  cases happening with
  | output session chunk =>
      exact ⟨_, hoffers _, Channel.writeBytes_watch relay.channel relay.files chunk⟩
  | outputEnd session reason =>
      refine ⟨_, ?_, Channel.finish_watch relay.channel relay.files⟩
      rw [List.countP_append, hoffers]
      rfl
  | report | reportEnd | exit | written | writeFailed | time | files => cases hspeaker

/-- The end of the output settles the watch that waits, whoever's output it is: the unfinished line may do, and
otherwise the watch is told that its line will not come. -/
theorem settlement?_outputEnd
    {relay : Relay} (hreachable : relay.channel.Reachable)
    {watch : Watch} (hactive : relay.channel.watch.active = some watch)
    (number : Nat) (reason : StopReason) :
    (relay.after (.outputEnd number reason)).channel.watch.settlement? watch.id =
      some (.answered ((relay.channel.buffer.flush.1.bind watch.outcomeOf?).getD .abandoned)) := by
  obtain ⟨watches, htracks⟩ := hreachable.tracks
  have hwatch : (relay.after (.outputEnd number reason)).channel.watch = _ :=
    Channel.finish_watch relay.channel relay.files
  rw [hwatch, WatchSlot.settlement?_performAll_of_active htracks hactive]
  cases hline : relay.channel.buffer.flush.1 with
  | none => simp [Watch.settlementBy?]
  | some line =>
      cases houtcome : watch.outcomeOf? line <;> simp [Watch.settlementBy?, houtcome]

/-! ## Isolation -/

theorem Runs.channel_reachable
    {before after : Relay} {demands : List Demand}
    (h : before.Runs demands after)
    (hbefore : before.channel.Reachable) :
    after.channel.Reachable :=
  h.evolves.channel_reachable hbefore

/-- Demands are isolated if and only if no new watch ever waits while an older session is read. -/
theorem isolated_iff
    {before : Relay} (hreachable : before.channel.Reachable)
    (demands : List Demand) :
    before.Isolated demands ↔ ∀ middle, before.Runs demands middle → ¬ before.Exposed middle := by
  constructor
  · rintro hisolated middle hruns ⟨⟨watch, hactive, hnew⟩, number, hold, hreads⟩
    have hmiddle := hruns.channel_reachable hreachable
    obtain ⟨watches, htracks⟩ := hmiddle.tracks
    have hsettled := settlement?_outputEnd hmiddle hactive number .exited
    have hunsettled := hisolated middle hruns (.outputEnd number .exited) number rfl hold hreads
      watch.id hnew (htracks.active_unsettled hactive)
    rw [hsettled] at hunsettled
    cases hunsettled
  · intro hexposed middle hruns happening number hspeaker hold hadmits id hnew hunsettled
    have hmiddle := hruns.channel_reachable hreachable
    obtain ⟨watches, htracks⟩ := hmiddle.tracks
    have hreads : middle.reads number = true := by
      cases happening with
      | output | outputEnd =>
          obtain rfl := Option.some.inj hspeaker
          exact hadmits
      | report | reportEnd | exit | written | writeFailed | time | files => cases hspeaker
    by_cases hlate : middle.channel.watch.lastId < id
    · -- The number was not handed out, and the happening does not hand it out either.
      obtain ⟨requests, hnone, hwatch⟩ := watch_of_speaker? middle hspeaker
      have hafter := (Evolves.happens middle happening).channel_reachable hmiddle
      obtain ⟨later, hlater⟩ := hafter.tracks
      refine hlater.settlement?_of_late ?_
      rw [hwatch, WatchSlot.lastId_performAll, hnone]
      exact hlate
    · obtain ⟨watch, hactive, rfl⟩ := htracks.exists_active (by omega) (by omega) hunsettled
      exact absurd ⟨⟨watch, hactive, hnew⟩, number, hold, hreads⟩ (hexposed middle hruns)

/-- If no session is read any more, whatever is demanded is isolated. -/
theorem isolated_of_silent
    {before : Relay} (hreachable : before.channel.Reachable)
    (hsilent : before.Silent) (demands : List Demand) :
    before.Isolated demands := by
  rw [isolated_iff hreachable]
  rintro middle hruns ⟨-, number, hold, hreads⟩
  rw [hruns.evolves.unread number hold (hsilent number hold)] at hreads
  cases hreads

/-- **When a restart is isolated.**  A process that exited unnoticed, or whose start was dropped, loses the slot, but
nobody stops reading its output. -/
theorem restart_isolation
    {before : Relay} (hreachable : before.Reachable) :
    -- Demands are isolated if and only if no new watch ever waits while an older session is read.
    (∀ demands, before.Isolated demands ↔
      ∀ middle, before.Runs demands middle → ¬ before.Exposed middle) ∧
    -- They are if no older session is read to begin with.
    (before.Silent → ∀ demands, before.Isolated demands) ∧
    -- A demand that restarts the compiler is isolated only then, if it gets as far as to watch for anything.
    (∀ demand, before.Restarts demand → before.CanWatch demand →
      (before.Isolated [demand] ↔ before.Silent)) := by
  have hchannel := hreachable.channel_reachable
  refine ⟨isolated_iff hchannel, isolated_of_silent hchannel, ?_⟩
  intro demand hrestarts hcan
  constructor
  · intro hisolated number hnumber
    obtain ⟨middle, hruns, hawaits⟩ := restart_awaits hrestarts hcan
    have hunexposed := (isolated_iff hchannel _).mp hisolated middle hruns
    by_contra hread
    refine hunexposed ⟨hawaits.new_watch, number, hnumber, ?_⟩
    rw [hawaits.reads_eq number hnumber]
    simpa using hread
  · intro hsilent
    exact isolated_of_silent hchannel hsilent _

/-! ## A process that exited unnoticed -/

namespace UnnoticedExit

/-- A machine on which every program is found and starts. -/
def machine : Host where
  resolve := fun _ program => some ⟨program⟩
  refuses := fun _ _ _ => none
  complete := fun files _ _ _ => (.ok ⟨[], []⟩, files)
  stamp := fun _ => ""

/-- A relay that was asked to start the compiler. -/
def started : Relay :=
  { Relay.new {} {} machine {} with
    sessions := [{}]
    slot := .running 0 }

/-- The same relay after the process exited, before the end of its output was read. -/
def relay : Relay :=
  started.after (.exit 0)

/-- A statement that waits for a line that begins with "got". -/
def statement : Statement where
  code := "second"
  success := ⟨"^got ",
    .sequence (.assertion .textStart)
      (.sequence (.set (.single 'g'))
        (.sequence (.set (.single 'o')) (.sequence (.set (.single 't')) (.set (.single ' ')))))⟩

/-- The relay after the statement restarted the compiler and was sent. -/
def resumed : Relay :=
  ((Demand.taskOfAll [.submit statement]).alone? relay).elim relay Prod.snd

theorem started_reachable : started.Reachable := by
  have hmoves : Task.Moves Around (Demand.task .start) (Relay.new {} {} machine {}) (.done ()) started :=
    Task.moves_of_alone? rfl
  exact .done (.new {} {} machine {}) hmoves

theorem relay_reachable : relay.Reachable :=
  .around started_reachable (.happens ⟨.exit 0, rfl, rfl⟩)

theorem relay_not_isolated :
    relay.Lost ∧ ¬ relay.Isolated [.submit statement] := by
  have hlost : relay.Lost := Or.inl rfl
  refine ⟨hlost, fun hisolated => ?_⟩
  have hsilent := ((restart_isolation relay_reachable).2.2 (.submit statement) ⟨rfl, hlost⟩
    ⟨rfl, 1, rfl⟩).mp hisolated
  cases hsilent 0 (by decide)

/-- What the process that exited had still to say answers the statement that restarted the compiler, and the end of
it would have told the statement that its session is over. -/
theorem older_output_answers :
    Statement.compile "second" "^got " none = .ok statement ∧
    relay.Reachable ∧ relay.Lost ∧
    relay.Runs [.submit statement] resumed ∧
    resumed.slot = .running 1 ∧
    resumed.channel.watch.settlement? 1 = none ∧
    resumed.admits (.output 0 (Utf8.encode "got early\n")) = true ∧
    (resumed.after (.output 0 (Utf8.encode "got early\n"))).channel.watch.settlement? 1 =
      some (.answered (.matched "got early")) ∧
    resumed.admits (.outputEnd 0 .exited) = true ∧
    (resumed.after (.outputEnd 0 .exited)).channel.watch.settlement? 1 =
      some (.answered .abandoned) :=
  ⟨by decide +kernel, relay_reachable, Or.inl rfl, ⟨_, Task.moves_of_alone? rfl⟩, rfl, rfl, rfl,
    by decide +kernel, rfl, rfl⟩

end UnnoticedExit
end Relay
end CompilerRelay
