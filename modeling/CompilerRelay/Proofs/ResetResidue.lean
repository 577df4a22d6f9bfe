import CompilerRelay.Proofs.OutputSources

/-!
# What a session that was ended leaves behind

Ending a session stops the reading of its output, and the line that it did not finish stays in the buffer.

**Input.**  A relay with an empty buffer, the output of a session, and a run of the reset that follows.

**Form.**  `Relay.Hearing`: a run in which this output arrives, of whichever session and between whichever steps.
`Channel.Unaffected`: whatever arrives is taken in as by a channel with an empty buffer.

**Results.**
* `Relay.Hearing.hears`: in every such run the channel hears what arrives, and nothing else.
* `Channel.unaffected_iff`: what arrives is unaffected if and only if nothing is pending.
* `Relay.reset_residue`: a reset leaves in the buffer what the session did not finish.
-/

namespace CompilerRelay

/-- Whether a happening brings nothing to the channel. -/
def Happening.isQuiet : Happening → Bool
  | .reportEnd _ | .exit _ | .written _ | .writeFailed _ | .time _ | .files _ => true
  | .output _ _ | .outputEnd _ _ | .report _ _ => false

namespace Channel

/-- The channel with an empty buffer. -/
def emptied (channel : Channel) : Channel :=
  channel.withBuffer (channel.buffer.withPending [])

/-- Whatever arrives is taken in as by a channel with an empty buffer. -/
def Unaffected (channel : Channel) : Prop :=
  ∀ (files : FileTree) (chunks : List Bytes),
    (channel.feed files chunks).1.events = (channel.emptied.feed files chunks).1.events ∧
    (channel.feed files chunks).1.recorded = (channel.emptied.feed files chunks).1.recorded ∧
    (channel.feed files chunks).1.watch = (channel.emptied.feed files chunks).1.watch

/-- A channel to which nobody writes. -/
structure Untouched (before after : Channel) : Prop where
  buffer_eq : after.buffer = before.buffer
  shown_eq : after.shown = before.shown

theorem Untouched.of_mute
    (channel : Channel) (files : FileTree) {act : ChannelAct}
    (hmute : act.isMute = true) :
    channel.Untouched (perform (channel, files) act).1 := by
  cases act with
  | clear => exact ⟨rfl, shown_emit channel rfl⟩
  | clearDiagnostics => exact ⟨rfl, shown_emit { channel with recorded := {} } rfl⟩
  | install | clearWatch | abandon | forgetTemplates | locate => exact ⟨rfl, rfl⟩
  | writeBytes | write | writeBlock | line | finish | enableLog | disableLog | notify | sessionStopped
  | files => cases hmute

theorem emptied_eq
    {channel : Channel} (hempty : channel.pending = []) :
    channel.emptied = channel := by
  have hbuffer : channel.buffer.withPending [] = channel.buffer := by
    rw [← hempty]
    rfl
  rw [emptied, hbuffer]
  rfl

/-- What arrives is taken in as if what is pending had come before it to an empty buffer. -/
theorem feed_emptied
    {channel : Channel} (hready : channel.Ready)
    (hshort : channel.buffer.Short channel.pending) (files : FileTree) (chunks : List Bytes) :
    channel.emptied.feed files (channel.pending :: chunks) = channel.feed files chunks := by
  have hopen := hready.in_order.pending_open
  have hemptied : channel.emptied.Ready :=
    ⟨hready.in_order.withPending List.not_mem_nil, hready.cap_eq⟩
  obtain ⟨hruns, hrest⟩ := LineBuffer.unfinishedRun_of_notMem hopen
  have hwritten : channel.emptied.writeBytes files channel.pending = (channel, files) := by
    calc channel.emptied.writeBytes files channel.pending
        = channel.emptied.handleRuns files (LineBuffer.finishedRuns channel.buffer.pending)
            (LineBuffer.unfinishedRun channel.buffer.pending) := writeBytes_of_short hemptied files hshort
      _ = (channel, files) := by
          rw [hruns, hrest]
          rfl
  rw [feed_cons, hwritten]

/-- A line that begins with a character of ASCII is shown behind what is pending. -/
theorem shown_writeLine
    {channel : Channel} (hready : channel.Ready) (files : FileTree)
    {line : Bytes} (hplain : BeginsPlainly line) (hline : LineBuffer.newline ∉ line) :
    (channel.writeBytes files (line ++ [LineBuffer.newline])).1.shown =
      channel.shown ++ [Utf8.decodeLossy channel.pending ++ LineBuffer.lineOf line] := by
  have hcut : LineBuffer.Cut (channel.pending ++ (line ++ [LineBuffer.newline])) [channel.pending ++ line] [] := by
    refine ⟨by simp, ?_, by simp⟩
    intro run hrun
    rw [List.mem_singleton.mp hrun, List.mem_append]
    rintro (hpending | hmore)
    · exact hready.in_order.pending_open hpending
    · exact hline hmore
  obtain ⟨byte, more, rfl, hascii, hreturn, -⟩ := hplain
  rw [shown_writeBytes, hcut.finishedRuns_eq, List.map_singleton,
    LineBuffer.lineOf_append channel.pending hascii hreturn]

/-- What arrives is unaffected if and only if nothing is pending. -/
theorem unaffected_iff
    {channel : Channel} (hready : channel.Ready) :
    channel.Unaffected ↔ channel.pending = [] := by
  constructor
  · intro hunaffected
    by_contra hpending
    -- A line of one letter gives away what stands before it.
    have hplain : BeginsPlainly [0x61] := ⟨0x61, [], rfl, by decide, by decide, by decide⟩
    have hline : LineBuffer.newline ∉ ([0x61] : Bytes) := by decide
    have hemptied : channel.emptied.Ready :=
      ⟨hready.in_order.withPending List.not_mem_nil, hready.cap_eq⟩
    have hevents := (hunaffected {} [[0x61] ++ [LineBuffer.newline]]).1
    have hshown : (channel.writeBytes {} ([0x61] ++ [LineBuffer.newline])).1.shown =
        (channel.emptied.writeBytes {} ([0x61] ++ [LineBuffer.newline])).1.shown :=
      congrArg (List.filterMap Event.outputLine?) hevents
    rw [shown_writeLine hready {} hplain hline, shown_writeLine hemptied {} hplain hline] at hshown
    have hsame : Utf8.decodeLossy channel.pending ++ LineBuffer.lineOf [0x61] =
        "" ++ LineBuffer.lineOf [0x61] :=
      List.singleton_inj.mp (List.append_cancel_left hshown)
    refine Utf8.decodeLossy_ne_empty hpending ?_
    rw [← String.toList_inj]
    rw [← String.toList_inj, String.toList_append, String.toList_append] at hsame
    exact List.append_cancel_right hsame
  · intro hempty files chunks
    rw [emptied_eq hempty]
    exact ⟨rfl, rfl, rfl⟩

end Channel

namespace Relay

/-- The surroundings change the relay, and nothing comes to the channel. -/
inductive Beside : Relay → Relay → Prop
  | happens {before : Relay} (happening : Happening)
      (hquiet : happening.isQuiet = true) (hadmits : before.admits happening = true) :
      Beside before (before.after happening)
  | givesUp (relay : Relay) (id : Nat) : Beside relay (relay.changeChannel (·.clearWatch id))
  | takesIn (relay : Relay) (line : String) : Beside relay (locate line relay).2

/-- A run of a task in which this output arrives. -/
inductive Hearing {α : Type} : Task Relay α → Relay → Bytes → Task Relay α → Relay → Prop
  | refl (task : Task Relay α) (relay : Relay) : Hearing task relay [] task relay
  | beside {task left : Task Relay α} {before between after : Relay} {heard : Bytes}
      (hbeside : before.Beside between)
      (hmore : Hearing task between heard left after) :
      Hearing task before heard left after
  | output {task left : Task Relay α} {before after : Relay} {heard : Bytes}
      (number : Nat) (chunk : Bytes) (hadmits : before.admits (.output number chunk) = true)
      (hmore : Hearing task (before.after (.output number chunk)) heard left after) :
      Hearing task before (chunk ++ heard) left after
  | own {task next left : Task Relay α} {before between after : Relay} {heard : Bytes}
      (htaken : task.advance? before = some (next, between))
      (hmore : Hearing next between heard left after) :
      Hearing task before heard left after

/-- Nobody writes to the channel of a relay. -/
def Untouched (before after : Relay) : Prop :=
  before.channel.Untouched after.channel

theorem Untouched.keeps : Keeps Untouched where
  refl := fun _ => ⟨rfl, rfl⟩
  slot := fun _ _ => ⟨rfl, rfl⟩
  act := fun relay act hmute => Channel.Untouched.of_mute relay.channel relay.files hmute
  spawn := fun relay => by
    unfold spawn
    split
    · exact ⟨rfl, rfl⟩
    · split <;> exact ⟨rfl, rfl⟩
  killSession := fun _ _ => ⟨rfl, rfl⟩

theorem Beside.untouched
    {before after : Relay} (h : before.Beside after) :
    before.Untouched after := by
  cases h with
  | happens happening hquiet hadmits =>
      cases happening with
      | reportEnd | exit | written | writeFailed | time | files => exact ⟨rfl, rfl⟩
      | output | outputEnd | report => cases hquiet
  | givesUp id => exact ⟨rfl, rfl⟩
  | takesIn line =>
      unfold locate
      split <;> exact ⟨rfl, rfl⟩

/-- In every run the channel hears what arrives, as long as the task writes nothing. -/
theorem Hearing.hears
    {α : Type} {task left : Task Relay α} {before after : Relay} {heard : Bytes}
    (h : Hearing task before heard left after)
    (htask : task.Within Untouched) (hready : before.channel.Ready)
    (hshort : before.channel.buffer.Short (before.channel.pending ++ heard)) :
    before.channel.Hears heard after.channel := by
  -- A step that leaves the channel untouched is heard as nothing.
  have hstep {before between after : Relay} {heard : Bytes} (hready : before.channel.Ready)
      (huntouched : before.Untouched between) (hmore : between.channel.Hears heard after.channel) :
      before.channel.Hears heard after.channel :=
    (Channel.Hears.of_same hready huntouched.buffer_eq huntouched.shown_eq).trans hmore
  have hkept {before between : Relay} {heard : Bytes} (huntouched : before.Untouched between)
      (hshort : before.channel.buffer.Short (before.channel.pending ++ heard)) :
      between.channel.buffer.Short (between.channel.pending ++ heard) := by
    rwa [Channel.pending, huntouched.buffer_eq]
  induction h with
  | refl task relay => exact .of_same hready rfl rfl
  | beside hbeside _ ih =>
      have huntouched := hbeside.untouched
      exact hstep hready huntouched
        (ih htask (hready.of_buffer_eq huntouched.buffer_eq) (hkept huntouched hshort))
  | @output task left before after heard number chunk _ _ ih =>
      have hchunk : before.channel.Hears chunk (before.after (.output number chunk)).channel :=
        .writeBytes hready before.files (hshort.of_infix ⟨[], heard, by simp⟩)
      exact hchunk.trans (ih htask (hready.writeBytes before.files chunk) (hchunk.short hshort))
  | own htaken _ ih =>
      obtain ⟨huntouched, hnext⟩ := htask.advance htaken
      exact hstep hready huntouched
        (ih hnext (hready.of_buffer_eq huntouched.buffer_eq) (hkept huntouched hshort))

/-- Output of a session arrives, chunk by chunk. -/
def takeIn (relay : Relay) (number : Nat) (chunks : List Bytes) : Relay :=
  chunks.foldl (fun relay chunk => relay.after (.output number chunk)) relay

theorem takeIn_output (relay : Relay) (number : Nat) (chunks : List Bytes) :
    ((relay.takeIn number chunks).channel, (relay.takeIn number chunks).files) =
      relay.channel.feed relay.files chunks := by
  induction chunks generalizing relay with
  | nil => rfl
  | cons chunk rest ih => exact ih (relay.after (.output number chunk))

/-- To be left alone is one of the runs in which nothing arrives. -/
theorem hearing_of_alone?
    {α : Type} {task : Task Relay α} {before after : Relay} {value : α}
    (h : task.alone? before = some (value, after)) :
    Hearing task before [] (.done value) after := by
  induction task generalizing before with
  | done other =>
      obtain ⟨rfl, rfl⟩ := Prod.mk.inj (Option.some.inj h)
      exact .refl _ _
  | step ready next rest ih =>
      by_cases hready : ready before = true
      · simp only [Task.alone?, hready, dif_pos] at h
        exact .own (by simp [Task.advance?, hready]) (ih before hready h)
      · simp [Task.alone?, hready] at h

/-- A session that wrote to an empty buffer leaves its unfinished line there. -/
theorem takeIn_buffer
    {first : Relay} (hready : first.channel.Ready) (hempty : first.channel.pending = [])
    (number : Nat) {old : List Bytes} (hold : Channel.KeptWhole old.flatten) :
    (first.takeIn number old).channel.buffer =
      first.channel.buffer.withPending (LineBuffer.unfinishedRun old.flatten) := by
  have hfed : (first.takeIn number old).channel = (first.channel.feed first.files old).1 :=
    congrArg Prod.fst (takeIn_output first number old)
  have hstream : first.channel.stream old = old.flatten := by
    rw [Channel.stream, show first.channel.buffer.pending = [] from hempty, List.nil_append]
  have hshort : first.channel.buffer.Short (first.channel.stream old) := by
    rw [hstream]
    exact hold.short hready
  rw [hfed, Channel.feed_eq hready first.files hshort, hstream]
  rfl

/-- The end of the output leaves nothing in the buffer. -/
theorem pending_outputEnd (relay : Relay) (number : Nat) (reason : StopReason) :
    (relay.after (.outputEnd number reason)).channel.pending = [] := by
  have hbuffer : (relay.after (.outputEnd number reason)).channel.buffer = relay.channel.buffer.flush.2 :=
    Channel.finish_buffer relay.channel relay.files
  rw [Channel.pending, hbuffer]
  by_cases hnone : relay.channel.buffer.pending = [] <;> simp [LineBuffer.flush, hnone]

/-- In a run of a reset in which nothing arrives, the buffer stays as it is. -/
theorem Hearing.reset_buffer
    {before middle : Relay} {left : Task Relay Unit}
    (hrun : Hearing (Demand.task .reset) before [] left middle)
    (hready : before.channel.Ready) (hshort : before.channel.buffer.Short before.channel.pending) :
    middle.channel.buffer = before.channel.buffer := by
  have hwithin : (Demand.task .reset).Within Untouched := Demand.taskOf_within Untouched.keeps.reset_within
  have hheard := hrun.hears hwithin hready (by rwa [List.append_nil])
  obtain ⟨-, hrest⟩ := LineBuffer.unfinishedRun_of_notMem hready.in_order.pending_open
  rw [hheard.buffer_eq, List.append_nil, Channel.pending, hrest]
  rfl

/-- **What a reset leaves behind.**  The line that a session did not finish when it was ended stays in the buffer, in
front of what the next session writes. -/
theorem reset_residue
    {first : Relay} (hreachable : first.Reachable) (hempty : first.channel.pending = [])
    (number : Nat) {old : List Bytes} (hold : Channel.KeptWhole old.flatten) :
    let before := first.takeIn number old
    let tail := LineBuffer.unfinishedRun old.flatten
    (∀ left middle, Hearing (Demand.task .reset) before [] left middle →
      -- Nothing that the reset does empties the buffer.
      middle.channel.pending = tail ∧
      -- What arrives is taken in as if the unfinished line had come before it to an empty buffer.
      (∀ files new, middle.channel.feed files new = middle.channel.emptied.feed files (tail :: new)) ∧
      -- The new session is unaffected if and only if the old one finished its last line.
      (middle.channel.Unaffected ↔ tail = []) ∧
      -- The first line of the new session is shown behind the unfinished one.
      ∀ files line, BeginsPlainly line → LineBuffer.newline ∉ line →
        (middle.channel.writeBytes files (line ++ [LineBuffer.newline])).1.shown =
          middle.channel.shown ++ [Utf8.decodeLossy tail ++ LineBuffer.lineOf line]) ∧
    -- So it is at whatever moments of the reset the output of the new session arrives.
    (∀ heard left middle, Hearing (Demand.task .reset) before heard left middle →
      Channel.KeptWhole (tail ++ heard) →
      middle.channel.shown = before.channel.shown ++
        (LineBuffer.finishedRuns (tail ++ heard)).map LineBuffer.lineOf) ∧
    -- The end of the output, taken in, would leave nothing.
    ∀ reason, (before.after (.outputEnd number reason)).channel.pending = [] := by
  intro before tail
  have hfirst := hreachable.channel_reachable.ready
  have hbuffer : before.channel.buffer = first.channel.buffer.withPending tail :=
    takeIn_buffer hfirst hempty number hold
  have hpending : before.channel.pending = tail := congrArg LineBuffer.pending hbuffer
  have hready : before.channel.Ready := by
    constructor
    · rw [hbuffer]
      exact hfirst.in_order.withPending (LineBuffer.cut_runs old.flatten).tail_open
    · rw [hbuffer]
      exact hfirst.cap_eq
  have htail : Channel.KeptWhole tail :=
    hold.of_infix (LineBuffer.unfinishedRun_isSuffix old.flatten).isInfix
  refine ⟨fun left middle hrun => ?_, fun heard left middle hrun hheard => ?_,
    fun reason => pending_outputEnd before number reason⟩
  · have hkept : middle.channel.buffer = before.channel.buffer :=
      hrun.reset_buffer hready (hpending ▸ htail.short hready)
    have hmiddle : middle.channel.Ready := hready.of_buffer_eq hkept
    have hleft : middle.channel.pending = tail := (congrArg LineBuffer.pending hkept).trans hpending
    refine ⟨hleft, fun files new => ?_, ?_, fun files line hplain hline => ?_⟩
    · rw [← hleft]
      exact (Channel.feed_emptied hmiddle (hleft ▸ htail.short hmiddle) files new).symm
    · rw [Channel.unaffected_iff hmiddle, hleft]
    · rw [Channel.shown_writeLine hmiddle files hplain hline, hleft]
  · have hwithin : (Demand.task .reset).Within Untouched := Demand.taskOf_within Untouched.keeps.reset_within
    have hshort : before.channel.buffer.Short (before.channel.pending ++ heard) := by
      rw [hpending]
      exact hheard.short hready
    rw [(hrun.hears hwithin hready hshort).shown_eq, hpending]

/-! ## A prompt without a newline -/

namespace PromptLeft

open UnnoticedExit (started started_reachable statement)

/-- A relay whose compiler wrote a prompt. -/
def prompted : Relay :=
  started.takeIn 0 [Utf8.encode "cm> "]

/-- The relay after a reset. -/
def renewed : Relay :=
  ((Demand.task .reset).alone? prompted).elim prompted Prod.snd

/-- The relay after a statement was sent to the new session. -/
def resumed : Relay :=
  ((Demand.task (.submit statement)).alone? renewed).elim renewed Prod.snd

theorem renewed_affected :
    Hearing (Demand.task .reset) prompted [] (.done ()) renewed ∧ ¬ renewed.channel.Unaffected := by
  have hrun : Hearing (Demand.task .reset) prompted [] (.done ()) renewed := hearing_of_alone? rfl
  have htotal : [Utf8.encode "cm> "].flatten.length = 4 := by decide +kernel
  have hshort : Channel.KeptWhole [Utf8.encode "cm> "].flatten :=
    .of_length (htotal.le.trans (by decide))
  obtain ⟨hruns, -⟩ := reset_residue started_reachable rfl 0 hshort
  obtain ⟨-, -, hiff, -⟩ := hruns _ _ hrun
  refine ⟨hrun, fun hunaffected => ?_⟩
  exact absurd (hiff.mp hunaffected) (by decide +kernel)

/-- The prompt stands before the line that the statement waits for, and the statement goes on waiting. -/
theorem prompt_before_line :
    started.Reachable ∧ started.channel.pending = [] ∧
    started.admits (.output 0 (Utf8.encode "cm> ")) = true ∧
    Task.Moves Around (Demand.task .reset) prompted (.done ()) renewed ∧
    Task.Moves Around (Demand.task (.submit statement)) renewed (.done ()) resumed ∧
    resumed.slot = .running 1 ∧ resumed.channel.shown = [] ∧
    resumed.admits (.output 1 (Utf8.encode "got second\n")) = true ∧
    (resumed.after (.output 1 (Utf8.encode "got second\n"))).channel.shown = ["cm> got second"] ∧
    (resumed.after (.output 1 (Utf8.encode "got second\n"))).channel.watch.settlement? 1 = none ∧
    -- An empty buffer would have made it the line that is waited for.
    (resumed.channel.emptied.writeBytes resumed.files (Utf8.encode "got second\n")).1.shown = ["got second"] ∧
    (resumed.channel.emptied.writeBytes resumed.files (Utf8.encode "got second\n")).1.watch.settlement? 1 =
      some (.answered (.matched "got second")) :=
  ⟨started_reachable, rfl, rfl, Task.moves_of_alone? rfl, Task.moves_of_alone? rfl, rfl, rfl, rfl,
    by decide +kernel, by decide +kernel, by decide +kernel, by decide +kernel⟩

end PromptLeft
end Relay
end CompilerRelay
