import CompilerRelay.Proofs.Chunking
import CompilerRelay.Proofs.TextDecoding

/-!
# One stream for all that is written

Whoever writes to the channel, the bytes go into one buffer.

**Input.**  Acts on a channel between two chunks; no line is handled past the buffer, and the buffer is not flushed.

**Form.**  `Channel.Hears before bytes after`: between the two states the channel took in these bytes, and it shows the
lines that they finish.

**Results.**
* `Channel.Hears.trans`: what is heard later goes on with what was heard before.
* `Channel.hears_performAll`: after any acts the channel has heard their bytes, one after the other.
-/

namespace CompilerRelay
namespace LineBuffer

/-- What is short stays short in every part. -/
theorem Short.of_infix
    {buffer : LineBuffer} {bytes part : Bytes}
    (h : buffer.Short bytes) (hpart : part <:+: bytes) :
    buffer.Short part :=
  fun run hrun => h run (hrun.trans hpart)

/-- Bytes that come later go on with the unfinished run. -/
theorem unfinishedRun_append_infix (first second : Bytes) :
    unfinishedRun first ++ second <:+: first ++ second := by
  obtain ⟨front, hfront⟩ := unfinishedRun_isSuffix first
  exact ⟨front, [], by rw [List.append_nil, ← List.append_assoc, hfront]⟩

/-- A text that ends with a newline leaves nothing unfinished. -/
theorem unfinishedRun_newline (bytes : Bytes) :
    unfinishedRun (bytes ++ [newline]) = [] := by
  rw [unfinishedRun_append]
  have hcut : Cut (unfinishedRun bytes ++ [newline]) [unfinishedRun bytes] [] := by
    refine ⟨by simp, ?_, by simp⟩
    intro run hrun
    rw [List.mem_singleton.mp hrun]
    exact (cut_runs bytes).tail_open
  exact hcut.unfinishedRun_eq

end LineBuffer

namespace ChannelAct

/-- The bytes of a text with its last line ended. -/
def blockBytes (text : String) : Bytes :=
  if text.isEmpty || text.toList.getLast? == some '\n' then Utf8.encode text
  else Utf8.encode text ++ [LineBuffer.newline]

/-- The bytes that an act puts into the buffer. -/
def bytes : ChannelAct → Bytes
  | .writeBytes chunk => chunk
  | .write text => Utf8.encode text
  | .writeBlock text => blockBytes text
  | .line _ | .finish | .clear | .clearDiagnostics | .install _ _ | .clearWatch _ | .abandon | .forgetTemplates
  | .locate _ | .enableLog _ | .disableLog | .notify _ | .sessionStopped _ | .files _ => []

/-- Whether all that an act shows comes out of the buffer by newlines. -/
def isBuffered : ChannelAct → Bool
  | .line _ | .finish => false
  | .writeBytes _ | .write _ | .writeBlock _ | .clear | .clearDiagnostics | .install _ _ | .clearWatch _ | .abandon
  | .forgetTemplates | .locate _ | .enableLog _ | .disableLog | .notify _ | .sessionStopped _ | .files _ => true

end ChannelAct

namespace Channel

/-- The lines that were shown, in order. -/
def shown (channel : Channel) : List String :=
  channel.events.filterMap Event.outputLine?

/-- The bytes of an unfinished line. -/
def pending (channel : Channel) : Bytes :=
  channel.buffer.pending

/-- No line in the bytes is longer than what is kept of one. -/
def KeptWhole (bytes : Bytes) : Prop :=
  ∀ run, run <:+: bytes → LineBuffer.newline ∉ run → run.length ≤ pendingLimit

theorem KeptWhole.of_infix
    {bytes part : Bytes} (h : KeptWhole bytes) (hpart : part <:+: bytes) :
    KeptWhole part :=
  fun run hrun => h run (hrun.trans hpart)

theorem KeptWhole.of_length
    {bytes : Bytes} (h : bytes.length ≤ pendingLimit) :
    KeptWhole bytes :=
  fun _ hrun _ => hrun.length_le.trans h

theorem KeptWhole.short
    {bytes : Bytes} (h : KeptWhole bytes) {channel : Channel} (hready : channel.Ready) :
    channel.buffer.Short bytes := by
  intro run hrun hopen most hmost
  rw [hready.cap_eq] at hmost
  obtain rfl := Option.some.inj hmost
  exact h run hrun hopen

/-- The lines that a chunk ends are shown. -/
theorem shown_writeBytes (channel : Channel) (tree : FileTree) (chunk : Bytes) :
    (channel.writeBytes tree chunk).1.shown =
      channel.shown ++ (LineBuffer.finishedRuns (channel.pending ++ chunk)).map LineBuffer.lineOf :=
  handleLines_outputLines _ tree _

/-- Between two states the channel takes in bytes and shows the lines that they finish. -/
structure Hears (before : Channel) (bytes : Bytes) (after : Channel) : Prop where
  buffer_eq : after.buffer =
    before.buffer.withPending (LineBuffer.unfinishedRun (before.pending ++ bytes))
  shown_eq : after.shown =
    before.shown ++ (LineBuffer.finishedRuns (before.pending ++ bytes)).map LineBuffer.lineOf

namespace Hears

variable {before between after channel : Channel} {bytes more : Bytes}

theorem pending_eq
    (h : before.Hears bytes after) :
    after.pending = LineBuffer.unfinishedRun (before.pending ++ bytes) :=
  congrArg LineBuffer.pending h.buffer_eq

/-- What is short for a channel is short for what becomes of it. -/
theorem short
    (h : before.Hears bytes after)
    (hshort : before.buffer.Short (before.pending ++ (bytes ++ more))) :
    after.buffer.Short (after.pending ++ more) := by
  have hparts : before.buffer.Short (after.pending ++ more) := by
    refine hshort.of_infix ?_
    rw [h.pending_eq, ← List.append_assoc]
    exact LineBuffer.unfinishedRun_append_infix _ more
  rw [h.buffer_eq]
  exact hparts

/-- A channel that takes in nothing. -/
theorem of_same
    (hready : before.Ready)
    (hbuffer : after.buffer = before.buffer) (hshown : after.shown = before.shown) :
    before.Hears [] after := by
  obtain ⟨hruns, hrest⟩ := LineBuffer.unfinishedRun_of_notMem hready.in_order.pending_open
  constructor
  · rw [hbuffer, List.append_nil, pending, hrest]
    rfl
  · rw [hshown, List.append_nil, pending, hruns]
    simp

/-- What is heard later goes on with what was heard before. -/
theorem trans
    (hfirst : before.Hears bytes between) (hsecond : between.Hears more after) :
    before.Hears (bytes ++ more) after := by
  constructor
  · rw [hsecond.buffer_eq, hfirst.pending_eq, hfirst.buffer_eq, ← List.append_assoc,
      LineBuffer.unfinishedRun_append (before.pending ++ bytes)]
    rfl
  · rw [hsecond.shown_eq, hfirst.shown_eq, hfirst.pending_eq, ← List.append_assoc,
      LineBuffer.finishedRuns_append (before.pending ++ bytes), List.map_append, List.append_assoc]

/-- A chunk is heard. -/
theorem writeBytes
    (hready : channel.Ready) (tree : FileTree) {chunk : Bytes}
    (hshort : channel.buffer.Short (channel.pending ++ chunk)) :
    channel.Hears chunk (channel.writeBytes tree chunk).1 := by
  rw [writeBytes_of_short hready tree hshort]
  constructor
  · rfl
  · exact handleLines_outputLines channel tree _

theorem writeBlock
    (hready : channel.Ready) (tree : FileTree) {text : String}
    (hshort : channel.buffer.Short (channel.pending ++ ChannelAct.blockBytes text)) :
    channel.Hears (ChannelAct.blockBytes text) (channel.writeBlock tree text).1 := by
  unfold ChannelAct.blockBytes at hshort ⊢
  unfold Channel.writeBlock
  simp only
  split
  · next hended =>
      rw [if_pos hended] at hshort
      exact writeBytes hready tree hshort
  · next hopen =>
      -- The newline is heard by the channel that the text has left behind.
      rw [if_neg hopen] at hshort
      have htext : channel.Hears (Utf8.encode text) (channel.write tree text).1 :=
        writeBytes hready tree (hshort.of_infix ⟨[], [LineBuffer.newline], by simp⟩)
      exact htext.trans (writeBytes (hready.writeBytes tree _) _ (htext.short hshort))

end Hears

theorem shown_emit
    (channel : Channel) {event : Event}
    (hevent : event.outputLine? = none) :
    (channel.emit event).shown = channel.shown := by
  simp [shown, hevent]

/-- An act is heard by its bytes. -/
theorem hears_perform
    {state : Channel × FileTree} (hready : state.1.Ready)
    {act : ChannelAct} (hbuffered : act.isBuffered = true)
    (hshort : state.1.buffer.Short (state.1.pending ++ act.bytes)) :
    state.1.Hears act.bytes (perform state act).1 := by
  cases act with
  | writeBytes chunk => exact .writeBytes hready state.2 hshort
  | write text => exact .writeBytes hready state.2 hshort
  | writeBlock text => exact .writeBlock hready state.2 hshort
  | line line => cases hbuffered
  | finish => cases hbuffered
  | clear => exact .of_same hready rfl (shown_emit state.1 rfl)
  | clearDiagnostics => exact .of_same hready rfl (shown_emit { state.1 with recorded := {} } rfl)
  | notify message => exact .of_same hready rfl (shown_emit state.1 rfl)
  | sessionStopped reason => exact .of_same hready rfl (shown_emit state.1 rfl)
  | enableLog stamp =>
      refine .of_same hready (enableLog_buffer state.1 stamp state.2) ?_
      simp only [perform, enableLog]
      split <;> rfl
  | install | clearWatch | abandon | forgetTemplates | locate | disableLog | files =>
      exact .of_same hready rfl rfl

/-- Acts are heard by their bytes, one after the other. -/
theorem hears_performAll
    {state : Channel × FileTree} (hready : state.1.Ready)
    {acts : List ChannelAct} (hbuffered : ∀ act ∈ acts, act.isBuffered = true)
    (hshort : state.1.buffer.Short (state.1.pending ++ acts.flatMap ChannelAct.bytes)) :
    state.1.Hears (acts.flatMap ChannelAct.bytes) (performAll state acts).1 := by
  induction acts generalizing state with
  | nil => exact .of_same hready rfl rfl
  | cons act rest ih =>
      rw [List.flatMap_cons] at hshort ⊢
      have hact : state.1.Hears act.bytes (perform state act).1 :=
        hears_perform hready (hbuffered act (by simp))
          (hshort.of_infix ⟨[], rest.flatMap ChannelAct.bytes, by simp⟩)
      exact hact.trans (ih (hready.perform act)
        (fun other hother => hbuffered other (List.mem_cons_of_mem act hother)) (hact.short hshort))

end Channel
end CompilerRelay
