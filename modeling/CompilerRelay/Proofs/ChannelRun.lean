import CompilerRelay.Channel
import CompilerRelay.Proofs.LineFraming
import CompilerRelay.Proofs.WatchHistory

/-!
# Runs of the output channel

Everything that is done to the channel, in any order, while others change the files.

**Input.**  A list of acts.  Every operation of the channel is one; so is a single complete line, since others may
change the files between two lines of one chunk; and so is such a change of the files.

**Results.**
* `Channel.Reachable`: the channel comes of a fresh one by acts.
* `Channel.Reachable.ready`: its buffer is in order and has the cap that it was made with.
* `Channel.Reachable.tracks`: its slot is what is left of the watches that were installed.
-/

namespace CompilerRelay

/-- What may be done to the channel, and what others may do to the files. -/
inductive ChannelAct where
  | writeBytes (chunk : Bytes)
  | write (text : String)
  | writeBlock (text : String)
  | line (line : String)
  | finish
  | clear
  | clearDiagnostics
  | install (success : String → Bool) (failure : Option (String → Bool))
  | clearWatch (id : Nat)
  | abandon
  | forgetTemplates
  | locate (location : Location)
  | enableLog (stamp : String)
  | disableLog
  | notify (message : String)
  | sessionStopped (reason : StopReason)
  /-- Others change the files. -/
  | files (after : FileTree)

/-- Whether an act installs a watch. -/
def ChannelAct.isInstall : ChannelAct → Bool
  | .install _ _ => true
  | _ => false

namespace Channel

/-! ## What handling lines changes -/

@[simp] theorem classify_buffer (channel : Channel) (tree : FileTree) (line : String) :
    (channel.classify tree line).buffer = channel.buffer := by
  unfold classify
  split <;> rfl

@[simp] theorem classify_watch (channel : Channel) (tree : FileTree) (line : String) :
    (channel.classify tree line).watch = channel.watch := by
  unfold classify
  split <;> rfl

@[simp] theorem classify_log (channel : Channel) (tree : FileTree) (line : String) :
    (channel.classify tree line).log = channel.log := by
  unfold classify
  split <;> rfl

@[simp] theorem handleLine_buffer (channel : Channel) (tree : FileTree) (line : String) :
    (channel.handleLine tree line).1.buffer = channel.buffer :=
  classify_buffer channel tree line

@[simp] theorem handleLine_watch (channel : Channel) (tree : FileTree) (line : String) :
    (channel.handleLine tree line).1.watch = (channel.watch.offer line).2 := by
  change ((channel.classify tree line).watch.offer line).2 = _
  rw [classify_watch]

/-- Handling a line copies it to the log. -/
theorem handleLine_log (channel : Channel) (tree : FileTree) (line : String) :
    (channel.handleLine tree line).1.log = (channel.log.append line tree).1 := by
  change ((channel.classify tree line).log.append line tree).1 = _
  rw [classify_log]

/-- Nothing else is done to the files. -/
theorem handleLine_files (channel : Channel) (tree : FileTree) (line : String) :
    (channel.handleLine tree line).2 = (channel.log.append line tree).2 := by
  change ((channel.classify tree line).log.append line tree).2 = _
  rw [classify_log]

@[simp] theorem handleLines_nil (channel : Channel) (tree : FileTree) :
    channel.handleLines tree [] = (channel, tree) := rfl

@[simp] theorem handleLines_cons
    (channel : Channel) (tree : FileTree) (line : String) (rest : List String) :
    channel.handleLines tree (line :: rest) =
      (channel.handleLine tree line).1.handleLines (channel.handleLine tree line).2 rest := rfl

theorem handleLines_append
    (channel : Channel) (tree : FileTree) (first second : List String) :
    channel.handleLines tree (first ++ second) =
      (channel.handleLines tree first).1.handleLines (channel.handleLines tree first).2 second :=
  List.foldl_append

@[simp] theorem handleLines_buffer
    (channel : Channel) (tree : FileTree) (lines : List String) :
    (channel.handleLines tree lines).1.buffer = channel.buffer := by
  induction lines generalizing channel tree with
  | nil => rfl
  | cons line rest ih => rw [handleLines_cons, ih, handleLine_buffer]

/-- Lines are offered to the watch that waits, one after the other. -/
theorem handleLines_watch
    (channel : Channel) (tree : FileTree) (lines : List String) :
    (channel.handleLines tree lines).1.watch =
      channel.watch.performAll (lines.map WatchRequest.offer) := by
  induction lines generalizing channel tree with
  | nil => rfl
  | cons line rest ih =>
      rw [handleLines_cons, ih, handleLine_watch, List.map_cons, WatchSlot.performAll_cons]
      rfl

/-! ## Acts -/

/-- Do one thing. -/
def perform (state : Channel × FileTree) : ChannelAct → Channel × FileTree
  | .writeBytes chunk => state.1.writeBytes state.2 chunk
  | .write text => state.1.write state.2 text
  | .writeBlock text => state.1.writeBlock state.2 text
  | .line line => state.1.handleLine state.2 line
  | .finish => state.1.finish state.2
  | .clear => (state.1.clear, state.2)
  | .clearDiagnostics => (state.1.clearDiagnostics, state.2)
  | .install success failure => ((state.1.install success failure).2, state.2)
  | .clearWatch id => (state.1.clearWatch id, state.2)
  | .abandon => (state.1.abandon, state.2)
  | .forgetTemplates => (state.1.forgetTemplates, state.2)
  | .locate location => ((state.1.editedLocation state.2 location).2, state.2)
  | .enableLog stamp => (state.1.enableLog stamp state.2).2
  | .disableLog => (state.1.disableLog, state.2)
  | .notify message => (state.1.emit (.notification message), state.2)
  | .sessionStopped reason => (state.1.emit (.sessionStopped reason), state.2)
  | .files after => (state.1, after)

/-- Do one thing after the other. -/
def performAll (state : Channel × FileTree) (acts : List ChannelAct) : Channel × FileTree :=
  acts.foldl perform state

@[simp] theorem performAll_nil (state : Channel × FileTree) :
    performAll state [] = state := rfl

@[simp] theorem performAll_cons
    (state : Channel × FileTree) (act : ChannelAct) (rest : List ChannelAct) :
    performAll state (act :: rest) = performAll (perform state act) rest := rfl

theorem performAll_append
    (state : Channel × FileTree) (first second : List ChannelAct) :
    performAll state (first ++ second) = performAll (performAll state first) second :=
  List.foldl_append

/-- The channel comes of a fresh one by acts. -/
def Reachable (channel : Channel) : Prop :=
  ∃ root log tree acts, (performAll (Channel.new root log, tree) acts).1 = channel

theorem reachable_new (root log : Path) : (Channel.new root log).Reachable :=
  ⟨root, log, {}, [], rfl⟩

/-- Acts go on from a reachable channel, whatever the files are by then. -/
theorem Reachable.performAll
    {channel : Channel} (h : channel.Reachable)
    (tree : FileTree) (acts : List ChannelAct) :
    (Channel.performAll (channel, tree) acts).1.Reachable := by
  obtain ⟨root, log, first, before, rfl⟩ := h
  refine ⟨root, log, first, before ++ .files tree :: acts, ?_⟩
  rw [performAll_append, performAll_cons]
  rfl

/-! ## The buffer -/

/-- The buffer of a channel between two acts. -/
structure Ready (channel : Channel) : Prop where
  in_order : channel.buffer.InOrder
  cap_eq : channel.buffer.cap = some pendingLimit

/-- Only the buffer counts. -/
theorem Ready.of_buffer_eq
    {channel other : Channel} (h : channel.Ready)
    (hbuffer : other.buffer = channel.buffer) :
    other.Ready := by
  obtain ⟨horder, hcap⟩ := h
  rw [← hbuffer] at horder hcap
  exact ⟨horder, hcap⟩

theorem ready_new (root log : Path) : (Channel.new root log).Ready :=
  ⟨⟨by simp [Channel.new], rfl⟩, rfl⟩

theorem writeBytes_buffer (channel : Channel) (tree : FileTree) (chunk : Bytes) :
    (channel.writeBytes tree chunk).1.buffer = (channel.buffer.push chunk).2.takeDropped.2 :=
  handleLines_buffer _ tree _

theorem Ready.writeBytes
    {channel : Channel} (h : channel.Ready)
    (tree : FileTree) (chunk : Bytes) :
    (channel.writeBytes tree chunk).1.Ready := by
  refine ⟨?_, ?_⟩
  · rw [writeBytes_buffer]
    exact LineBuffer.inOrder_push channel.buffer chunk
  · rw [writeBytes_buffer]
    exact h.cap_eq

theorem Ready.writeBlock
    {channel : Channel} (h : channel.Ready)
    (tree : FileTree) (text : String) :
    (channel.writeBlock tree text).1.Ready := by
  have hwritten : (channel.write tree text).1.Ready := h.writeBytes tree (Utf8.encode text)
  simp only [Channel.writeBlock]
  split
  · exact hwritten
  · exact hwritten.writeBytes _ (Utf8.encode "\n")

theorem finish_buffer (channel : Channel) (tree : FileTree) :
    (channel.finish tree).1.buffer = channel.buffer.flush.2 :=
  handleLines_buffer _ tree _

theorem Ready.finish
    {channel : Channel} (h : channel.Ready)
    (tree : FileTree) :
    (channel.finish tree).1.Ready := by
  refine ⟨?_, ?_⟩
  · rw [finish_buffer]
    exact LineBuffer.inOrder_flush h.in_order
  · rw [finish_buffer, LineBuffer.flush_snd]
    exact h.cap_eq

@[simp] theorem enableLog_buffer (channel : Channel) (stamp : String) (tree : FileTree) :
    (channel.enableLog stamp tree).2.1.buffer = channel.buffer := by
  unfold enableLog
  split <;> rfl

theorem Ready.perform
    {state : Channel × FileTree} (h : state.1.Ready)
    (act : ChannelAct) :
    (perform state act).1.Ready := by
  cases act with
  | writeBytes chunk => exact h.writeBytes state.2 chunk
  | write text => exact h.writeBytes state.2 (Utf8.encode text)
  | writeBlock text => exact h.writeBlock state.2 text
  | line line => exact h.of_buffer_eq (handleLine_buffer state.1 state.2 line)
  | finish => exact h.finish state.2
  | enableLog stamp => exact h.of_buffer_eq (enableLog_buffer state.1 stamp state.2)
  | clear | clearDiagnostics | install | clearWatch | abandon | forgetTemplates | locate
  | disableLog | notify | sessionStopped | files =>
      exact h.of_buffer_eq rfl

theorem Ready.performAll
    {state : Channel × FileTree} (h : state.1.Ready)
    (acts : List ChannelAct) :
    (performAll state acts).1.Ready := by
  induction acts generalizing state with
  | nil => exact h
  | cons act rest ih => exact ih (h.perform act)

theorem Reachable.ready
    {channel : Channel}
    (h : channel.Reachable) :
    channel.Ready := by
  obtain ⟨root, log, tree, acts, rfl⟩ := h
  have hnew : (Channel.new root log, tree).1.Ready := ready_new root log
  exact hnew.performAll acts

/-! ## The slot -/

theorem finish_watch (channel : Channel) (tree : FileTree) :
    (channel.finish tree).1.watch =
      channel.watch.performAll (channel.buffer.flush.1.toList.map WatchRequest.offer ++ [.abandon]) := by
  rw [WatchSlot.performAll_append]
  change WatchSlot.abandon (Channel.handleLines _ tree _).1.watch = _
  rw [handleLines_watch]
  rfl

@[simp] theorem enableLog_watch (channel : Channel) (stamp : String) (tree : FileTree) :
    (channel.enableLog stamp tree).2.1.watch = channel.watch := by
  unfold enableLog
  split <;> rfl

theorem writeBytes_watch (channel : Channel) (tree : FileTree) (chunk : Bytes) :
    (channel.writeBytes tree chunk).1.watch =
      channel.watch.performAll ((channel.buffer.push chunk).1.map WatchRequest.offer) :=
  handleLines_watch _ tree _

/-- All that an act does to the slot is a list of requests, and only one that installs a watch has such a request. -/
theorem perform_watch (state : Channel × FileTree) (act : ChannelAct) :
    ∃ requests, (perform state act).1.watch = state.1.watch.performAll requests ∧
      requests.countP WatchRequest.isInstall = if act.isInstall then 1 else 0 := by
  have hoffers (lines : List String) : (lines.map WatchRequest.offer).countP WatchRequest.isInstall = 0 := by
    simp [List.countP_eq_zero, WatchRequest.isInstall]
  cases act with
  | writeBytes chunk => exact ⟨_, writeBytes_watch state.1 state.2 chunk, hoffers _⟩
  | write text => exact ⟨_, writeBytes_watch state.1 state.2 (Utf8.encode text), hoffers _⟩
  | writeBlock text =>
      simp only [perform, writeBlock]
      split
      · exact ⟨_, writeBytes_watch state.1 state.2 (Utf8.encode text), hoffers _⟩
      · -- The newline is written to the channel that the text has left behind.
        refine ⟨(state.1.buffer.push (Utf8.encode text)).1.map WatchRequest.offer ++
          ((state.1.write state.2 text).1.buffer.push (Utf8.encode "\n")).1.map WatchRequest.offer, ?_, ?_⟩
        · rw [WatchSlot.performAll_append, ← writeBytes_watch state.1 state.2]
          exact writeBytes_watch (state.1.write state.2 text).1 _ (Utf8.encode "\n")
        · rw [List.countP_append, hoffers, hoffers]
          rfl
  | line line => exact ⟨[.offer line], handleLine_watch state.1 state.2 line, rfl⟩
  | finish =>
      refine ⟨_, finish_watch state.1 state.2, ?_⟩
      rw [List.countP_append, hoffers]
      rfl
  | install success failure => exact ⟨[.install success failure], rfl, rfl⟩
  | clearWatch id => exact ⟨[.clearIf id], rfl, rfl⟩
  | abandon => exact ⟨[.abandon], rfl, rfl⟩
  | enableLog stamp => exact ⟨[], enableLog_watch state.1 stamp state.2, rfl⟩
  | clear | clearDiagnostics | forgetTemplates | locate | disableLog | notify | sessionStopped
  | files =>
      exact ⟨[], rfl, rfl⟩

theorem performAll_watch (state : Channel × FileTree) (acts : List ChannelAct) :
    ∃ requests, (performAll state acts).1.watch = state.1.watch.performAll requests := by
  induction acts generalizing state with
  | nil => exact ⟨[], rfl⟩
  | cons act rest ih =>
      obtain ⟨first, hfirst, -⟩ := perform_watch state act
      obtain ⟨second, hsecond⟩ := ih (perform state act)
      refine ⟨first ++ second, ?_⟩
      rw [performAll_cons, hsecond, hfirst, WatchSlot.performAll_append]

/-- The slot of a channel is what is left of the watches that were installed. -/
theorem Reachable.tracks
    {channel : Channel}
    (h : channel.Reachable) :
    ∃ watches, channel.watch.Tracks watches := by
  obtain ⟨root, log, tree, acts, rfl⟩ := h
  obtain ⟨requests, hrequests⟩ := performAll_watch (Channel.new root log, tree) acts
  exact ⟨WatchSlot.installed requests, by
    rw [hrequests]
    exact WatchSlot.tracks_performAll requests⟩

end Channel
end CompilerRelay
