import CompilerRelay.Proofs.ChannelRun

/-!
# Output, whatever the chunks

What the channel makes of a stream of bytes is a matter of the bytes alone.

**Input.**  A reachable channel, and the chunks of a byte string.  The runs without a newline are no longer than
the cap, and nobody else changes the files meanwhile.

**Algorithm.**  `Channel.feed` takes the chunks in, one after the other; `Channel.feedToEnd` takes the end of the
output in after them.

**Invariant.**  Handling a line neither reads nor changes the buffer, so that the buffer can be set aside.

**Results.**
* `Channel.feed_eq`: after any chunks, the lines of the whole stream have been handled once and in order.
* `Channel.feed_law`: two ways to cut the same bytes give the same channel and the same files.
-/

namespace CompilerRelay
namespace Channel

/-- A channel with another buffer. -/
def withBuffer (channel : Channel) (buffer : LineBuffer) : Channel :=
  { channel with buffer }

theorem classify_withBuffer
    (channel : Channel) (buffer : LineBuffer) (tree : FileTree) (line : String) :
    (channel.withBuffer buffer).classify tree line =
      (channel.classify tree line).withBuffer buffer := by
  cases hline : OutputLine.parse line channel.root <;>
    simp only [classify, withBuffer, hline]
  rfl

/-- Handling a line neither reads nor changes the buffer. -/
theorem handleLine_withBuffer
    (channel : Channel) (buffer : LineBuffer) (tree : FileTree) (line : String) :
    (channel.withBuffer buffer).handleLine tree line =
      ((channel.handleLine tree line).1.withBuffer buffer, (channel.handleLine tree line).2) := by
  simp only [handleLine, classify_withBuffer]
  rfl

theorem handleLines_withBuffer
    (channel : Channel) (buffer : LineBuffer) (tree : FileTree) (lines : List String) :
    (channel.withBuffer buffer).handleLines tree lines =
      ((channel.handleLines tree lines).1.withBuffer buffer,
        (channel.handleLines tree lines).2) := by
  induction lines generalizing channel tree with
  | nil => rfl
  | cons line rest ih =>
      rw [handleLines_cons, handleLine_withBuffer, ih, handleLines_cons]

/-- Take in chunks, one after the other. -/
def feed (channel : Channel) (tree : FileTree) (chunks : List Bytes) : Channel × FileTree :=
  chunks.foldl (fun (channel, tree) chunk => channel.writeBytes tree chunk) (channel, tree)

/-- Take in chunks, and then the end of the output. -/
def feedToEnd (channel : Channel) (tree : FileTree) (chunks : List Bytes) : Channel × FileTree :=
  (channel.feed tree chunks).1.finish (channel.feed tree chunks).2

@[simp] theorem feed_cons
    (channel : Channel) (tree : FileTree) (chunk : Bytes) (rest : List Bytes) :
    channel.feed tree (chunk :: rest) =
      (channel.writeBytes tree chunk).1.feed (channel.writeBytes tree chunk).2 rest := rfl

/-- What is pending, with the chunks that arrive behind it. -/
def stream (channel : Channel) (chunks : List Bytes) : Bytes :=
  channel.buffer.pending ++ chunks.flatten

/-- Handle runs of bytes as the lines that they are, and keep others as the beginning of a line. -/
def handleRuns (channel : Channel) (tree : FileTree) (runs : List Bytes) (tail : Bytes) : Channel × FileTree :=
  let (handled, after) := channel.handleLines tree (runs.map LineBuffer.lineOf)
  (handled.withBuffer (channel.buffer.withPending tail), after)

theorem withPending_handleLines
    (channel : Channel) (tree : FileTree) (runs : List Bytes) (tail : Bytes) :
    (channel.withBuffer (channel.buffer.withPending tail)).handleLines tree
        (runs.map LineBuffer.lineOf) =
      channel.handleRuns tree runs tail :=
  handleLines_withBuffer channel _ tree _

/-- Runs that follow a beginning of a line are handled after those before it. -/
theorem handleRuns_handleRuns
    (channel : Channel) (tree : FileTree) (first second : List Bytes) (middle tail : Bytes) :
    (channel.handleRuns tree first middle).1.handleRuns (channel.handleRuns tree first middle).2
        second tail =
      channel.handleRuns tree (first ++ second) tail := by
  simp only [handleRuns, handleLines_withBuffer, List.map_append, handleLines_append]
  rfl

/-- While lines stay short, a chunk is the handling of the lines that it ends. -/
theorem writeBytes_of_short
    {channel : Channel} (h : channel.Ready)
    (tree : FileTree) {chunk : Bytes}
    (hshort : channel.buffer.Short (channel.buffer.pending ++ chunk)) :
    channel.writeBytes tree chunk =
      channel.handleRuns tree (LineBuffer.finishedRuns (channel.buffer.pending ++ chunk))
        (LineBuffer.unfinishedRun (channel.buffer.pending ++ chunk)) := by
  have hpush := LineBuffer.push_of_short h.in_order hshort
  have htaken :
      (channel.buffer.withPending
        (LineBuffer.unfinishedRun (channel.buffer.pending ++ chunk))).takeDropped.2 =
      channel.buffer.withPending (LineBuffer.unfinishedRun (channel.buffer.pending ++ chunk)) := by
    simp [LineBuffer.takeDropped, LineBuffer.withPending, h.in_order.dropped_zero]
  change ({ channel with buffer := (channel.buffer.push chunk).2.takeDropped.2 } : Channel).handleLines
    tree (channel.buffer.push chunk).1 = _
  rw [hpush, htaken]
  exact withPending_handleLines channel tree _ _

/-- After any chunks, the lines of the whole stream have been handled once and in order. -/
theorem feed_eq
    {channel : Channel} (h : channel.Ready)
    (tree : FileTree) {chunks : List Bytes}
    (hshort : channel.buffer.Short (channel.stream chunks)) :
    channel.feed tree chunks =
      channel.handleRuns tree (LineBuffer.finishedRuns (channel.stream chunks))
        (LineBuffer.unfinishedRun (channel.stream chunks)) := by
  induction chunks generalizing channel tree with
  | nil =>
      obtain ⟨hruns, hrest⟩ := LineBuffer.unfinishedRun_of_notMem h.in_order.pending_open
      simp only [stream, List.flatten_nil, List.append_nil, hruns, hrest]
      rfl
  | cons chunk rest ih =>
      -- The stream is what the first chunk completes, and the rest goes on with its unfinished run.
      let bytes := channel.buffer.pending ++ chunk
      let written := channel.handleRuns tree (LineBuffer.finishedRuns bytes)
        (LineBuffer.unfinishedRun bytes)
      have hstream : channel.stream (chunk :: rest) = bytes ++ rest.flatten := by
        simp [stream, bytes]
      have hfirst : channel.buffer.Short bytes := by
        intro run hrun
        exact hshort run (hrun.trans ⟨[], rest.flatten, by simp [hstream]⟩)
      have hwritten : channel.writeBytes tree chunk = written :=
        writeBytes_of_short h tree hfirst
      have hready : written.1.Ready :=
        ⟨h.in_order.withPending (LineBuffer.cut_runs bytes).tail_open, h.cap_eq⟩
      have hrest : written.1.stream rest = LineBuffer.unfinishedRun bytes ++ rest.flatten := rfl
      have hlater : written.1.buffer.Short (written.1.stream rest) := by
        intro run hrun
        refine hshort run (hrun.trans (List.IsSuffix.isInfix ?_))
        obtain ⟨front, hfront⟩ := LineBuffer.unfinishedRun_isSuffix bytes
        exact ⟨front, by rw [hrest, hstream, ← List.append_assoc, hfront]⟩
      calc channel.feed tree (chunk :: rest)
          = written.1.feed written.2 rest := by rw [feed_cons, hwritten]
        _ = written.1.handleRuns written.2
              (LineBuffer.finishedRuns (LineBuffer.unfinishedRun bytes ++ rest.flatten))
              (LineBuffer.unfinishedRun (LineBuffer.unfinishedRun bytes ++ rest.flatten)) :=
            ih hready written.2 hlater
        _ = channel.handleRuns tree (LineBuffer.finishedRuns (bytes ++ rest.flatten))
              (LineBuffer.unfinishedRun (bytes ++ rest.flatten)) := by
            rw [handleRuns_handleRuns, LineBuffer.finishedRuns_append bytes,
              LineBuffer.unfinishedRun_append bytes]
        _ = _ := by rw [hstream]

/-- What is left of a stream after its last newline, as runs. -/
def remainder (tail : Bytes) : List Bytes :=
  if tail = [] then [] else [tail]

/-- The end of the output makes a line of what no newline ended, and then who waits is told. -/
theorem finish_eq (channel : Channel) (tree : FileTree) :
    channel.finish tree =
      ((channel.handleRuns tree (remainder channel.buffer.pending) []).1.abandon,
        (channel.handleRuns tree (remainder channel.buffer.pending) []).2) := by
  have hline : channel.buffer.flush.1.toList =
      (remainder channel.buffer.pending).map LineBuffer.lineOf := by
    rw [LineBuffer.flush_fst]
    by_cases hpending : channel.buffer.pending = [] <;> simp [remainder, hpending]
  rw [← withPending_handleLines, ← hline, ← LineBuffer.flush_snd]
  rfl

theorem feedToEnd_eq
    {channel : Channel} (h : channel.Ready)
    (tree : FileTree) {chunks : List Bytes}
    (hshort : channel.buffer.Short (channel.stream chunks)) :
    let runs := LineBuffer.finishedRuns (channel.stream chunks) ++
      remainder (LineBuffer.unfinishedRun (channel.stream chunks))
    channel.feedToEnd tree chunks =
      ((channel.handleRuns tree runs []).1.abandon, (channel.handleRuns tree runs []).2) := by
  intro runs
  rw [feedToEnd, feed_eq h tree hshort, finish_eq]
  change ((Channel.handleRuns _ _ (remainder (LineBuffer.unfinishedRun (channel.stream chunks))) []).1.abandon,
    (Channel.handleRuns _ _ (remainder (LineBuffer.unfinishedRun (channel.stream chunks))) []).2) = _
  rw [handleRuns_handleRuns]

/-! ## Lines in the view -/

theorem classify_outputLines (channel : Channel) (tree : FileTree) (line : String) :
    (channel.classify tree line).events.filterMap Event.outputLine? =
      channel.events.filterMap Event.outputLine? := by
  cases hline : OutputLine.parse line channel.root with
  | diagnostic path diagnostic =>
      simp only [classify, hline, record, events_emit, List.filterMap_append]
      simp [Event.outputLine?, events]
  | definition location => simp only [classify, hline]
  | plain => simp only [classify, hline]

/-- Each line that is handled is shown once, behind those before it. -/
theorem handleLines_outputLines
    (channel : Channel) (tree : FileTree) (lines : List String) :
    (channel.handleLines tree lines).1.events.filterMap Event.outputLine? =
      channel.events.filterMap Event.outputLine? ++ lines := by
  induction lines generalizing channel tree with
  | nil => simp
  | cons line rest ih =>
      have hline : (channel.handleLine tree line).1.events =
          (channel.classify tree line).events ++ [.output line] :=
        events_emit _ _
      rw [handleLines_cons, ih, hline, List.filterMap_append, classify_outputLines]
      simp [Event.outputLine?]

/-! ## The law -/

/-- **Chunks do not matter.**  Two ways to cut the same bytes give the same channel and the same files, and
these are what one gets by handling the lines of the whole stream, each once and in order. -/
theorem feed_law
    {channel : Channel} (hreachable : channel.Reachable)
    (tree : FileTree) {first second : List Bytes}
    (hbytes : first.flatten = second.flatten)
    (hshort : ∀ run, run <:+: channel.buffer.pending ++ first.flatten →
      LineBuffer.newline ∉ run → run.length ≤ pendingLimit) :
    channel.feed tree first = channel.feed tree second ∧
    channel.feedToEnd tree first = channel.feedToEnd tree second ∧
    ∃ runs tail,
      LineBuffer.Cut (channel.buffer.pending ++ first.flatten) runs tail ∧
      channel.feed tree first = channel.handleRuns tree runs tail ∧
      channel.feedToEnd tree first =
        ((channel.handleRuns tree (runs ++ remainder tail) []).1.abandon,
          (channel.handleRuns tree (runs ++ remainder tail) []).2) ∧
      (channel.feed tree first).1.events.filterMap Event.outputLine? =
        channel.events.filterMap Event.outputLine? ++ runs.map LineBuffer.lineOf ∧
      (channel.feedToEnd tree first).1.events.filterMap Event.outputLine? =
        channel.events.filterMap Event.outputLine? ++
          (runs ++ remainder tail).map LineBuffer.lineOf := by
  have hready := hreachable.ready
  have hstream : channel.stream second = channel.stream first := by
    simp [stream, hbytes]
  have hfirst : channel.buffer.Short (channel.stream first) := by
    intro run hrun hopen most hmost
    rw [hready.cap_eq] at hmost
    obtain rfl := Option.some.inj hmost
    exact hshort run hrun hopen
  have hsecond : channel.buffer.Short (channel.stream second) := by
    rw [hstream]
    exact hfirst
  have hfeed := feed_eq hready tree hfirst
  have hfeedToEnd := feedToEnd_eq hready tree hfirst
  refine ⟨?_, ?_, _, _, LineBuffer.cut_runs (channel.stream first), hfeed, hfeedToEnd, ?_, ?_⟩
  · rw [hfeed, feed_eq hready tree hsecond, hstream]
  · rw [hfeedToEnd, feedToEnd_eq hready tree hsecond, hstream]
  · rw [hfeed]
    exact handleLines_outputLines channel tree _
  · rw [hfeedToEnd]
    exact handleLines_outputLines channel tree _

/-- A character, a return and its newline, each cut in two. -/
theorem feed_law_cut_character :
    (Channel.new ⟨"/work"⟩ ⟨"/work/out"⟩).feed {} [[0xC3], [0xA9, 0x0D], [0x0A, 0x78]] =
      (Channel.new ⟨"/work"⟩ ⟨"/work/out"⟩).feed {} [[0xC3, 0xA9, 0x0D, 0x0A], [], [0x78]] := by
  refine (feed_law (reachable_new _ _) {} rfl ?_).1
  intro run hrun hopen
  have hlength := hrun.length_le
  have htotal : (([] : Bytes) ++ [[0xC3], [0xA9, 0x0D], [0x0A, 0x78]].flatten).length = 5 := rfl
  change run.length ≤ 1048576
  change run.length ≤ (([] : Bytes) ++ [[0xC3], [0xA9, 0x0D], [0x0A, 0x78]].flatten).length at hlength
  omega

end Channel
end CompilerRelay
