import CompilerRelay.Event
import CompilerRelay.OutputLine
import CompilerRelay.OutputLog
import CompilerRelay.Template.Origin
import CompilerRelay.Watch

/-!
# The output channel

Everything that is shown to the user goes through here: what the compiler writes and what the relay has to say.

**Input.**  Bytes in chunks, texts, and requests to clear, to watch and to copy the output.

**Algorithm.**  Bytes are cut into lines.  A line is handled once, when it is complete: a diagnostic is recorded
against the file that the user edits and the list of that file is emitted; the line is shown to the watch, copied
to the log, and emitted.

**Results.**  `events_emit`: emitting appends an event.
-/

namespace CompilerRelay

/-- The state of the output. -/
structure Channel where
  buffer : LineBuffer
  watch : WatchSlot := {}
  origins : TemplateOrigins := {}
  /-- The directory that files named in diagnostics are relative to. -/
  root : Path
  /-- The diagnostics of each file since they were last cleared. -/
  recorded : PathMap (List Diagnostic) := {}
  log : OutputLog
  /-- What was emitted, newest first. -/
  emitted : List Event := []

namespace Channel

/-- The most bytes of an unfinished line that are kept. -/
def pendingLimit : Nat := 1048576

/-- A channel to which nothing was written. -/
def new (root log : Path) : Channel :=
  { buffer := { cap := some pendingLimit }, root, log := { path := log } }

/-- What was emitted, in order. -/
def events (channel : Channel) : List Event :=
  channel.emitted.reverse

/-- Emit an event. -/
def emit (channel : Channel) (event : Event) : Channel :=
  { channel with emitted := event :: channel.emitted }

@[simp] theorem events_emit (channel : Channel) (event : Event) :
    (channel.emit event).events = channel.events ++ [event] := by
  simp [events, emit]

/-- Record a diagnostic of a file and emit the list of the file. -/
def record (channel : Channel) (path : Path) (diagnostic : Diagnostic) : Channel :=
  let items := (channel.recorded.find? path).getD [] ++ [diagnostic]
  { channel with recorded := channel.recorded.insert path items }.emit (.diagnostics path items)

/-- Record what a line says of a file, if it does. -/
def classify (channel : Channel) (tree : FileTree) (line : String) : Channel :=
  match OutputLine.parse line channel.root with
  | .diagnostic path diagnostic =>
      let (edited, origins) := channel.origins.origin tree path
      { channel with origins }.record edited diagnostic
  | .definition _ | .plain => channel

/-- Handle a complete line. -/
def handleLine (channel : Channel) (tree : FileTree) (line : String) : Channel × FileTree :=
  let classified := channel.classify tree line
  let watch := (classified.watch.offer line).2
  let (log, after) := classified.log.append line tree
  ({ classified with watch, log }.emit (.output line), after)

/-- Handle lines one after the other. -/
def handleLines (channel : Channel) (tree : FileTree) (lines : List String) : Channel × FileTree :=
  lines.foldl (fun (channel, tree) line => channel.handleLine tree line) (channel, tree)

/-- Take in bytes. -/
def writeBytes (channel : Channel) (tree : FileTree) (chunk : Bytes) : Channel × FileTree :=
  let (lines, buffer) := channel.buffer.push chunk
  { channel with buffer := buffer.takeDropped.2 }.handleLines tree lines

/-- Take in a text. -/
def write (channel : Channel) (tree : FileTree) (text : String) : Channel × FileTree :=
  channel.writeBytes tree (Utf8.encode text)

/-- Take in a text and end its last line. -/
def writeBlock (channel : Channel) (tree : FileTree) (text : String) : Channel × FileTree :=
  let (written, after) := channel.write tree text
  if text.isEmpty || text.toList.getLast? == some '\n' then (written, after)
  else written.write after "\n"

/-- Take in the end of the output: the unfinished line is handled, and who waits is told. -/
def finish (channel : Channel) (tree : FileTree) : Channel × FileTree :=
  let (tail, buffer) := channel.buffer.flush
  let (flushed, after) := { channel with buffer }.handleLines tree tail.toList
  ({ flushed with watch := flushed.watch.abandon }, after)

/-- Clear the view of the output. -/
def clear (channel : Channel) : Channel :=
  channel.emit .outputCleared

/-- Forget the diagnostics. -/
def clearDiagnostics (channel : Channel) : Channel :=
  { channel with recorded := {} }.emit .diagnosticsCleared

/-- Watch for a line; the result is the number of the watch. -/
def install
    (channel : Channel) (success : String → Bool) (failure : Option (String → Bool)) : Nat × Channel :=
  let (id, watch) := channel.watch.install success failure
  (id, { channel with watch })

/-- Give a watch up, if it still waits. -/
def clearWatch (channel : Channel) (id : Nat) : Channel :=
  { channel with watch := channel.watch.clearIf id }

/-- Tell who waits that the line will not come. -/
def abandon (channel : Channel) : Channel :=
  { channel with watch := channel.watch.abandon }

/-- Forget which templates are there. -/
def forgetTemplates (channel : Channel) : Channel :=
  { channel with origins := channel.origins.forget }

/-- A location in the file that the user edits. -/
def editedLocation (channel : Channel) (tree : FileTree) (location : Location) : Location × Channel :=
  let (path, origins) := channel.origins.origin tree location.path
  ({ location with path }, { channel with origins })

/-- Begin to copy the output, at a time. -/
def enableLog (channel : Channel) (stamp : String) (tree : FileTree) : Except FileError Unit × Channel × FileTree :=
  match channel.log.enable stamp tree with
  | (.ok log, after) => (.ok (), { channel with log }, after)
  | (.error cause, after) => (.error cause, channel, after)

/-- Copy the output no more. -/
def disableLog (channel : Channel) : Channel :=
  { channel with log := channel.log.disable }

end Channel
end CompilerRelay
