import CompilerRelay.Message
import CompilerRelay.Relay.Editing
import CompilerRelay.Request.Reader

/-!
# The bridge to the editor

Requests come in as lines and answers and events leave as lines.

**Algorithm.**  Requests are carried out one after the other, in the order in which they came.  A statement or a
look-up that was sent is answered by a task of its own, so that the next request need not wait for it.  Events are
applied to the store and then sent, one by one and in order, while requests are carried out.  At the end of the
requests, or at the request to shut down, the session is ended; what is still to be told is told.

**Results.**  `messages_post`: a message that is sent comes after those before.
-/

namespace CompilerRelay

/-- The state of the bridge. -/
structure Bridge where
  relay : Relay
  /-- The diagnostics as the editor knows them. -/
  store : Store := {}
  /-- How many events were applied to the store. -/
  applied : Nat := 0
  /-- How many events were sent. -/
  forwarded : Nat := 0
  /-- Whether events are still sent. -/
  forwarding : Bool := true
  /-- The messages that were sent, newest first. -/
  sent : List Message := []
  /-- The tasks that answer requests on their own. -/
  pending : List (Task Relay Message) := []
  /-- The bytes that came in and were not read. -/
  input : Bytes := []
  /-- Whether no more bytes come in. -/
  inputClosed : Bool := false

namespace Bridge

/-- The messages that were sent, in order. -/
def messages (bridge : Bridge) : List Message :=
  bridge.sent.reverse

/-- The events of the relay, in order. -/
def events (bridge : Bridge) : List Event :=
  bridge.relay.channel.events

/-- Send a message. -/
def post (message : Message) (bridge : Bridge) : Bridge :=
  { bridge with sent := message :: bridge.sent }

@[simp] theorem messages_post (message : Message) (bridge : Bridge) :
    (bridge.post message).messages = bridge.messages ++ [message] := by
  simp [messages, post]

/-! ## What happens on its own -/

/-- Apply the next event to the store. -/
def applyEvent? (bridge : Bridge) : Option Bridge :=
  if bridge.forwarding && bridge.applied = bridge.forwarded then
    bridge.events[bridge.applied]?.map fun event =>
      { bridge with store := bridge.store.apply event, applied := bridge.applied + 1 }
  else none

/-- Send the event that was applied last. -/
def forwardEvent? (bridge : Bridge) : Option Bridge :=
  if bridge.forwarding && bridge.applied ≠ bridge.forwarded then
    bridge.events[bridge.forwarded]?.map fun event =>
      { bridge.post (Message.ofEvent event) with forwarded := bridge.forwarded + 1 }
  else none

/-- Let the task with a place among those that answer take its next step. -/
def answer? (bridge : Bridge) (place : Nat) : Option Bridge :=
  match bridge.pending[place]? with
  | none => none
  | some (.done message) => some { bridge.post message with pending := bridge.pending.eraseIdx place }
  | some task =>
      (task.advance? bridge.relay).map fun (left, relay) =>
        { bridge with relay, pending := bridge.pending.set place left }

/-- What may happen to the bridge on its own. -/
inductive Changes : Bridge → Bridge → Prop where
  | relay {bridge : Bridge} {after : Relay} (change : bridge.relay.Changes after) :
      Changes bridge { bridge with relay := after }
  | apply {before after : Bridge} (done : before.applyEvent? = some after) : Changes before after
  | forward {before after : Bridge} (done : before.forwardEvent? = some after) : Changes before after
  | answer {before after : Bridge} (place : Nat) (done : before.answer? place = some after) : Changes before after
  | arrive {bridge : Bridge} (bytes : Bytes) (isOpen : bridge.inputClosed = false) :
      Changes bridge { bridge with input := bridge.input ++ bytes }
  | close (bridge : Bridge) : Changes bridge { bridge with inputClosed := true }

/-! ## Requests -/

/-- A task of the relay as a task of the bridge. -/
def onRelay (task : Task Relay α) : Task Bridge α :=
  task.zoom Bridge.relay fun relay bridge => { bridge with relay }

/-- An operation of the relay as one of the bridge. -/
def operate (operation : Operation α) : ExceptT Failure (Task Bridge) α :=
  ExceptT.mk (onRelay operation.run)

/-- Send a message. -/
def send (message : Message) : Task Bridge Unit :=
  Task.update (post message)

/-- Let a task answer on its own. -/
def answerLater (task : Task Relay Message) : Task Bridge Unit :=
  Task.update fun bridge => { bridge with pending := bridge.pending ++ [task] }

/-- The answer to an operation: a message made from its result, or an error. -/
def answerOf (id : Option Nat) (message : α → Message) (operation : Operation α) : Task Relay Message := do
  match ← operation.run with
  | .ok value => return message value
  | .error failure => return .error id failure.message

/-- The answer to a statement that was settled by a line. -/
def matchedMessage (id : Option Nat) (line : String) : Message :=
  .statement id .matched (some line)

/-- Carry a statement out; the answer comes now only if it was skipped. -/
def runStatement (id : Option Nat) (request : StatementRequest) : ExceptT Failure (Task Bridge) (Option Message) := do
  let compiled ← operate (Relay.compile request.code request.success request.failure)
  match ← operate (Relay.submit { compiled with start := request.start, keepOutput := request.keepOutput }) with
  | none => return some (.statement id .skipped none)
  | some watch =>
      ExceptT.lift (answerLater (answerOf id (matchedMessage id) watch.wait))
      return none

/-- Look a definition up; the answer comes later. -/
def lookUp (id : Option Nat) (file : Path) (offset : Nat) : ExceptT Failure (Task Bridge) (Option Message) := do
  let watch ← operate (Relay.submitGoto file offset)
  ExceptT.lift (answerLater (answerOf id (Message.ofLocation id) watch.waitLocation))
  return none

/-- Carry an operation out and answer with a message made from its result. -/
def reply (message : α → Message) (operation : Operation α) : ExceptT Failure (Task Bridge) (Option Message) := do
  return some (message (← operate operation))

/-- An answer that tells nothing but success. -/
def done (id : Option Nat) : α → Message :=
  fun _ => .ok id none

/-- Carry a request out; the result is the answer, or nothing if it comes later. -/
def dispatch (id : Option Nat) : Request → ExceptT Failure (Task Bridge) (Option Message)
  | .start => reply (done id) Relay.start
  | .stop => reply (done id) Relay.stop
  | .reset => reply (done id) Relay.reset
  | .clean => reply (done id) Relay.clean
  | .cleanTemplates => reply (done id) Relay.cleanTemplates
  | .compileFile file => reply (Message.okWithPath id) (Relay.compileFile file)
  | .compileWorkspace directory => reply (done id) (Relay.compileWorkspace directory)
  | .compileFolders directories => reply (done id) (Relay.compileFolders directories)
  | .runCurrentFile file => reply (Message.okWithPath id) (Relay.runFile file)
  | .loadAllKnown file => reply (done id) (Relay.loadAll file)
  | .run code => reply (done id) (Relay.run code)
  | .runIfStarted code => reply (done id) (Relay.runIfStarted code)
  | .runStatement statement => runStatement id statement
  | .goto file offset => lookUp id file offset
  | .quitDebug => reply (done id) Relay.quitDebug
  | .outputFile true => reply (Message.okWithPath id) Relay.startLog
  | .outputFile false => reply (done id) Relay.stopLog
  | .diagnostics => do
      let snapshot ← ExceptT.lift (Task.look fun bridge : Bridge => bridge.store.snapshot)
      return some (Message.ofSnapshot id snapshot)
  | .shutdown => return some (.ok id none)

/-- Carry a request out and answer it, unless the answer comes later. -/
def handle (envelope : Envelope) : Task Bridge Unit := do
  match ← (dispatch envelope.id envelope.request).run with
  | .ok (some message) => send message
  | .ok none => return
  | .error failure => send (.error envelope.id failure.message)

/-- The answer to a line that is no request. -/
def invalidMessage (fault : Json.Fault) (line : String) : Message :=
  .error none ("invalid request: " ++ fault.message line)

/-- Take in a line; the result says whether it asked to shut down. -/
def receive (line : String) : Task Bridge Bool := do
  if (Text.trim line.toList).isEmpty then return false
  match Envelope.read line with
  | .error fault => do
      send (invalidMessage fault line)
      return false
  | .ok envelope => do
      handle envelope
      return envelope.request == .shutdown

/-! ## Serving -/

/-- A line of the input with its newline, and the bytes after it. -/
def cutLine? (bridge : Bridge) : Option (Option Bytes × Bytes) :=
  match Text.splitOn LineBuffer.newline bridge.input with
  | line :: next :: rest =>
      some (some (line ++ [LineBuffer.newline]), Text.join [LineBuffer.newline] (next :: rest))
  | _ =>
      if !bridge.inputClosed then none
      else if bridge.input.isEmpty then some (none, [])
      else some (some bridge.input, [])

/-- Read a line of the input, once it is there; nothing at the end. -/
def readLine : Task Bridge (Option Bytes) :=
  Task.take fun bridge => bridge.cutLine?.map fun (line, input) => (line, { bridge with input })

/-- The text of a line, without its newline and a carriage return before that. -/
def lineText (line : Bytes) : Except Utf8.Fault String :=
  (Utf8.decode? line).map fun text =>
    if text.toList.getLast? = some '\n' then String.ofList (LineBuffer.dropReturnChar text.toList.dropLast) else text

/-- How long the last events may take, in milliseconds. -/
def drainLimit : Nat := 2000

/-- Whether every event was sent and none can come any more. -/
def isDrained (bridge : Bridge) : Bool :=
  bridge.forwarded == bridge.relay.channel.emitted.length && !bridge.relay.isRead

/-- End the session and send what is still to be told. -/
def finish : Task Bridge Unit := do
  let _ ← onRelay Relay.endSession.run
  let start ← Task.look fun bridge : Bridge => bridge.relay.clock
  let drained ← Task.await fun bridge : Bridge =>
    if bridge.isDrained then some true
    else if start + drainLimit ≤ bridge.relay.clock then some false
    else none
  if !drained then Task.update fun bridge : Bridge => { bridge with forwarding := false }
  Task.await fun bridge : Bridge => if bridge.pending.isEmpty then some () else none

/-- Let go of the relay: its processes are killed, but what they wrote is still read. -/
def abandon (bridge : Bridge) : Bridge :=
  { bridge with relay := { bridge.relay with slot := .stopped }.dropStart }

/-- Serve requests, at most so many of them, until the input ends or one asks to shut down.  The result is what is
wrong with a line that is no text. -/
def serve : Nat → Task Bridge (Except Utf8.Fault Unit)
  | 0 => do
      finish
      return .ok ()
  | requests + 1 => do
      match ← readLine with
      | none => do
          finish
          return .ok ()
      | some bytes =>
          match lineText bytes with
          | .error fault => do
              Task.update abandon
              return .error fault
          | .ok line => do
              if ← receive line then
                finish
                return .ok ()
              else serve requests

/-- What is told of a line that is no text. -/
def readFailure (fault : Utf8.Fault) : List String :=
  ["reading requests", fault.message]

end Bridge
end CompilerRelay
