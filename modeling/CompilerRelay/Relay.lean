import CompilerRelay.Channel
import CompilerRelay.Command
import CompilerRelay.Config
import CompilerRelay.Host
import CompilerRelay.Task

/-!
# The state of the relay

The compiler's sessions, the output channel, and the files.

**Sessions.**  Every process that was spawned has a number.  The relay has one slot for the session that it talks
to.  A session that lost the slot may still have output on the way.

**Happenings.**  What the surroundings do: bytes arrive from a process, a process exits, a statement is written to
it, time passes, files change.

**Results.**  `session?_changeSession_of_ne`: a change of one session leaves the others as they are.
-/

namespace CompilerRelay

/-- Whether a process lives, and how it ended. -/
inductive Life where
  | alive
  | exited
  | killed
  deriving DecidableEq, Repr

/-- A process of the compiler with what connects it to the relay. -/
structure Session where
  life : Life := .alive
  /-- Statements that wait to be written, oldest first. -/
  queue : List String := []
  /-- Statements that were written, oldest first. -/
  written : List String := []
  /-- Whether its output is still read. -/
  reader : Bool := true
  /-- Whether its errors are still read. -/
  reporter : Bool := true
  /-- Whether statements are still taken. -/
  writer : Bool := true
  deriving DecidableEq, Repr

/-- The place of the session that the relay talks to. -/
inductive Slot where
  | stopped
  /-- A session is being started. -/
  | starting
  | running (session : Nat)
  deriving DecidableEq, Repr

/-- What can be seen of the slot from outside. -/
inductive SlotState where
  | stopped
  | starting
  | running
  deriving DecidableEq, Repr

/-- The state of a slot. -/
def Slot.state : Slot → SlotState
  | .stopped => .stopped
  | .starting => .starting
  | .running _ => .running

/-- The state of the relay. -/
structure Relay where
  config : CompilerConfig
  host : Host
  files : FileTree
  channel : Channel
  slot : Slot := .stopped
  /-- The sessions by their numbers. -/
  sessions : List Session := []
  /-- How many milliseconds have passed. -/
  clock : Nat := 0

namespace Relay

/-- A relay that has done nothing yet. -/
def new (config : CompilerConfig) (environment : Environment) (host : Host) (files : FileTree) : Relay :=
  { config, host, files, channel := Channel.new config.diagnosticRoot (config.logPath environment) }

/-- Whether the slot holds a session; its process may have exited. -/
def isRunning (relay : Relay) : Bool :=
  relay.slot.state == .running

/-- The session with a number. -/
def session? (relay : Relay) (number : Nat) : Option Session :=
  relay.sessions[number]?

/-- Change the session with a number. -/
def changeSession (relay : Relay) (number : Nat) (change : Session → Session) : Relay :=
  { relay with sessions := relay.sessions.modify number change }

theorem session?_changeSession_of_ne
    (relay : Relay) {number other : Nat} (change : Session → Session) (differ : number ≠ other) :
    (relay.changeSession number change).session? other = relay.session? other := by
  simp [session?, changeSession, differ]

theorem session?_changeSession_self
    (relay : Relay) (number : Nat) (change : Session → Session) :
    (relay.changeSession number change).session? number = (relay.session? number).map change := by
  simp [session?, changeSession]

/-- Change the channel. -/
def changeChannel (relay : Relay) (change : Channel → Channel) : Relay :=
  { relay with channel := change relay.channel }

/-- Change the channel and the files. -/
def changeOutput (relay : Relay) (change : Channel → FileTree → Channel × FileTree) : Relay :=
  let (channel, files) := change relay.channel relay.files
  { relay with channel, files }

/-- Whether the process of the slot has exited by itself. -/
def hasExited (relay : Relay) : Bool :=
  match relay.slot with
  | .running number => (relay.session? number).any (·.life == .exited)
  | .stopped | .starting => false

/-- Stop reading from a process, kill it, and end its writer. -/
def killSession (relay : Relay) (number : Nat) : Relay :=
  relay.changeSession number fun session =>
    { session with
      life := if session.life = .alive then .killed else session.life
      queue := []
      reader := false
      reporter := false
      writer := false }

/-- Kill a process of which nobody asked to stop reading. -/
def Session.drop (session : Session) : Session :=
  { session with
    life := if session.life = .alive then .killed else session.life
    queue := []
    writer := false }

/-- Give up what was being started: processes that live and do not hold the slot are killed. -/
def dropStart (relay : Relay) : Relay :=
  match relay.slot with
  | .running number =>
      { relay with
        sessions := relay.sessions.mapIdx fun index session =>
          if index = number then session else Session.drop session }
  | .stopped | .starting => { relay with sessions := relay.sessions.map Session.drop }

/-- Whether output of some process may still arrive. -/
def isRead (relay : Relay) : Bool :=
  relay.sessions.any fun session => session.reader || session.reporter

end Relay

/-- What the surroundings do. -/
inductive Happening where
  /-- Bytes of output arrive. -/
  | output (session : Nat) (chunk : Bytes)
  /-- There will be no more output. -/
  | outputEnd (session : Nat) (reason : StopReason)
  /-- Bytes of errors arrive. -/
  | report (session : Nat) (chunk : Bytes)
  /-- There will be no more errors. -/
  | reportEnd (session : Nat)
  /-- A process exits by itself. -/
  | exit (session : Nat)
  /-- The oldest waiting statement is written to the process. -/
  | written (session : Nat)
  /-- The oldest waiting statement cannot be written. -/
  | writeFailed (session : Nat)
  /-- So many milliseconds pass. -/
  | time (milliseconds : Nat)
  /-- Others change files. -/
  | files (after : FileTree)
  deriving DecidableEq, Repr

namespace Relay

/-- What is told when a process writes errors. -/
def errorNotification : String := "Error from CM Process"

/-- The line that reports errors. -/
def errorLine (text : String) : String :=
  "[INFO: CM_Process_Error -> " ++ text ++ "]\n"

/-- Report errors of a process, unless they are blank. -/
def report (relay : Relay) (chunk : Bytes) : Relay :=
  let text := trimmedEnd (Utf8.decodeLossy chunk)
  if text.isEmpty then relay
  else
    relay.changeOutput fun channel files =>
      (channel.emit (.notification errorNotification)).write files (errorLine text)

/-- Take in the end of the output of a process. -/
def endOutput (relay : Relay) (number : Nat) (reason : StopReason) : Relay :=
  let finished := relay.changeOutput Channel.finish
  (finished.changeChannel (·.emit (.sessionStopped reason))).changeSession number fun session =>
    { session with reader := false }

/-- Move the oldest waiting statement to those that were written. -/
def Session.write (session : Session) : Session :=
  match session.queue with
  | [] => session
  | statement :: queue => { session with queue, written := session.written ++ [statement] }

/-- Whether something can happen. -/
def admits (relay : Relay) : Happening → Bool
  | .output number _ | .outputEnd number _ => (relay.session? number).any (·.reader)
  | .report number _ | .reportEnd number => (relay.session? number).any (·.reporter)
  | .exit number => (relay.session? number).any (·.life == .alive)
  | .written number | .writeFailed number =>
      (relay.session? number).any fun session => session.writer && !session.queue.isEmpty
  | .time _ | .files _ => true

/-- What comes of a happening. -/
def after (relay : Relay) : Happening → Relay
  | .output _ chunk => relay.changeOutput fun channel files => channel.writeBytes files chunk
  | .outputEnd number reason => relay.endOutput number reason
  | .report _ chunk => relay.report chunk
  | .reportEnd number => relay.changeSession number fun session => { session with reporter := false }
  | .exit number => relay.changeSession number fun session => { session with life := .exited }
  | .written number => relay.changeSession number Session.write
  | .writeFailed number => relay.changeSession number fun session => { session with queue := [], writer := false }
  | .time milliseconds => { relay with clock := relay.clock + milliseconds }
  | .files files => { relay with files }

/-- The surroundings take the relay from one state to another. -/
def Changes (before after : Relay) : Prop :=
  ∃ happening, before.admits happening = true ∧ after = before.after happening

end Relay
end CompilerRelay
