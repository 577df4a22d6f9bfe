import CompilerRelay.Bridge
import CompilerRelay.Rehearsal.Process

/-!
# Rehearsals

A run of the bridge in which scripts play the compiler.

**Input.**  A bridge, the variables of its surroundings, and the tasks that it is given.

**Algorithm.**  What can happen happens at once, one thing at a time and always the first that can: the bridge
sends its answers and events, then the task goes on, then a process is heard of, written to, or takes a step.  Time
passes only when nothing else can happen.

**Place.**  Rehearsals are a stage for the relay: they choose one of the runs that its theory is about.

**Results.**  `happen?_changes`: only what the surroundings of a relay may do happens.
-/

namespace CompilerRelay

/-- A bridge with the processes of its sessions. -/
structure Rehearsal where
  bridge : Bridge
  environment : Environment
  processes : List Process := []

namespace Rehearsal

/-- A bridge to which nothing has happened, and no process. -/
def new
    (config : CompilerConfig) (environment : Environment) (stamp : Nat → String) (files : FileTree) : Rehearsal :=
  { bridge := { relay := Relay.new config environment (Shell.host environment stamp) files }, environment }

/-- The relay. -/
def relay (rehearsal : Rehearsal) : Relay :=
  rehearsal.bridge.relay

/-- Change the relay. -/
def changeRelay (rehearsal : Rehearsal) (change : Relay → Relay) : Rehearsal :=
  { rehearsal with bridge.relay := change rehearsal.relay }

/-- Change the process of a session. -/
def changeProcess (rehearsal : Rehearsal) (number : Nat) (change : Process → Process) : Rehearsal :=
  { rehearsal with processes := rehearsal.processes.modify number change }

/-- Let something happen to the relay, if it can. -/
def happen? (rehearsal : Rehearsal) (happening : Happening) : Option Rehearsal :=
  if rehearsal.relay.admits happening then some (rehearsal.changeRelay (·.after happening)) else none

theorem happen?_changes {before after : Rehearsal} {happening : Happening}
    (done : before.happen? happening = some after) : before.relay.Changes after.relay := by
  unfold happen? at done
  split at done
  · next admitted =>
      obtain rfl := Option.some.inj done
      exact ⟨happening, admitted, rfl⟩
  · exact absurd done (by simp)

/-! ## The bridge by itself -/

/-- Let the bridge send an answer or an event, if it has one. -/
def settle? (rehearsal : Rehearsal) : Option Rehearsal :=
  let bridge := rehearsal.bridge
  let answered := (List.range bridge.pending.length).findSome? bridge.answer?
  (answered <|> bridge.applyEvent? <|> bridge.forwardEvent?).map ({ rehearsal with bridge := · })

/-! ## Processes -/

/-- Launch the process of a session that has none. -/
def launch? (rehearsal : Rehearsal) : Option Rehearsal :=
  let relay := rehearsal.relay
  if relay.sessions.length ≤ rehearsal.processes.length then none
  else
    let config := relay.config
    let bindings := config.bindings.foldl (fun environment (name, value) => environment.set name value)
      rehearsal.environment
    let machine :=
      match relay.host.resolve relay.files config.program with
      | some program => Shell.launch bindings relay.files program config.arguments config.root
      | none => { frames := [] }
    some { rehearsal with processes := rehearsal.processes ++ [{ main := { machine } }] }

/-- Let the oldest bytes that a process wrote arrive. -/
def deliver? (rehearsal : Rehearsal) (number : Nat) (process : Process) : Option Rehearsal :=
  match process.pipe with
  | [] => none
  | (stream, chunk) :: pipe =>
      let taken := rehearsal.changeProcess number ({ · with pipe })
      let happening :=
        match stream with
        | .output => Happening.output number chunk
        | .errors => Happening.report number chunk
      some ((taken.happen? happening).getD taken)

/-- Let the relay learn of the end of a process or of its streams. -/
def conclude? (rehearsal : Rehearsal) (number : Nat) (session : Session) (process : Process) : Option Rehearsal :=
  let lives := session.life == .alive
  if lives && process.main.hasEnded then rehearsal.happen? (.exit number)
  else if session.reader && !process.isOpen lives .output then rehearsal.happen? (.outputEnd number .exited)
  else if session.reporter && !process.isOpen lives .errors then rehearsal.happen? (.reportEnd number)
  else none

/-- Let a statement be written, or fail to be. -/
def write? (rehearsal : Rehearsal) (number : Nat) (session : Session) (process : Process) : Option Rehearsal :=
  if session.life = .alive && !process.main.hasEnded then rehearsal.happen? (.written number)
  else rehearsal.happen? (.writeFailed number)

/-- Let a statement that was written reach the process. -/
def give? (rehearsal : Rehearsal) (number : Nat) (session : Session) (process : Process) : Option Rehearsal :=
  session.written[process.given]?.map fun statement =>
    rehearsal.changeProcess number (·.give statement)

/-- Let a process take a step; its main worker does only while it lives. -/
def advance? (rehearsal : Rehearsal) (number : Nat) (session : Session) (process : Process) : Option Rehearsal :=
  let clock := rehearsal.relay.clock
  let files := rehearsal.relay.files
  let main := if session.life = .alive then process.mainAdvance? clock files else none
  let advanced := main <|> (List.range process.helpers.length).findSome? (process.helperAdvance? clock files)
  advanced.map fun (process, files) =>
    (rehearsal.changeProcess number fun _ => process).changeRelay (·.after (.files files))

/-- Let something happen around the process of a session. -/
def turnOf? (rehearsal : Rehearsal) (number : Nat) : Option Rehearsal :=
  match rehearsal.relay.session? number, rehearsal.processes[number]? with
  | some session, some process =>
      rehearsal.deliver? number process <|> rehearsal.conclude? number session process
        <|> rehearsal.write? number session process <|> rehearsal.give? number session process
        <|> rehearsal.advance? number session process
  | _, _ => none

/-- Let something happen around a process. -/
def turn? (rehearsal : Rehearsal) : Option Rehearsal :=
  rehearsal.launch? <|> (List.range rehearsal.processes.length).findSome? rehearsal.turnOf?

/-! ## Runs -/

/-- Let a millisecond pass. -/
def tick (rehearsal : Rehearsal) : Rehearsal :=
  rehearsal.changeRelay (·.after (.time 1))

/-- Run a task until a condition holds, in so many steps at most; the result has the task that is left. -/
def drive (stop : Task Bridge α → Rehearsal → Bool) :
    Nat → Task Bridge α → Rehearsal → Task Bridge α × Rehearsal
  | 0, task, rehearsal => (task, rehearsal)
  | fuel + 1, task, rehearsal =>
      if stop task rehearsal then (task, rehearsal)
      else
        match rehearsal.settle? with
        | some after => drive stop fuel task after
        | none =>
            match task.advance? rehearsal.bridge with
            | some (left, bridge) => drive stop fuel left { rehearsal with bridge }
            | none => drive stop fuel task (rehearsal.turn?.getD rehearsal.tick)

/-- Let happen what can happen without time, in so many steps at most. -/
def quiesce : Nat → Rehearsal → Rehearsal
  | 0, rehearsal => rehearsal
  | fuel + 1, rehearsal =>
      match rehearsal.settle? <|> rehearsal.turn? with
      | some after => quiesce fuel after
      | none => rehearsal

/-- A task that lets milliseconds pass. -/
def pause (milliseconds : Nat) : Task Bridge Unit := do
  let start ← Task.look fun bridge : Bridge => bridge.relay.clock
  Task.await fun bridge : Bridge => if start + milliseconds ≤ bridge.relay.clock then some () else none

end Rehearsal
end CompilerRelay
