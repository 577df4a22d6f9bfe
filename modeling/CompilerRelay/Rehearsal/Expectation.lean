import CompilerRelay.Rehearsal

/-!
# Expectations

What is to come of a rehearsal before it is looked at.

**Input.**  The messages since the last look.

**Place.**  A part of the stage on which the relay is rehearsed.
-/

namespace CompilerRelay

/-- What is expected of messages. -/
structure Expectation where
  /-- A line of output. -/
  line : Option String := none
  /-- Whether a session is expected to stop. -/
  stop : Bool := false
  /-- How many events there are at least. -/
  events : Nat := 0
  /-- How many answers there are at least. -/
  replies : Nat := 0
  deriving DecidableEq, Repr

namespace Expectation

/-- Whether a message says that a session stopped. -/
def isStop : Message → Bool
  | .sessionStopped _ => true
  | _ => false

/-- Whether messages are what was expected. -/
def met (expected : Expectation) (messages : List Message) : Bool :=
  let (replies, events) := messages.partition Message.isReply
  decide (expected.replies ≤ replies.length) && decide (expected.events ≤ events.length)
    && expected.line.all (fun line => events.contains (.output line))
    && (!expected.stop || events.any isStop)

end Expectation

/-- Whether the number of an answer is not after that of another; answers without one come first. -/
def Message.idAtMost (first second : Message) : Bool :=
  match first.id?, second.id? with
  | none, _ => true
  | some _, none => false
  | some first, some second => first ≤ second

namespace Rehearsal

/-- The most steps of a run. -/
def stepLimit : Nat := 10000000

/-- The events of the relay after the first ones. -/
def eventsSince (told : Nat) (rehearsal : Rehearsal) : List Event :=
  let emitted := rehearsal.relay.channel.emitted
  (emitted.take (emitted.length - told)).reverse

/-- The messages of the bridge after the first ones. -/
def messagesSince (told : Nat) (rehearsal : Rehearsal) : List Message :=
  let sent := rehearsal.bridge.sent
  (sent.take (sent.length - told)).reverse

/-- Run a task to its end. -/
def perform (task : Task Bridge α) (rehearsal : Rehearsal) : Option α × Rehearsal :=
  let (left, after) := rehearsal.drive (fun task _ => task.isDone) stepLimit task
  (left.value?, after)

/-- Run a task until a condition holds, so many milliseconds at most; the result says whether it did. -/
def await
    (holds : Rehearsal → Bool) (limit : Nat) (task : Task Bridge α) (rehearsal : Rehearsal) :
    Bool × Task Bridge α × Rehearsal :=
  let deadline := rehearsal.relay.clock + limit
  let stop (_ : Task Bridge α) (now : Rehearsal) : Bool := holds now || decide (deadline ≤ now.relay.clock)
  let (left, after) := rehearsal.drive stop stepLimit task
  (holds after, left, after)

/-- Run a task that is given up after so many milliseconds; the result is its value, if it came to its end. -/
def performWithin (limit : Nat) (task : Task Bridge α) (rehearsal : Rehearsal) : Option α × Rehearsal :=
  let deadline := rehearsal.relay.clock + limit
  let stop (task : Task Bridge α) (now : Rehearsal) : Bool := task.isDone || decide (deadline ≤ now.relay.clock)
  let (left, after) := rehearsal.drive stop stepLimit task
  (left.value?, after)

/-- Close the input and run a task to its end. -/
def close (task : Task Bridge α) (rehearsal : Rehearsal) : Option α × Rehearsal :=
  { rehearsal with bridge.inputClosed := true }.perform task

/-- Let happen what is left. -/
def drain (rehearsal : Rehearsal) : Rehearsal :=
  rehearsal.quiesce stepLimit

end Rehearsal
end CompilerRelay
