import CompilerRelay.Failure
import CompilerRelay.Relay

/-!
# Steps of the relay

The steps that the operations of the relay are made of.

**Algorithm.**  Every step changes the state at once.  Waiting for the output takes three steps: the clock is read,
the settlement or the deadline is waited for, and a watch that nothing settled in time is given up.

**Results.**  `attempt_ok`: a result that is there is no step.
-/

namespace CompilerRelay

/-- A task of the relay that may fail. -/
abbrev Operation := ExceptT Failure (Task Relay)

/-- A watch whose statement was sent. -/
structure PendingWatch where
  id : Nat
  /-- How long to wait for it, in milliseconds. -/
  limit : Nat
  deriving DecidableEq, Repr

namespace Relay

/-- Change the state at once. -/
def change (change : Relay → Relay) : Operation Unit :=
  ExceptT.lift (Task.update change)

/-- Look at the state. -/
def look (view : Relay → α) : Operation α :=
  ExceptT.lift (Task.look view)

/-- Change the state at once, with a result that may be a failure. -/
def act (change : Relay → Except Failure α × Relay) : Operation α :=
  ExceptT.mk (Task.act change)

/-- A result that is there already. -/
def attempt (fault : ε → Failure) : Except ε α → Operation α
  | .ok value => pure value
  | .error cause => throw (fault cause)

theorem attempt_ok (fault : ε → Failure) (value : α) : attempt fault (.ok value) = pure value := rfl

/-- Change the channel. -/
def onChannel (change : Channel → Channel) : Operation Unit :=
  Relay.change (·.changeChannel change)

/-- Write a text to the channel. -/
def say (text : String) : Operation Unit :=
  Relay.change (·.changeOutput fun channel files => channel.write files text)

/-- Give the slot another state. -/
def setSlot (slot : Slot) : Operation Unit :=
  Relay.change ({ · with slot })

/-- Install a watch; the result is its number. -/
def install (success : Pattern) (failure : Option Pattern) : Operation Nat :=
  ExceptT.lift (Task.act fun relay =>
    let (id, channel) := relay.channel.install success.occursIn (failure.map (·.occursIn))
    (id, { relay with channel }))

/-- Give a watch up. -/
def clearWatch (id : Nat) : Operation Unit :=
  onChannel (·.clearWatch id)

/-- What is known of a watch: how it was settled, or that its time is up. -/
def watchState? (id deadline : Nat) (relay : Relay) : Option (Option Settlement) :=
  match relay.channel.watch.settlement? id with
  | some settlement => some (some settlement)
  | none => if deadline ≤ relay.clock then some none else none

/-- The line that settled a watch as it was wanted. -/
def lineOf : Settlement → Except WatchFailure String
  | .answered (.matched line) => .ok line
  | .answered (.failed line) => .error (.failed line)
  | .answered .superseded => .error .superseded
  | .answered .abandoned | .dropped => .error .sessionEnded

/-- Wait for a watch to be settled, but not longer than a limit. -/
def awaitWatch (watch : PendingWatch) : Task Relay (Except WatchFailure String) := do
  let start ← Task.look Relay.clock
  match ← Task.await (watchState? watch.id (start + watch.limit)) with
  | some settlement => return lineOf settlement
  | none => do
      Task.update (·.changeChannel (·.clearWatch watch.id))
      return .error (.timeout watch.limit)

end Relay

/-- Wait for the line that settles a watch. -/
def PendingWatch.wait (watch : PendingWatch) : Operation String := do
  Relay.attempt .watch (← ExceptT.lift (Relay.awaitWatch watch))

namespace Relay

/-- Where a line tells a definition, in the file that the user edits. -/
def locate (line : String) (relay : Relay) : Except Failure Location × Relay :=
  match OutputLine.parse line relay.channel.root with
  | .definition location =>
      let (edited, channel) := relay.channel.editedLocation relay.files location
      (.ok edited, { relay with channel })
  | .diagnostic _ _ | .plain => (.error (.definition line), relay)

end Relay

/-- Wait for the line that tells a definition. -/
def PendingWatch.waitLocation (watch : PendingWatch) : Operation Location := do
  let line ← watch.wait
  Relay.act (Relay.locate line)

end CompilerRelay
