/-!
# Watching the output

At most one request waits for a line of output at a time.  It holds the slot until a line settles it, a
newer request takes its place, or it is given up.

**Input.**  Watches, each with a test for the line that means success and perhaps one for the line that
means failure; lines; and the requests to give up.

**Algorithm.**  Watches are numbered from one in the order in which they are installed.  Installing one
settles the one before it as superseded.  A line is tested for success first.  Every settlement is recorded
under the number of its watch.

**Results.**  `offer_of_empty`: a line settles nothing while nobody waits.
-/

namespace CompilerRelay

/-- How a watch came out. -/
inductive WatchOutcome where
  /-- This line meant success. -/
  | matched (line : String)
  /-- This line meant failure. -/
  | failed (line : String)
  /-- A newer watch took the slot. -/
  | superseded
  /-- The output will not come any more. -/
  | abandoned
  deriving DecidableEq, Repr

/-- How a watch left the slot. -/
inductive Settlement where
  | answered (outcome : WatchOutcome)
  /-- The one who waited gave up. -/
  | dropped
  deriving DecidableEq, Repr

/-- A request that waits for a line. -/
structure Watch where
  id : Nat
  success : String → Bool
  failure : Option (String → Bool)

namespace Watch

/-- How a line settles a watch, if it does. -/
def outcomeOf? (watch : Watch) (line : String) : Option WatchOutcome :=
  if watch.success line then some (.matched line)
  else if watch.failure.any (· line) then some (.failed line)
  else none

end Watch

/-- The slot for the watch that waits, and the settlements of those that do no more, newest first. -/
structure WatchSlot where
  active : Option Watch := none
  lastId : Nat := 0
  settled : List (Nat × Settlement) := []

namespace WatchSlot

/-- Empty the slot and record how its watch left it. -/
def settle (slot : WatchSlot) (settlement : Settlement) : WatchSlot :=
  match slot.active with
  | none => slot
  | some watch =>
      { slot with active := none, settled := (watch.id, settlement) :: slot.settled }

/-- Install a watch in place of the one before it; the result is its number. -/
def install
    (slot : WatchSlot) (success : String → Bool) (failure : Option (String → Bool)) :
    Nat × WatchSlot :=
  let freed := slot.settle (.answered .superseded)
  let id := slot.lastId + 1
  (id, { freed with active := some ⟨id, success, failure⟩, lastId := id })

/-- How a line would settle the watch that waits. -/
def outcomeOf? (slot : WatchSlot) (line : String) : Option WatchOutcome :=
  slot.active.bind (·.outcomeOf? line)

/-- Show a line to the watch that waits; the result says whether it settled it. -/
def offer (slot : WatchSlot) (line : String) : Bool × WatchSlot :=
  match slot.outcomeOf? line with
  | none => (false, slot)
  | some outcome => (true, slot.settle (.answered outcome))

/-- Drop the watch that waits, if it still has this number. -/
def clearIf (slot : WatchSlot) (id : Nat) : WatchSlot :=
  if slot.active.any (·.id == id) then slot.settle .dropped else slot

/-- Tell the watch that waits that its line will not come. -/
def abandon (slot : WatchSlot) : WatchSlot :=
  slot.settle (.answered .abandoned)

/-- How the watch with a number left the slot, once it has. -/
def settlement? (slot : WatchSlot) (id : Nat) : Option Settlement :=
  slot.settled.lookup id

theorem offer_of_empty
    {slot : WatchSlot} (line : String)
    (empty : slot.active = none) :
    slot.offer line = (false, slot) := by
  simp [offer, outcomeOf?, empty]

end WatchSlot
end CompilerRelay
