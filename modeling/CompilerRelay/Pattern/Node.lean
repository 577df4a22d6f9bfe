import CompilerRelay.Pattern.CharSet

/-!
# Matching

The structure of a pattern, and the search for a place in a text where it matches.

**Input.**  A node and a text.

**Algorithm.**  A thread is what is left to match of one attempt: a list of nodes, to be matched one after
the other.  Reading a character turns a thread into the threads that are left of it after that character.
The search reads the text once, starts a thread at every place, and keeps equal threads once; it succeeds
where a thread can end.  Assertions look at the two characters around a place.

**Results.**  `search_of_accepts`: a pattern that accepts the empty text at the start is found.
-/

namespace CompilerRelay
namespace Pattern

/-- A place in a text, by the characters next to it. -/
structure Gap where
  before : Option Char
  after : Option Char
  deriving DecidableEq, Repr

/-- A condition on a place. -/
inductive Assertion where
  | textStart
  | textEnd
  /-- The start of a line; carriage returns end lines too, or not. -/
  | lineStart (returns : Bool)
  | lineEnd (returns : Bool)
  | wordBoundary (unicode : Bool)
  | noWordBoundary (unicode : Bool)
  | wordStart (unicode : Bool)
  | wordEnd (unicode : Bool)
  | noWordBefore (unicode : Bool)
  | noWordAfter (unicode : Bool)
  deriving DecidableEq, Repr

/-- Whether a character, if there is one, is part of a word. -/
def isWord (unicode : Bool) (char : Option Char) : Bool :=
  char.any (CharSet.words unicode).contains

/-- Whether a condition holds at a place. -/
def Assertion.holds : Assertion → Gap → Bool
  | .textStart, gap => gap.before.isNone
  | .textEnd, gap => gap.after.isNone
  | .lineStart false, gap => gap.before.all (· == '\n')
  | .lineStart true, gap =>
      gap.before.all (· == '\n') || (gap.before == some '\r' && gap.after != some '\n')
  | .lineEnd false, gap => gap.after.all (· == '\n')
  | .lineEnd true, gap =>
      gap.after.all (· == '\r') || (gap.after == some '\n' && gap.before != some '\r')
  | .wordBoundary unicode, gap => isWord unicode gap.before != isWord unicode gap.after
  | .noWordBoundary unicode, gap => isWord unicode gap.before == isWord unicode gap.after
  | .wordStart unicode, gap => !isWord unicode gap.before && isWord unicode gap.after
  | .wordEnd unicode, gap => isWord unicode gap.before && !isWord unicode gap.after
  | .noWordBefore unicode, gap => !isWord unicode gap.before
  | .noWordAfter unicode, gap => !isWord unicode gap.after

/-- The structure of a pattern. -/
inductive Node where
  | empty
  | set (set : CharSet)
  | assertion (assertion : Assertion)
  | sequence (first second : Node)
  | choice (first second : Node)
  /-- At least so many times, and at most so many if there is a bound. -/
  | repeated (body : Node) (least : Nat) (most : Option Nat)
  deriving DecidableEq, Repr

/-- What is left to match of one attempt. -/
abbrev Thread := List Node

namespace Node

/-- Whether a node can match nothing at a place. -/
def accepts (gap : Gap) : Node → Bool
  | .empty => true
  | .set _ => false
  | .assertion condition => condition.holds gap
  | .sequence first second => first.accepts gap && second.accepts gap
  | .choice first second => first.accepts gap || second.accepts gap
  | .repeated body least _ => least == 0 || body.accepts gap

/-- The bounds on the repetitions after the one that takes the next character.  The ones before it matched
nothing, which they may do only where the body accepts the empty text. -/
def laterBounds (idle : Bool) (least : Nat) (most : Option Nat) : List (Nat × Option Nat) :=
  (List.range (if idle then least + 1 else 1)).filterMap fun skipped =>
    match most with
    | none => some (least - 1 - skipped, none)
    | some bound => if skipped < bound then some (least - 1 - skipped, some (bound - 1 - skipped)) else none

/-- What is left of a repetition with these bounds. -/
def again (body : Node) : Nat × Option Nat → Thread
  | (_, some 0) => []
  | (least, most) => [.repeated body least most]

/-- The threads that are left of a node after the next character at a place. -/
def after (gap : Gap) (char : Char) : Node → List Thread
  | .empty => []
  | .set admitted => if admitted.contains char then [[]] else []
  | .assertion _ => []
  | .sequence first second =>
      (first.after gap char).map (· ++ [second])
        ++ (if first.accepts gap then second.after gap char else [])
  | .choice first second => first.after gap char ++ second.after gap char
  | .repeated body least most =>
      let begun := body.after gap char
      (laterBounds (body.accepts gap) least most).flatMap fun bounds =>
        begun.map (· ++ body.again bounds)

end Node

namespace Thread

/-- Whether a thread can end at a place. -/
def accepts (gap : Gap) (thread : Thread) : Bool :=
  thread.all (·.accepts gap)

/-- The threads that are left of a thread after the next character at a place. -/
def after (gap : Gap) (char : Char) : Thread → List Thread
  | [] => []
  | node :: rest =>
      (node.after gap char).map (· ++ rest)
        ++ (if node.accepts gap then after gap char rest else [])

end Thread

/-- Go on with a search in the rest of a text, with the threads that are under way. -/
def searchFrom (node : Node) (before : Option Char) (threads : List Thread) : List Char → Bool
  | [] => ([node] :: threads).any (Thread.accepts ⟨before, none⟩)
  | char :: rest =>
      let gap := ⟨before, some char⟩
      let all := if [node] ∈ threads then threads else [node] :: threads
      if all.any (Thread.accepts gap) then true
      else searchFrom node (some char) (all.flatMap (Thread.after gap char)).eraseDups rest

/-- Whether a node matches somewhere in a text. -/
def search (node : Node) (text : List Char) : Bool :=
  searchFrom node none [] text

theorem search_of_accepts
    {node : Node} {text : List Char}
    (accepted : node.accepts ⟨none, text.head?⟩ = true) :
    search node text = true := by
  cases text <;> simp_all [search, searchFrom, Thread.accepts]

end Pattern
end CompilerRelay
