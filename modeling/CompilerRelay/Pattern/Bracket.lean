import CompilerRelay.Pattern.Escape

/-!
# Sets in brackets

The sets that a pattern writes between square brackets: characters, ranges, named classes, sets within sets,
and the operations on the sets to their left and right.

**Algorithm.**  What is open is kept on a stack: brackets with what came before them, and operations with
their left side.  All operations bind alike and group to the left.  Where case does not count, the sides of
an operation and the set of a bracket get their case variants before the set is negated.
-/

namespace CompilerRelay
namespace Pattern

/-- A set that was read, and how deep it is nested. -/
structure Operand where
  set : CharSet
  depth : Nat := 0
  deriving Repr

/-- Something open inside brackets. -/
inductive Pending where
  /-- A bracket, and what stands before it in the bracket around it. -/
  | bracket (negated : Bool) (outer : List Operand)
  | operation (operator : SetOperator) (left : Operand)
  deriving Repr

/-- A set with its case variants, where case does not count. -/
def Flags.fold (flags : Flags) (set : CharSet) : CharSet :=
  if flags.caseless then .caseless flags.unicode set else set

/-- The complement of a set, if it is negated. -/
def negateIf (negated : Bool) (set : CharSet) : CharSet :=
  if negated then .complement set else set

/-- Sets that stand next to each other, the last one first, as one. -/
def unite : List Operand → Operand
  | [] => { set := .empty }
  | [operand] => operand
  | operand :: rest =>
      rest.foldl (fun all next => ⟨.union next.set all.set, max all.depth (next.depth + 1)⟩)
        { operand with depth := operand.depth + 1 }

/-- Complete the operation on top of the stack with its right side. -/
def complete (flags : Flags) (right : Operand) : List Pending → Operand × List Pending
  | .operation operator left :: rest =>
      ({ set := .combined operator (flags.fold left.set) (flags.fold right.set)
         depth := max left.depth right.depth + 1 }, rest)
  | stack => (right, stack)

/-- What an item of a set is: a character, which may begin a range, or a set. -/
inductive Item where
  | code (code : Nat)
  | set (set : CharSet)
  deriving Repr

/-- The code of a character in a set; a set of bytes has characters of ASCII and bytes. -/
def codeOf? (flags : Flags) (char : Char) (asByte : Bool) : Option Nat :=
  if flags.unicode || asByte || char.toNat < 0x80 then some char.toNat else none

/-- Read an item of a set. -/
def readItem (flags : Flags) : List Char → Option (Item × List Char)
  | [] => none
  | '\\' :: rest => do
      let (escape, rest) ← readEscape flags rest
      match escape with
      | .literal char asByte => return (.code (← codeOf? flags char asByte), rest)
      | .set named => return (.set named, rest)
      | .property negated named => return (.set (negateIf negated (flags.fold named)), rest)
      | .assertion _ => none
  | char :: rest => do return (.code (← codeOf? flags char false), rest)

/-- Read an item, or the range that it begins. -/
def readRange (flags : Flags) (text : List Char) : Option (Operand × List Char) := do
  let (item, rest) ← readItem flags text
  let alone : CharSet :=
    match item with
    | .code code => .range code code
    | .set named => named
  match skip flags rest with
  | [] => none
  | '-' :: beyond =>
      match skip flags beyond with
      | [] => none
      | ']' :: _ | '-' :: _ => return (⟨alone, 0⟩, '-' :: beyond)
      | beyond =>
          match item, ← readItem flags beyond with
          | .code first, (.code last, rest) =>
              if first ≤ last then return (⟨.range first last, 0⟩, rest) else none
          | _, _ => none
  | rest => return (⟨alone, 0⟩, rest)

/-- Read a class of ASCII between colons, from the text after the bracket before it. -/
def readPosix (flags : Flags) (text : List Char) : Option (Operand × List Char) := do
  let rest ← Text.stripStart? [':'] text
  let (negated, rest) :=
    match rest with
    | '^' :: rest => (true, rest)
    | rest => (false, rest)
  let set ← CharSet.ofPosixName? (rest.takeWhile (· != ':'))
  let rest ← Text.stripStart? [':', ']'] (rest.dropWhile (· != ':'))
  return (⟨negateIf negated (flags.fold set), 0⟩, rest)

/-- Read what may follow an opening bracket: a negation, hyphens, and a closing bracket that stands for
itself. -/
def readOpening (flags : Flags) (text : List Char) : Option (Bool × List Operand × List Char) :=
  match skip flags text with
  | [] => none
  | '^' :: rest =>
      match skip flags rest with
      | [] => none
      | rest => (start rest).map (true, ·)
  | rest => (start rest).map (false, ·)
where
  /-- Read the hyphens or the bracket that stand for themselves. -/
  start (text : List Char) : Option (List Operand × List Char) :=
    let (hyphens, rest) := gather flags (· == '-') text
    let items := hyphens.map fun _ => (⟨.single '-', 0⟩ : Operand)
    match hyphens, rest with
    | _, [] => none
    | [], ']' :: rest =>
        match skip flags rest with
        | [] => none
        | rest => some ([⟨.single ']', 0⟩], rest)
    | _, rest => some (items, rest)

/-- The operation that two equal characters stand for. -/
def SetOperator.ofSign? : List Char → Option SetOperator
  | '&' :: '&' :: _ => some .both
  | '-' :: '-' :: _ => some .butNot
  | '~' :: '~' :: _ => some .eitherOne
  | _ => none

/-- Read on in brackets that are open, with the items before, up to the end of the outermost. -/
def readBrackets (flags : Flags) :
    Nat → List Operand → List Pending → List Char → Option (Operand × List Char)
  | 0, _, _, _ => none
  | fuel + 1, items, stack, text =>
      match skip flags text with
      | [] => none
      | '[' :: rest =>
          match readPosix flags rest with
          | some (operand, rest) => readBrackets flags fuel (operand :: items) stack rest
          | none => do
              let (negated, inner, rest) ← readOpening flags rest
              readBrackets flags fuel inner (.bracket negated items :: stack) rest
      | ']' :: rest =>
          let (operand, stack) := complete flags (unite items) stack
          match stack with
          | .bracket negated outer :: stack =>
              let closed : Operand := ⟨negateIf negated (flags.fold operand.set), operand.depth + 1⟩
              if stack.isEmpty then some (closed, rest)
              else readBrackets flags fuel (closed :: outer) stack rest
          | _ => none
      | text =>
          match SetOperator.ofSign? text with
          | some operator =>
              let (left, stack) := complete flags (unite items) stack
              readBrackets flags fuel [] (.operation operator left :: stack) (text.drop 2)
          | none => do
              let (operand, rest) ← readRange flags text
              readBrackets flags fuel (operand :: items) stack rest

/-- Read a set from the text after its opening bracket. -/
def readSet (flags : Flags) (text : List Char) : Option (Operand × List Char) := do
  let (negated, items, rest) ← readOpening flags text
  let (operand, rest) ← readBrackets flags (text.length + 1) items [.bracket negated []] rest
  if flags.unicode || operand.set.asciiOnly then return (operand, rest) else none

end Pattern
end CompilerRelay
