import CompilerRelay.Pattern.Bracket

/-!
# Reading patterns

The structure of a pattern from its text.

**Algorithm.**  The signs are read from left to right; the groups that are open are kept on a stack, each with
the flags to go back to at its end.  Flags that are set within a group hold up to its end, also in later
branches.

**Limits.**  A pattern is refused if it is nested too deep or if matching it would take too much memory: a
state of the automaton for it counts 32 bytes.
-/

namespace CompilerRelay
namespace Pattern

/-- A part of a pattern that was read. -/
structure Piece where
  node : Node
  /-- The memory that matching it takes. -/
  cost : Nat
  depth : Nat := 0
  /-- Whether it can be repeated; a setting of flags cannot. -/
  repeatable : Bool := true
  deriving Repr

/-- The memory that one state takes. -/
def stateCost : Nat := 32

/-- The memory that a state with two ways to go on takes. -/
def branchCost : Nat := 40

/-- The most memory that a pattern may take. -/
def costLimit : Nat := 10485760

/-- How deep a pattern may be nested. -/
def depthLimit : Nat := 250

/-- Pieces in sequence, the last one first, as one. -/
def joinPieces : List Piece → Piece
  | [] => { node := .empty, cost := stateCost }
  | [piece] => piece
  | last :: rest =>
      rest.foldl
        (fun tail piece =>
          { node := .sequence piece.node tail.node
            cost := piece.cost + tail.cost
            depth := max (piece.depth + 1) tail.depth })
        { last with depth := last.depth + 1, repeatable := true }

/-- Branches, the last one first, as one. -/
def joinBranches : List Piece → Piece
  | [] => { node := .empty, cost := stateCost }
  | [piece] => piece
  | last :: rest =>
      rest.foldl
        (fun later piece =>
          { node := .choice piece.node later.node
            cost := piece.cost + later.cost + branchCost
            depth := max (piece.depth + 1) later.depth })
        { last with depth := last.depth + 1, repeatable := true }

/-- A group that is being read: its finished branches and the pieces of the one under way, last ones first. -/
structure Level where
  branches : List Piece := []
  pieces : List Piece := []
  deriving Repr

/-- A level as one piece. -/
def Level.close (level : Level) : Piece :=
  joinBranches (joinPieces level.pieces :: level.branches)

/-- The state of reading a pattern. -/
structure Reader where
  flags : Flags := {}
  level : Level := {}
  /-- The groups around this one, with the flags to go back to, and whether this one captures. -/
  outer : List (Flags × Bool × Level) := []
  /-- The names of the groups so far. -/
  names : List (List Char) := []
  deriving Repr

namespace Reader

/-- Add a piece at the end. -/
def add (reader : Reader) (piece : Piece) : Reader :=
  { reader with level := { reader.level with pieces := piece :: reader.level.pieces } }

/-- Begin a new branch. -/
def branch (reader : Reader) : Reader :=
  { reader with level := { branches := joinPieces reader.level.pieces :: reader.level.branches } }

/-- Begin a group. -/
def enter (reader : Reader) (captures : Bool) (flags : Flags) : Reader :=
  { reader with
    flags := flags
    level := {}
    outer := (reader.flags, captures, reader.level) :: reader.outer }

/-- End the innermost group. -/
def leave (reader : Reader) : Option Reader :=
  match reader.outer with
  | [] => none
  | (flags, captures, level) :: outer =>
      let inner := reader.level.close
      let cost := if captures then inner.cost + 2 * stateCost else inner.cost
      some ({ reader with flags, level, outer }.add
        { node := inner.node, cost, depth := inner.depth + 1 })

end Reader

/-! ## Single characters and sets -/

/-- The memory that matching a character takes. -/
def charCost (char : Char) : Nat :=
  stateCost * char.utf8Size

/-- A character by itself; where patterns are about bytes it must be one of ASCII. -/
def literalPiece (flags : Flags) (char : Char) : Option Piece :=
  if !flags.unicode && char.toNat ≥ 0x80 then none
  else some { node := .set (flags.fold (.single char)), cost := charCost char }

/-- A set by itself; where patterns are about bytes it must keep to ASCII. -/
def setPiece (flags : Flags) (set : CharSet) (depth : Nat) : Option Piece :=
  if flags.unicode || set.asciiOnly then
    some { node := .set set, cost := stateCost + 2 * stateCost * set.rangeCount, depth }
  else none

/-- A condition by itself. -/
def assertionPiece (assertion : Assertion) : Piece :=
  { node := .assertion assertion, cost := stateCost }

/-- The set that a dot stands for. -/
def dotSet (flags : Flags) : CharSet :=
  if flags.dotAll then .named .any
  else if flags.returns then .complement (.ranges [(0x0A, 0x0A), (0x0D, 0x0D)])
  else .complement (.range 0x0A 0x0A)

/-- The piece that an escape stands for. -/
def escapePiece (flags : Flags) : Escape → Option Piece
  | .literal char _ => literalPiece flags char
  | .set named => setPiece flags named 0
  | .property negated named => setPiece flags (negateIf negated (flags.fold named)) 0
  | .assertion condition => some (assertionPiece condition)

/-! ## Repetition -/

/-- Repeat the last piece. -/
def Reader.repeatLast (reader : Reader) (least : Nat) (most : Option Nat) : Option Reader :=
  match reader.level.pieces with
  | [] => none
  | piece :: rest =>
      if !piece.repeatable then none
      else
        let cost :=
          match most with
          | none => (max least 1) * piece.cost + branchCost
          | some bound => least * piece.cost + (bound - least) * (piece.cost + branchCost) + stateCost
        let repeated : Piece :=
          { node := .repeated piece.node least most, cost, depth := piece.depth + 1 }
        some { reader with level := { reader.level with pieces := repeated :: rest } }

/-- What follows the mark of a reluctant repetition. -/
def dropReluctant : List Char → List Char
  | '?' :: rest => rest
  | text => text

/-- A number of 32 bits with blanks around it, if there is one, and what follows. -/
def readCount (flags : Flags) (text : List Char) : Option (Option Nat × List Char) :=
  let (digits, rest) := gather flags Char.isDigit (text.dropWhile isBlank)
  let rest := (gather flags isBlank rest).2
  let number := digits.foldl (fun sum digit => sum * 10 + (digit.toNat - '0'.toNat)) 0
  if digits.isEmpty then some (none, rest)
  else if number < Nat.pow 2 32 then some (some number, rest)
  else none

/-- The bounds of a repetition, from the text after the opening brace. -/
def readBounds (flags : Flags) (text : List Char) : Option (Nat × Option Nat × List Char) := do
  let (least, rest) ← readCount flags (skip flags text)
  let least ← least
  match rest with
  | ',' :: rest =>
      match skip flags rest with
      | '\x7d' :: rest => return (least, none, dropReluctant (skip flags rest))
      | rest =>
          match ← readCount flags rest with
          | (some most, '\x7d' :: rest) =>
              if least ≤ most then return (least, some most, dropReluctant (skip flags rest)) else none
          | _ => none
  | '\x7d' :: rest => return (least, some least, dropReluctant (skip flags rest))
  | _ => none

/-! ## Groups -/

/-- Whether a character may stand in the name of a group, or at its start. -/
def isGroupNameChar (first : Bool) (char : Char) : Bool :=
  if first then char == '_' || Unicode.isAlphabetic char
  else char == '_' || char == '.' || char == '[' || char == ']' || Unicode.isAlphabetic char
    || Unicode.isNumeric char

/-- The name of a group, up to the angle bracket after it. -/
def readGroupName (text : List Char) : Option (List Char × List Char) :=
  let name := text.takeWhile (· != '>')
  match name, text.dropWhile (· != '>') with
  | first :: others, _ :: rest =>
      if isGroupNameChar true first && others.all (isGroupNameChar false) then some (name, rest) else none
  | _, _ => none

/-- Set or clear the flag of a letter. -/
def Flags.set? (flags : Flags) (letter : Char) (value : Bool) : Option Flags :=
  match letter with
  | 'i' => some { flags with caseless := value }
  | 'm' => some { flags with multiline := value }
  | 's' => some { flags with dotAll := value }
  | 'U' => some flags
  | 'u' => some { flags with unicode := value }
  | 'R' => some { flags with returns := value }
  | 'x' => some { flags with extended := value }
  | _ => none

/-- Flags from their letters.  Those after a hyphen are cleared; no letter may stand twice, and a hyphen must
not be the last. -/
def Flags.apply? (flags : Flags) (letters : List Char) : Option Flags := do
  if !letters.Nodup || letters.getLast? == some '-' then none
  else
    let (flags, _) ← letters.foldlM
      (fun (flags, value) letter =>
        if letter == '-' then some (flags, false)
        else (flags.set? letter value).map (·, value))
      (flags, true)
    return flags

/-- Read the start of a group, from the text after its parenthesis. -/
def Reader.open (reader : Reader) (text : List Char) : Option (Reader × List Char) :=
  match skip reader.flags text with
  | '?' :: '=' :: _ | '?' :: '!' :: _ | '?' :: '<' :: '=' :: _ | '?' :: '<' :: '!' :: _ => none
  | '?' :: 'P' :: '<' :: rest | '?' :: '<' :: rest => do
      let (name, rest) ← readGroupName rest
      if reader.names.contains name then none
      else return ({ reader.enter true reader.flags with names := name :: reader.names }, rest)
  | '?' :: rest => do
      let letters := rest.takeWhile fun char => char != ':' && char != ')'
      let flags ← reader.flags.apply? letters
      match rest.drop letters.length with
      | ')' :: rest =>
          if letters.isEmpty then none
          else return ({ reader with flags }.add
            { node := .empty, cost := 0, repeatable := false }, rest)
      | ':' :: rest => return (reader.enter false flags, rest)
      | _ => none
  | rest => some (reader.enter true reader.flags, rest)

/-! ## The whole pattern -/

/-- Read the sign at the start of a text. -/
def Reader.step (reader : Reader) (char : Char) (rest : List Char) : Option (Reader × List Char) :=
  let flags := reader.flags
  match char with
  | '(' => reader.open rest
  | ')' => reader.leave.map (·, rest)
  | '|' => some (reader.branch, rest)
  | '[' => do
      let (operand, rest) ← readSet flags rest
      return (reader.add (← setPiece flags operand.set operand.depth), rest)
  | '?' => (reader.repeatLast 0 (some 1)).map (·, dropReluctant rest)
  | '*' => (reader.repeatLast 0 none).map (·, dropReluctant rest)
  | '+' => (reader.repeatLast 1 none).map (·, dropReluctant rest)
  | '\x7b' => do
      let (least, most, rest) ← readBounds flags rest
      return (← reader.repeatLast least most, rest)
  | '\\' => do
      let (escape, rest) ← readEscape flags rest
      return (reader.add (← escapePiece flags escape), rest)
  | '.' => if flags.unicode then (setPiece flags (dotSet flags) 0).map fun piece => (reader.add piece, rest) else none
  | '^' => some (reader.add (assertionPiece (if flags.multiline then .lineStart flags.returns else .textStart)), rest)
  | '$' => some (reader.add (assertionPiece (if flags.multiline then .lineEnd flags.returns else .textEnd)), rest)
  | char => (literalPiece flags char).map fun piece => (reader.add piece, rest)

/-- Read on up to the end of the text. -/
def Reader.run : Nat → Reader → List Char → Option Piece
  | 0, _, _ => none
  | fuel + 1, reader, text =>
      match skip reader.flags text with
      | [] => if reader.outer.isEmpty then some reader.level.close else none
      | char :: rest => do
          let (reader, rest) ← reader.step char rest
          Reader.run fuel reader rest

/-- The structure of a pattern, if its text is one and keeps to the limits. -/
def readNode (text : List Char) : Option Node := do
  let piece ← Reader.run (text.length + 1) {} text
  if piece.depth ≤ depthLimit && piece.cost ≤ costLimit then return piece.node else none

end Pattern
end CompilerRelay
