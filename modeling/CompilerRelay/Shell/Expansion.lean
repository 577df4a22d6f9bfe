import CompilerRelay.Shell.Arithmetic
import CompilerRelay.Shell.Script

/-!
# From words to texts

**Input.**  A word, and the variables.

**Algorithm.**  References are replaced by what they stand for.  The result is split at the blanks that came from
references without quotes.  A pattern is matched as a whole; a star takes any number of characters.

**Place.**  A part of the stage on which the relay is rehearsed.
-/

namespace CompilerRelay
namespace Shell

/-- What words are expanded with. -/
structure Scope where
  bindings : List (List Char × List Char) := []
  /-- The status of the command before. -/
  status : Nat := 0
  /-- The name of the script, and its arguments. -/
  arguments : List (List Char) := []
  deriving DecidableEq, Repr

/-- A number as a text. -/
def decimal (number : Nat) : List Char :=
  Nat.toDigits 10 number

/-- The integer that a text is. -/
def integerOf : List Char → Int
  | '-' :: digits => -(ofDecimal (digits.takeWhile Char.isDigit) : Int)
  | '+' :: digits => ofDecimal (digits.takeWhile Char.isDigit)
  | digits => ofDecimal (digits.takeWhile Char.isDigit)

/-- An integer as a text. -/
def integerText (value : Int) : List Char :=
  if value < 0 then '-' :: decimal value.natAbs else decimal value.natAbs

namespace Scope

/-- The value of a variable, if it is set. -/
def lookup? (scope : Scope) (name : List Char) : Option (List Char) :=
  scope.bindings.lookup name

/-- Set a variable. -/
def set (scope : Scope) (name value : List Char) : Scope :=
  { scope with bindings := (name, value) :: scope.bindings.filter (·.1 ≠ name) }

/-- Set a variable, or take it away. -/
def put (scope : Scope) (name : List Char) : Option (List Char) → Scope
  | some value => scope.set name value
  | none => { scope with bindings := scope.bindings.filter (·.1 ≠ name) }

/-- What a name stands for. -/
def value (scope : Scope) (name : List Char) : List Char :=
  match name with
  | ['?'] => decimal scope.status
  | ['#'] => decimal (scope.arguments.length - 1)
  | ['$'] => decimal 1
  | ['@'] | ['*'] => ((scope.arguments.drop 1).intersperse [' ']).flatten
  | _ =>
      if name.all Char.isDigit then scope.arguments.getD (ofDecimal name) []
      else (scope.lookup? name).getD []

end Scope

/-! ## Patterns -/

/-- A part of a pattern. -/
inductive Glob where
  | char (char : Char)
  /-- One character. -/
  | one
  /-- Any number of characters. -/
  | many
  /-- One character inside or outside of ranges. -/
  | range (negated : Bool) (ranges : List (Char × Char))
  deriving DecidableEq, Repr

/-- Whether a character is in one of some ranges. -/
def inRanges (ranges : List (Char × Char)) (char : Char) : Bool :=
  ranges.any fun (low, high) => low ≤ char && char ≤ high

/-- Whether a pattern matches a whole text. -/
def glob : List Glob → List Char → Bool
  | [], text => text.isEmpty
  | [.many], _ => true
  | .many :: rest, text => (List.range (text.length + 1)).any fun taken => glob rest (text.drop taken)
  | .char expected :: rest, char :: text => char == expected && glob rest text
  | .one :: rest, _ :: text => glob rest text
  | .range negated ranges :: rest, char :: text => (inRanges ranges char != negated) && glob rest text
  | _ :: _, [] => false

/-- A value without what a pattern matches at its start. -/
def cutStart (longest : Bool) (pattern : List Glob) (value : List Char) : List Char :=
  let sizes := List.range (value.length + 1)
  match (if longest then sizes.reverse else sizes).find? fun size => glob pattern (value.take size) with
  | some size => value.drop size
  | none => value

/-- A value without what a pattern matches at its end. -/
def cutEnd (longest : Bool) (pattern : List Glob) (value : List Char) : List Char :=
  let sizes := List.range (value.length + 1)
  match (if longest then sizes else sizes.reverse).find? fun size => glob pattern (value.drop size) with
  | some size => value.take size
  | none => value

/-! ## Words -/

/-- A piece of an expanded word. -/
inductive Piece where
  /-- A character, whether it is special in patterns, and whether the word may be split there. -/
  | char (char : Char) (special splits : Bool)
  /-- Quotes, which make a word even if there is nothing in them. -/
  | quotes
  deriving DecidableEq, Repr

/-- The characters of pieces. -/
def charsOf (pieces : List Piece) : List Char :=
  pieces.filterMap fun
    | .char char _ _ => some char
    | .quotes => none

/-- The ranges of a set of characters up to its bracket, and what follows it. -/
def cutRanges : List Piece → List (Char × Char) → Option (List (Char × Char) × List Piece)
  | [], _ => none
  | .char ']' true _ :: rest, ranges => if ranges.isEmpty then cutRanges rest [(']', ']')] else some (ranges, rest)
  | .char low _ _ :: .char '-' true _ :: .char high special _ :: rest, ranges =>
      if high = ']' && special then
        some ((low, low) :: ('-', '-') :: ranges, rest)
      else cutRanges rest ((low, high) :: ranges)
  | .char char _ _ :: rest, ranges => cutRanges rest ((char, char) :: ranges)
  | .quotes :: rest, ranges => cutRanges rest ranges

/-- The pattern that pieces make. -/
def globOf : Nat → List Piece → List Glob
  | 0, _ => []
  | _ + 1, [] => []
  | fuel + 1, .quotes :: rest => globOf fuel rest
  | fuel + 1, .char char special _ :: rest =>
      if !special then .char char :: globOf fuel rest
      else if char = '*' then .many :: globOf fuel rest
      else if char = '?' then .one :: globOf fuel rest
      else if char = '[' then
        let (negated, body) :=
          match rest with
          | .char '!' true _ :: body => (true, body)
          | body => (false, body)
        match cutRanges body [] with
        | some (ranges, after) => .range negated ranges :: globOf fuel after
        | none => .char char :: globOf fuel rest
      else .char char :: globOf fuel rest

/-- The pieces of a text from the script. -/
def piecesOf (chars : List Char) (quoted : Bool) : List Piece :=
  if quoted then .quotes :: chars.map (.char · false false) else chars.map (.char · true false)

/-- The pieces of a value. -/
def valuePieces (value : List Char) (quoted : Bool) : List Piece :=
  if quoted then .quotes :: value.map (.char · false false) else value.map (.char · true true)

mutual

/-- The pieces of a part of a word. -/
def expandPart (scope : Scope) : Part → List Piece
  | .text chars quoted => piecesOf chars quoted
  | .variable name form argument quoted =>
      let value := scope.value name
      let pieces := expandParts scope argument
      let pattern := globOf (pieces.length + 1) pieces
      match form with
      | .value => valuePieces value quoted
      | .withoutStart longest => valuePieces (cutStart longest pattern value) quoted
      | .withoutEnd longest => valuePieces (cutEnd longest pattern value) quoted
      | .orElse => valuePieces (if value.isEmpty then charsOf pieces else value) quoted
  | .arithmetic expression quoted =>
      valuePieces (integerText (Arithmetic.evaluate (fun name => integerOf (scope.value name)) expression)) quoted

/-- The pieces of a word. -/
def expandParts (scope : Scope) : List Part → List Piece
  | [] => []
  | part :: rest => expandPart scope part ++ expandParts scope rest

end

/-- Whether a character is one of the blanks at which words are split. -/
def isSplitter (char : Char) : Bool :=
  char == ' ' || char == '\t' || char == '\n'

/-- The texts that pieces are split into; `current` is the one being put together, reversed. -/
def splitPieces : Option (List Char) → List Piece → List (List Char)
  | current, [] => (current.map List.reverse).toList
  | current, .quotes :: rest => splitPieces (some (current.getD [])) rest
  | current, .char char _ splits :: rest =>
      if splits && isSplitter char then (current.map List.reverse).toList ++ splitPieces none rest
      else splitPieces (some (char :: current.getD [])) rest

/-- The texts that a word stands for. -/
def expandWord (scope : Scope) (word : Word) : List (List Char) :=
  splitPieces none (expandParts scope word)

/-- The one text that a word stands for where words are not split. -/
def expandText (scope : Scope) (word : Word) : List Char :=
  charsOf (expandParts scope word)

/-- The pattern that a word stands for. -/
def expandPattern (scope : Scope) (word : Word) : List Glob :=
  let pieces := expandParts scope word
  globOf (pieces.length + 1) pieces

end Shell
end CompilerRelay
