import CompilerRelay.Text.Search

/-!
# Arithmetic

The value of an expression over integers.

**Input.**  The text of the expression, and what names stand for.

**Algorithm.**  Reading goes down the levels of the operators, the loosest first; the operators of a level group from
the left.  Division goes toward zero.  What cannot be read counts as zero.

**Place.**  A part of the stage on which the relay is rehearsed.
-/

namespace CompilerRelay
namespace Shell

/-- Whether a character may stand in the name of a variable. -/
def isNameChar (char : Char) : Bool :=
  char.isAlphanum || char == '_'

/-- A decimal number from a text. -/
def ofDecimal (digits : List Char) : Nat :=
  digits.foldl (fun sum digit => sum * 10 + (digit.toNat - '0'.toNat)) 0

namespace Arithmetic

/-- A truth value as a number. -/
def ofBool (value : Bool) : Int :=
  if value then 1 else 0

/-- An operator by its text. -/
structure Operator where
  text : String
  apply : Int → Int → Int

/-- The operators of each level, the loosest first; an operator comes before those that it begins with. -/
def levels : List (List Operator) :=
  [ [⟨"||", fun first second => ofBool (first ≠ 0 || second ≠ 0)⟩],
    [⟨"&&", fun first second => ofBool (first ≠ 0 && second ≠ 0)⟩],
    [⟨"==", fun first second => ofBool (first = second)⟩, ⟨"!=", fun first second => ofBool (first ≠ second)⟩],
    [⟨"<=", fun first second => ofBool (first ≤ second)⟩, ⟨">=", fun first second => ofBool (second ≤ first)⟩,
      ⟨"<", fun first second => ofBool (first < second)⟩, ⟨">", fun first second => ofBool (second < first)⟩],
    [⟨"+", (· + ·)⟩, ⟨"-", (· - ·)⟩],
    [⟨"*", (· * ·)⟩, ⟨"/", Int.tdiv⟩, ⟨"%", Int.tmod⟩] ]

/-- The text after blanks. -/
def afterBlanks (text : List Char) : List Char :=
  text.dropWhile fun char => char == ' ' || char == '\t' || char == '\n'

/-- The operator of a level that a text begins with, and what follows it. -/
def cutOperator? (level : List Operator) (text : List Char) : Option (Operator × List Char) :=
  (level.find? fun operator => operator.text.toList.isPrefixOf text).map fun operator =>
    (operator, text.drop operator.text.length)

mutual

/-- Read an expression with the operators of some levels. -/
def readBinary (value : List Char → Int) : Nat → List (List Operator) → List Char → Int × List Char
  | 0, _, text => (0, text)
  | fuel + 1, [], text => readUnary value fuel (afterBlanks text)
  | fuel + 1, level :: tighter, text =>
      let (first, rest) := readBinary value fuel tighter text
      readRest value fuel level tighter first rest

/-- Read on after an operand. -/
def readRest (value : List Char → Int) :
    Nat → List Operator → List (List Operator) → Int → List Char → Int × List Char
  | 0, _, _, first, text => (first, text)
  | fuel + 1, level, tighter, first, text =>
      match cutOperator? level (afterBlanks text) with
      | none => (first, text)
      | some (operator, rest) =>
          let (second, after) := readBinary value fuel tighter rest
          readRest value fuel level tighter (operator.apply first second) after

/-- Read an operand. -/
def readUnary (value : List Char → Int) : Nat → List Char → Int × List Char
  | 0, text => (0, text)
  | fuel + 1, text =>
      match text with
      | '-' :: rest => Prod.map (- ·) id (readUnary value fuel (afterBlanks rest))
      | '+' :: rest => readUnary value fuel (afterBlanks rest)
      | '!' :: rest => Prod.map (fun number => ofBool (number = 0)) id (readUnary value fuel (afterBlanks rest))
      | '$' :: rest => readUnary value fuel rest
      | '(' :: rest => Prod.map id (fun after => (afterBlanks after).drop 1) (readBinary value fuel levels rest)
      | char :: _ =>
          let word := text.takeWhile isNameChar
          (if char.isDigit then ofDecimal word else value word, text.drop word.length)
      | [] => (0, [])

end

/-- The value of an expression. -/
def evaluate (value : List Char → Int) (text : List Char) : Int :=
  (readBinary value (8 * text.length + 16) levels text).1

end Arithmetic
end Shell
end CompilerRelay
