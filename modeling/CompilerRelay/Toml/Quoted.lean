import CompilerRelay.Toml.Scalar

/-!
# Quoted texts of TOML

**Input.**  The text after the opening quotes.

**Algorithm.**  A machine with one step per character.  Between double quotes a backslash begins an escape: a
letter, a number of two, four or eight digits, or, in a text of several lines, the end of a line, which is skipped
with all blanks after it.  Between single quotes everything stands for itself.

**Place.**  A part of the start of the program, where the configuration is read.
-/

namespace CompilerRelay
namespace Toml

/-- Whether a character may stand in a comment. -/
def isCommentChar (char : Char) : Bool :=
  char == '\t' || (0x20 ≤ char.toNat && char.toNat ≠ 0x7F)

/-- Whether a character is a blank within a line. -/
def isSpace (char : Char) : Bool :=
  char == ' ' || char == '\t'

/-- Where a text between double quotes is being read. -/
inductive TextMode where
  | plain
  /-- After a backslash. -/
  | escape
  /-- In the number of a character, with so many digits to come. -/
  | code (left value : Nat)
  /-- After a backslash and blanks, before the end of the line. -/
  | lineEnd
  /-- After an escaped end of a line. -/
  | margin
  deriving DecidableEq, Repr

/-- What a character does to the reading of a text. -/
inductive TextStep where
  /-- It adds a character. -/
  | put (char : Char) (mode : TextMode)
  | pass (mode : TextMode)
  | close
  | fault
  deriving DecidableEq, Repr

/-- The character that a letter stands for after a backslash. -/
def escaped? : Char → Option Char
  | 'b' => some '\x08'
  | 't' => some '\t'
  | 'n' => some '\n'
  | 'f' => some '\x0c'
  | 'r' => some '\r'
  | 'e' => some '\x1b'
  | '"' => some '"'
  | '\\' => some '\\'
  | _ => none

/-- How many digits follow a letter after a backslash. -/
def codeLength? : Char → Option Nat
  | 'x' => some 2
  | 'u' => some 4
  | 'U' => some 8
  | _ => none

/-- Whether a text begins with the end of a line. -/
def startsLine : List Char → Bool
  | '\n' :: _ => true
  | '\r' :: '\n' :: _ => true
  | _ => false

/-- What a character that is not escaped does. -/
def plainStep (multiline : Bool) (char : Char) (rest : List Char) : TextStep :=
  if char = '\\' then .pass .escape
  else if char = '"' then
    if !multiline || ['"', '"'].isPrefixOf rest then .close else .put char .plain
  else if isCommentChar char || (multiline && startsLine (char :: rest)) then .put char .plain
  else .fault

/-- What a character after a backslash does. -/
def escapeStep (multiline : Bool) (char : Char) (rest : List Char) : TextStep :=
  match escaped? char, codeLength? char with
  | some char, _ => .put char .plain
  | none, some length => .pass (.code length 0)
  | none, none =>
      if !multiline then .fault
      else if isSpace char then .pass .lineEnd
      else if char = '\n' then .pass .margin
      else if startsLine (char :: rest) then .pass .lineEnd
      else .fault

/-- What a digit of the number of a character does. -/
def codeStep (left value : Nat) (char : Char) : TextStep :=
  let sum := value * 16 + digitValue char
  if !isHexDigit char then .fault
  else if 1 < left then .pass (.code (left - 1) sum)
  else if sum.isValidChar then .put (Char.ofNat sum) .plain
  else .fault

/-- What a character does. -/
def textStep (multiline : Bool) (mode : TextMode) (char : Char) (rest : List Char) : TextStep :=
  match mode with
  | .plain => plainStep multiline char rest
  | .escape => escapeStep multiline char rest
  | .code left value => codeStep left value char
  | .lineEnd =>
      if char = '\n' then .pass .margin
      else if isSpace char || startsLine (char :: rest) then .pass .lineEnd
      else .fault
  | .margin =>
      if isSpace char || startsLine (char :: rest) then .pass .margin else plainStep multiline char rest

/-- The quotes before the closing ones of a text of several lines: up to two of them belong to the text. -/
def closing (quote : Char) (rest : List Char) : List Char × List Char :=
  match rest with
  | first :: second :: after =>
      if first = quote && second = quote then ([quote, quote], after)
      else if first = quote then ([quote], second :: after)
      else ([], rest)
  | [first] => if first = quote then ([quote], []) else ([], rest)
  | [] => ([], [])

/-- Read a text between double quotes. -/
def readBasic (multiline : Bool) : TextMode → List Char → Option (List Char × List Char)
  | _, [] => none
  | mode, char :: rest =>
      match textStep multiline mode char rest with
      | .put char mode => (readBasic multiline mode rest).map fun (text, after) => (char :: text, after)
      | .pass mode => readBasic multiline mode rest
      | .close => some (if multiline then closing '"' (rest.drop 2) else ([], rest))
      | .fault => none

/-- Read a text between single quotes. -/
def readLiteral (multiline : Bool) : List Char → Option (List Char × List Char)
  | [] => none
  | char :: rest =>
      if char = '\'' && (!multiline || ['\'', '\''].isPrefixOf rest) then
        some (if multiline then closing '\'' (rest.drop 2) else ([], rest))
      else if isCommentChar char || (multiline && startsLine (char :: rest)) then
        (readLiteral multiline rest).map fun (text, after) => (char :: text, after)
      else none

/-- A text of several lines without the end of a line that it begins with. -/
def dropLineStart : List Char → List Char
  | '\n' :: rest => rest
  | '\r' :: '\n' :: rest => rest
  | rest => rest

/-- Read a quoted text, if one begins here. -/
def readQuoted (multiline : Bool) (text : List Char) : Option (List Char × List Char) :=
  match text with
  | '"' :: rest =>
      if multiline && ['"', '"'].isPrefixOf rest then readBasic true .plain (dropLineStart (rest.drop 2))
      else readBasic false .plain rest
  | '\'' :: rest =>
      if multiline && ['\'', '\''].isPrefixOf rest then readLiteral true (dropLineStart (rest.drop 2))
      else readLiteral false rest
  | _ => none

end Toml
end CompilerRelay
