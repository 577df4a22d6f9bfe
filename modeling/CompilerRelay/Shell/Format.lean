import CompilerRelay.Shell.Expansion

/-!
# Formatted output

The texts that the commands for output write.

**Algorithm.**  A format is read from left to right.  An escape stands for a byte, and a directive for the next
argument, filled up to a width.  A format that takes arguments is used again while there are some.

**Place.**  A part of the stage on which the relay is rehearsed.
-/

namespace CompilerRelay
namespace Shell

/-- The character that a letter stands for after a backslash. -/
def escaped? : Char → Option Char
  | 'n' => some '\n'
  | 't' => some '\t'
  | 'r' => some '\r'
  | 'a' => some '\x07'
  | 'b' => some '\x08'
  | 'f' => some '\x0c'
  | 'v' => some '\x0b'
  | '\\' => some '\\'
  | _ => none

/-- Whether a character is a digit to the base eight. -/
def isOctal (char : Char) : Bool := '0' ≤ char && char ≤ '7'

/-- The byte of up to three digits to the base eight, and what follows them. -/
def cutOctal (text : List Char) : Char × List Char :=
  let digits := (text.take 3).takeWhile isOctal
  let code := digits.foldl (fun sum digit => sum * 8 + (digit.toNat - '0'.toNat)) 0
  (Char.ofNat (code % 256), text.drop digits.length)

/-- The characters that an escape stands for after its backslash, and what follows it. -/
def cutEscape (zeroed : Bool) (text : List Char) : List Char × List Char :=
  match text with
  | [] => (['\\'], [])
  | char :: rest =>
      match escaped? char with
      | some char => ([char], rest)
      | none =>
          if zeroed && char = '0' then
            let (char, rest) := cutOctal rest
            ([char], rest)
          else if !zeroed && isOctal char then
            let (char, rest) := cutOctal text
            ([char], rest)
          else if !zeroed && (char = '"' || char = '\'') then ([char], rest)
          else (['\\', char], rest)

/-- A text with its escapes replaced, and whether it ends all output. -/
def unescape : Nat → List Char → List Char × Bool
  | 0, _ => ([], false)
  | _ + 1, [] => ([], false)
  | fuel + 1, '\\' :: rest =>
      if rest.head? = some 'c' then ([], true)
      else
        let (chars, after) := cutEscape true rest
        let (more, ends) := unescape fuel after
        (chars ++ more, ends)
  | fuel + 1, char :: rest =>
      let (more, ends) := unescape fuel rest
      (char :: more, ends)

/-- A text filled with blanks up to a width. -/
def fill (left : Bool) (width : Nat) (text : List Char) : List Char :=
  let blanks := List.replicate (width - text.length) ' '
  if left then text ++ blanks else blanks ++ text

/-- What a directive makes of an argument. -/
def convert (letter : Char) (precision : Option Nat) (argument : List Char) : Option (List Char) :=
  match letter with
  | 's' => some (argument.take (precision.getD argument.length))
  | 'd' | 'i' => some (integerText (integerOf argument))
  | 'u' => some (decimal (integerOf argument).toNat)
  | 'x' => some (Nat.toDigits 16 (integerOf argument).toNat)
  | 'X' => some ((Nat.toDigits 16 (integerOf argument).toNat).map Char.toUpper)
  | 'o' => some (Nat.toDigits 8 (integerOf argument).toNat)
  | 'c' => some (argument.take 1)
  | 'b' => some (unescape (argument.length + 1) argument).1
  | _ => none

/-- What a format makes of arguments, the arguments that it leaves, and whether it took any. -/
def formatOnce : Nat → List Char → List (List Char) → List Char × List (List Char) × Bool
  | 0, _, arguments => ([], arguments, false)
  | _ + 1, [], arguments => ([], arguments, false)
  | fuel + 1, '\\' :: rest, arguments =>
      let (chars, after) := cutEscape false rest
      let (more, left, took) := formatOnce fuel after arguments
      (chars ++ more, left, took)
  | fuel + 1, '%' :: '%' :: rest, arguments =>
      let (more, left, took) := formatOnce fuel rest arguments
      ('%' :: more, left, took)
  | fuel + 1, '%' :: rest, arguments =>
      let marks := rest.takeWhile fun char => char == '-' || char == '+' || char == ' ' || char == '#'
      let afterMarks := rest.drop marks.length
      let width := afterMarks.takeWhile Char.isDigit
      let afterWidth := afterMarks.drop width.length
      let (precision, afterPrecision) :=
        match afterWidth with
        | '.' :: more => (some (ofDecimal (more.takeWhile Char.isDigit)), more.dropWhile Char.isDigit)
        | more => (none, more)
      match afterPrecision with
      | [] => ([], arguments, false)
      | letter :: after =>
          let text := (convert letter precision (arguments.headD [])).getD []
          let (more, left, _) := formatOnce fuel after (arguments.drop 1)
          (fill (marks.contains '-') (ofDecimal width) text ++ more, left, true)
  | fuel + 1, char :: rest, arguments =>
      let (more, left, took) := formatOnce fuel rest arguments
      (char :: more, left, took)

/-- What a format makes of all arguments. -/
def formatAll : Nat → List Char → List (List Char) → List Char
  | 0, _, _ => []
  | fuel + 1, format, arguments =>
      let (text, left, took) := formatOnce (format.length + 1) format arguments
      if took && !left.isEmpty then text ++ formatAll fuel format left else text

end Shell
end CompilerRelay
