import CompilerRelay.Text.Search
import CompilerRelay.Toml

/-!
# Numbers, times and words of TOML

**Input.**  The characters of a value that is not quoted.

**Algorithm.**  The text is classified as a whole: a word, an integer, a fraction, or a time.  Underscores may stand
between any two digits.  An integer must fit 128 bits, and a fraction must be finite.

**Place.**  A part of the start of the program, where the configuration is read.
-/

namespace CompilerRelay
namespace Toml

/-- The digits of a number, written with underscores between some of them. -/
def ungroup (isDigit : Char → Bool) (text : List Char) : Option (List Char) :=
  let groups := Text.splitOn '_' text
  if groups.all fun group => !group.isEmpty && group.all isDigit then some groups.flatten else none

/-- The value of a digit. -/
def digitValue (digit : Char) : Nat :=
  if digit.isDigit then digit.toNat - '0'.toNat else digit.toLower.toNat - 'a'.toNat + 10

/-- The number that digits are in a base. -/
def ofDigits (base : Nat) (digits : List Char) : Nat :=
  digits.foldl (fun sum digit => sum * base + digitValue digit) 0

/-- Whether a character is a digit to the base sixteen. -/
def isHexDigit (char : Char) : Bool :=
  char.isDigit || ('a' ≤ char && char ≤ 'f') || ('A' ≤ char && char ≤ 'F')

/-- Whether a character is a digit to the base eight. -/
def isOctalDigit (char : Char) : Bool := '0' ≤ char && char ≤ '7'

/-- Whether a character is a digit to the base two. -/
def isBinaryDigit (char : Char) : Bool := char == '0' || char == '1'

/-- A text without its sign, and whether it is negative. -/
def cutSign : List Char → Bool × List Char
  | '-' :: rest => (true, rest)
  | '+' :: rest => (false, rest)
  | rest => (false, rest)

/-- The digits of a decimal integer; one that is longer than one digit does not begin with a zero. -/
def decimalDigits (text : List Char) : Option (List Char) := do
  let digits ← ungroup Char.isDigit text
  if digits.head? = some '0' && digits.length ≠ 1 then none else return digits

/-- An integer, if it fits 128 bits with or without a sign. -/
def integerOf (negative : Bool) (magnitude : Nat) : Option Toml :=
  if negative then if magnitude ≤ Nat.pow 2 127 then some (.integer (-magnitude)) else none
  else if magnitude < Nat.pow 2 128 then some (.integer magnitude)
  else none

/-- The integer that a text is. -/
def integer? : List Char → Option Toml
  | '0' :: 'x' :: rest => (ungroup isHexDigit rest).bind fun digits => integerOf false (ofDigits 16 digits)
  | '0' :: 'o' :: rest => (ungroup isOctalDigit rest).bind fun digits => integerOf false (ofDigits 8 digits)
  | '0' :: 'b' :: rest => (ungroup isBinaryDigit rest).bind fun digits => integerOf false (ofDigits 2 digits)
  | text =>
      let (negative, rest) := cutSign text
      (decimalDigits rest).bind fun digits => integerOf negative (ofDigits 10 digits)

/-- The least number that is rounded to none of 64 bits. -/
def fractionLimit : Nat := Nat.pow 2 1024 - Nat.pow 2 970

/-- Whether a significand times a power of ten is rounded to a finite number of 64 bits. -/
def isFinite (significand : Nat) (exponent : Int) : Bool :=
  let size := ((Nat.toDigits 10 significand).length : Int) + exponent
  if significand = 0 || size ≤ 308 then true
  else if 310 < size then false
  else if 0 ≤ exponent then significand * Nat.pow 10 exponent.toNat < fractionLimit
  else significand < fractionLimit * Nat.pow 10 (-exponent).toNat

/-- The exponent that follows a significand. -/
def exponentOf (text : List Char) : Option Int := do
  let (negative, rest) := cutSign text
  let digits ← ungroup Char.isDigit rest
  return if negative then -(ofDigits 10 digits : Int) else ofDigits 10 digits

/-- Whether a text without a sign is a fraction, and a finite one. -/
def isFraction (text : List Char) : Bool :=
  let isMark (char : Char) : Bool := char == 'e' || char == 'E'
  let mantissa := text.takeWhile (!isMark ·)
  let mark := text.dropWhile (!isMark ·)
  let whole := mantissa.takeWhile (· ≠ '.')
  let part := mantissa.dropWhile (· ≠ '.')
  let places : Option (List Char) := if part.isEmpty then some [] else ungroup Char.isDigit (part.drop 1)
  let exponent : Option Int := if mark.isEmpty then some 0 else exponentOf (mark.drop 1)
  match decimalDigits whole, places, exponent with
  | some digits, some places, some exponent =>
      !(part.isEmpty && mark.isEmpty) && isFinite (ofDigits 10 (digits ++ places)) (exponent - places.length)
  | _, _, _ => false

/-- The fraction that a text is. -/
def fraction? (text : List Char) : Option Toml :=
  let (_, rest) := cutSign text
  if rest = "inf".toList || rest = "nan".toList || isFraction rest then some .fraction else none

/-! ## Times -/

/-- The number of two digits. -/
def twoDigits? (tens ones : Char) : Option Nat :=
  if tens.isDigit && ones.isDigit then some (ofDigits 10 [tens, ones]) else none

/-- Whether there is such a year with 366 days. -/
def isLeapYear (year : Nat) : Bool :=
  year % 4 == 0 && (year % 100 != 0 || year % 400 == 0)

/-- The number of days in a month. -/
def daysIn (year month : Nat) : Nat :=
  if month = 2 then if isLeapYear year then 29 else 28
  else if month = 4 || month = 6 || month = 9 || month = 11 then 30
  else 31

/-- Whether a text is a date. -/
def isDate : List Char → Bool
  | [y1, y2, y3, y4, '-', m1, m2, '-', d1, d2] =>
      match twoDigits? y1 y2, twoDigits? y3 y4, twoDigits? m1 m2, twoDigits? d1 d2 with
      | some century, some year, some month, some day =>
          1 ≤ month && month ≤ 12 && 1 ≤ day && day ≤ daysIn (century * 100 + year) month
      | _, _, _, _ => false
  | _ => false

/-- Whether a text is an hour and a minute of a day. -/
def isMinute (hours : Nat) : List Char → Bool
  | [h1, h2, ':', m1, m2] =>
      (twoDigits? h1 h2).any (· ≤ hours) && (twoDigits? m1 m2).any (· ≤ 59)
  | _ => false

/-- Whether a text is the seconds of a time, if it has any. -/
def isSecond : List Char → Bool
  | [] => true
  | ':' :: s1 :: s2 :: rest =>
      (twoDigits? s1 s2).any (· ≤ 60)
        && (rest.isEmpty || (rest.head? == some '.' && rest.length ≠ 1 && (rest.drop 1).all Char.isDigit))
  | _ => false

/-- Whether a text is a time of a day. -/
def isClock (text : List Char) : Bool :=
  isMinute 23 (text.take 5) && isSecond (text.drop 5)

/-- Whether a text is a time of a day and what it is ahead of the world's time, if that is given. -/
def isZonedClock (text : List Char) : Bool :=
  let zone := text.drop (text.length - 6)
  if text.getLast?.any (fun char => char == 'Z' || char == 'z') then isClock text.dropLast
  else if 6 ≤ text.length && (zone.head? == some '+' || zone.head? == some '-') then
    isMinute 23 (zone.drop 1) && isClock (text.take (text.length - 6))
  else isClock text

/-- Whether a character stands between a date and a time. -/
def isTimeMark (char : Char) : Bool :=
  char == 'T' || char == 't' || char == ' '

/-- The time that a text is. -/
def time? (text : List Char) : Option Toml :=
  let rest := text.drop 10
  let dated := isDate (text.take 10)
  if isClock text || (dated && (rest.isEmpty || (rest.head?.any isTimeMark && isZonedClock (rest.drop 1))))
  then some .time
  else none

/-- The value that a text without quotes is. -/
def ofScalar (text : List Char) : Option Toml :=
  if text = "true".toList then some (.boolean true)
  else if text = "false".toList then some (.boolean false)
  else (integer? text).or ((fraction? text).or (time? text))

end Toml
end CompilerRelay
