import CompilerRelay.Decimal
import CompilerRelay.Json

/-!
# Reading numbers

The numbers of JSON: integers of 64 bits by their value, all others as floating-point numbers of 64 bits.

**Algorithm.**  The digits are gathered into a significand of 64 bits.  Digits that do not fit any more are
dropped; those before the point raise the exponent.  The significand is rounded once, and once more when it
is scaled by the power of ten.
-/

namespace CompilerRelay
namespace Json

/-- Why a number could not be read, with the text that follows the place. -/
inductive NumberFault where
  /-- The character before the place is wrong. -/
  | invalid (rest : List Char)
  /-- The next character is wrong. -/
  | invalidNext (rest : List Char)
  | outOfRange (rest : List Char)
  /-- The text ended. -/
  | ended
  deriving DecidableEq, Repr

/-- The least number that needs more than 64 bits. -/
def wordLimit : Nat := Nat.pow 2 64

/-- The value of a digit. -/
def digitValue (digit : Char) : Nat :=
  digit.toNat - '0'.toNat

/-- Extend a significand by the digits at the start of a text, as long as it fits 64 bits.  The result is the
significand, how many digits it took, and what follows them. -/
def gatherDigits (significand count : Nat) : List Char → Nat × Nat × List Char
  | [] => (significand, count, [])
  | char :: rest =>
      if char.isDigit && significand * 10 + digitValue char < wordLimit then
        gatherDigits (significand * 10 + digitValue char) (count + 1) rest
      else (significand, count, char :: rest)

/-- A significand times a power of ten, if it is finite. -/
def scale (significand : Nat) (exponent : Int) : Option Float :=
  go (exponent.natAbs / 308 + 1) (UInt64.ofNat significand).toFloat exponent
where
  /-- Scale in steps that a power of ten is exact enough for. -/
  go : Nat → Float → Int → Option Float
    | 0, value, _ => some value
    | fuel + 1, value, exponent =>
        if exponent.natAbs ≤ 308 then
          let power := Float.ofScientific 1 false exponent.natAbs
          let scaled := if 0 ≤ exponent then value * power else value / power
          if scaled.isInf then none else some scaled
        else if value == 0.0 then some value
        else if 0 ≤ exponent then none
        else go fuel (value / Float.ofScientific 1 false 308) (exponent + 308)

/-- The most that an exponent may be. -/
def exponentLimit : Nat := Nat.pow 2 31

/-- A floating-point number by its sign and magnitude. -/
def ofFloat (negative : Bool) (magnitude : Float) : JsonNumber :=
  .decimal (Decimal.text (if negative then -magnitude else magnitude).toBits)

/-- The number of a significand and an exponent. -/
def scaled (negative : Bool) (significand : Nat) (exponent : Int) (rest : List Char) :
    Except NumberFault (JsonNumber × List Char) :=
  match scale significand exponent with
  | some magnitude => .ok (ofFloat negative magnitude, rest)
  | none => .error (.outOfRange rest)

/-- Read the digits of an exponent; one that is too large counts as endless. -/
def readExponentDigits (negative down : Bool) (significand : Nat) (start : Int) (sum : Nat) :
    List Char → Except NumberFault (JsonNumber × List Char)
  | [] => scaled negative significand (if down then start - sum else start + sum) []
  | char :: rest =>
      if char.isDigit then
        if sum * 10 + digitValue char < exponentLimit then
          readExponentDigits negative down significand start (sum * 10 + digitValue char) rest
        else if significand ≠ 0 && !down then .error (.outOfRange rest)
        else .ok (ofFloat negative 0.0, rest.dropWhile Char.isDigit)
      else scaled negative significand (if down then start - sum else start + sum) (char :: rest)

/-- Read an exponent after its letter. -/
def readExponent (negative : Bool) (significand : Nat) (start : Int) (text : List Char) :
    Except NumberFault (JsonNumber × List Char) :=
  let (down, text) :=
    match text with
    | '+' :: rest => (false, rest)
    | '-' :: rest => (true, rest)
    | rest => (false, rest)
  match text with
  | [] => .error .ended
  | char :: rest =>
      if char.isDigit then readExponentDigits negative down significand start (digitValue char) rest
      else .error (.invalid rest)

/-- Read an exponent if one follows. -/
def readScale (negative : Bool) (significand : Nat) (exponent : Int) (text : List Char) :
    Except NumberFault (JsonNumber × List Char) :=
  match text with
  | 'e' :: rest | 'E' :: rest => readExponent negative significand exponent rest
  | rest => scaled negative significand exponent rest

/-- Read the digits after the point. -/
def readFraction (negative : Bool) (significand : Nat) (start : Int) (text : List Char) :
    Except NumberFault (JsonNumber × List Char) :=
  let (longer, count, rest) := gatherDigits significand 0 text
  match rest with
  | char :: _ =>
      if char.isDigit then readScale negative longer (start - count) (rest.dropWhile Char.isDigit)
      else if count = 0 then .error (.invalidNext rest)
      else readScale negative longer (start - count) rest
  | [] => if count = 0 then .error .ended else readScale negative longer (start - count) []

/-- The integer of a sign and a magnitude; a negative one that is zero or too small is no integer. -/
def ofInteger (negative : Bool) (magnitude : Nat) : JsonNumber :=
  if !negative then .natural magnitude
  else if magnitude = 0 ∨ Nat.pow 2 63 < magnitude then ofFloat true (UInt64.ofNat magnitude).toFloat
  else .negative magnitude

/-- Read what follows the digits before the point. -/
def readAfterInteger (negative : Bool) (significand : Nat) (text : List Char) :
    Except NumberFault (JsonNumber × List Char) :=
  match text with
  | '.' :: rest => readFraction negative significand 0 rest
  | 'e' :: rest | 'E' :: rest => readExponent negative significand 0 rest
  | rest => .ok (ofInteger negative significand, rest)

/-- Read an integer whose significand is full; the digits that follow raise the exponent. -/
def readLongInteger (negative : Bool) (significand : Nat) (text : List Char) :
    Except NumberFault (JsonNumber × List Char) :=
  let exponent : Int := (text.takeWhile Char.isDigit).length
  match text.dropWhile Char.isDigit with
  | '.' :: rest => readFraction negative significand exponent rest
  | rest => readScale negative significand exponent rest

/-- Read a number from the text after its sign. -/
def readMagnitude (negative : Bool) (text : List Char) : Except NumberFault (JsonNumber × List Char) :=
  match text with
  | [] => .error .ended
  | '0' :: rest =>
      match rest with
      | char :: _ => if char.isDigit then .error (.invalidNext rest) else readAfterInteger negative 0 rest
      | [] => readAfterInteger negative 0 []
  | char :: rest =>
      if !char.isDigit then .error (.invalid rest)
      else
        let (significand, _, rest) := gatherDigits (digitValue char) 1 rest
        match rest with
        | next :: _ =>
            if next.isDigit then readLongInteger negative significand rest
            else readAfterInteger negative significand rest
        | [] => readAfterInteger negative significand []

end Json
end CompilerRelay
