/-!
# Shortest decimals

The decimal text of a binary floating-point number: the fewest digits that read back, and of those the
nearest.

**Input.**  A finite number of 64 bits, as its bits.

**Algorithm.**  The number is `mantissa · 2 ^ exponent`, and the reals that round to it form an interval around
it, with its ends if the mantissa is even.  For ever finer decimal grids, the two neighbours of the number on
the grid are tested, in exact arithmetic over one common denominator.

**Layout.**  The text is positional while the point stands no more than sixteen places after and five before
the first digit, and then has at least one digit after the point; otherwise the exponent is written with its
sign and at least two digits.
-/

namespace CompilerRelay
namespace Decimal

/-- A positive number as its mantissa and its power of two. -/
structure Binary where
  mantissa : Nat
  exponent : Int
  deriving DecidableEq, Repr

/-- The magnitude of a finite number from its bits. -/
def Binary.ofBits (bits : UInt64) : Binary :=
  let field : Nat := bits.toNat / Nat.pow 2 52 % Nat.pow 2 11
  let fraction := bits.toNat % Nat.pow 2 52
  if field = 0 then ⟨fraction, -1074⟩ else ⟨Nat.pow 2 52 + fraction, (field : Int) - 1075⟩

/-- Numerators over a common denominator: the number, and the ends of the interval that rounds to it. -/
structure Interval where
  low : Nat
  middle : Nat
  high : Nat
  denominator : Nat
  closed : Bool
  deriving DecidableEq, Repr

/-- The interval of the reals that round to a number. -/
def Binary.interval (number : Binary) : Interval :=
  let scale := Nat.pow 2 number.exponent.toNat
  let boundary := number.mantissa = Nat.pow 2 52 ∧ -1074 < number.exponent
  { low := (4 * number.mantissa - if boundary then 1 else 2) * scale
    middle := 4 * number.mantissa * scale
    high := (4 * number.mantissa + 2) * scale
    denominator := 4 * Nat.pow 2 (-number.exponent).toNat
    closed := number.mantissa % 2 == 0 }

/-- Whether a fraction lies in an interval. -/
def Interval.admits (interval : Interval) (numerator denominator : Nat) : Bool :=
  let low := interval.low * denominator
  let high := interval.high * denominator
  let value := numerator * interval.denominator
  if interval.closed then low ≤ value && value ≤ high else low < value && value < high

/-- How many digits stand before the point; the number of zeros after it, negated, if none do. -/
def Interval.pointPlace (interval : Interval) : Int :=
  let digits (n : Nat) : Int := (Nat.toDigits 10 n).length
  let guess := digits interval.middle - digits interval.denominator
  if interval.middle * Nat.pow 10 (-guess).toNat < interval.denominator * Nat.pow 10 guess.toNat then guess
  else guess + 1

/-- The nearer neighbour of the number on the grid of a power of ten, among those in the interval. -/
def Interval.onGrid? (interval : Interval) (power : Int) : Option Nat :=
  let up := Nat.pow 10 power.toNat
  let down := Nat.pow 10 (-power).toNat
  let floor := interval.middle * down / (interval.denominator * up)
  let rest := interval.middle * down % (interval.denominator * up)
  let below := interval.admits (floor * up) down
  let above := interval.admits ((floor + 1) * up) down
  let nearBelow := 2 * rest < interval.denominator * up
    || (2 * rest == interval.denominator * up && floor % 2 == 0)
  match below, above with
  | true, true => some (if nearBelow then floor else floor + 1)
  | true, false => some floor
  | false, true => some (floor + 1)
  | false, false => none

/-- The number on the coarsest grid that has one in the interval, and the power of ten of that grid. -/
def Interval.shortest (interval : Interval) : Nat × Int :=
  let place := interval.pointPlace
  let powers := (List.range 18).map fun (count : Nat) => place - (count : Int)
  match powers.findSome? fun power => (interval.onGrid? power).map (·, power) with
  | some found => found
  | none => (interval.middle / interval.denominator, 0)

/-- Digits without the zeros at their end, and how many those were. -/
def stripZeros (digits : List Char) : List Char × Nat :=
  let kept := (digits.reverse.dropWhile (· == '0')).reverse
  (kept, digits.length - kept.length)

/-- The exponent with its sign and at least two digits. -/
def exponentText (exponent : Int) : List Char :=
  let digits := Nat.toDigits 10 exponent.natAbs
  (if exponent < 0 then '-' else '+') :: (if digits.length < 2 then '0' :: digits else digits)

/-- Digits with the point after the first `point` of them. -/
def placeDigits (digits : List Char) (point : Int) : List Char :=
  if 0 < point ∧ point ≤ 16 then
    let whole := point.toNat
    if digits.length ≤ whole then
      digits ++ List.replicate (whole - digits.length) '0' ++ ['.', '0']
    else digits.take whole ++ '.' :: digits.drop whole
  else if -5 < point ∧ point ≤ 0 then
    '0' :: '.' :: (List.replicate (-point).toNat '0' ++ digits)
  else
    match digits with
    | [] => []
    | [digit] => digit :: 'e' :: exponentText (point - 1)
    | digit :: rest => digit :: '.' :: rest ++ 'e' :: exponentText (point - 1)

/-- The shortest text of a finite number. -/
def text (bits : UInt64) : String :=
  let number := Binary.ofBits bits
  let sign := if bits.toNat / Nat.pow 2 63 = 1 then ['-'] else []
  if number.mantissa = 0 then String.ofList (sign ++ ['0', '.', '0'])
  else
    let (value, power) := number.interval.shortest
    let (digits, zeros) := stripZeros (Nat.toDigits 10 value)
    String.ofList (sign ++ placeDigits digits (digits.length + zeros + power))

end Decimal
end CompilerRelay
