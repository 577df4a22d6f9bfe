import CompilerRelay.Path
import CompilerRelay.Text.Blank
import CompilerRelay.Text.Quoted

/-!
# Diagnostics and positions

What the compiler reports about a place in a file.

**Positions.**  The compiler counts lines and columns from one and the editor from zero.  A reported number
is read as 32 unsigned bits and lowered by one; zero, which the compiler uses for an unknown column, stays
zero.  What is shown to the user counts from one again.

**Results.**  `Position.read?_le`: a number that is read fits 32 bits.
-/

namespace CompilerRelay

/-- How bad a diagnostic is. -/
inductive Severity where
  | error
  | warning
  deriving DecidableEq, Repr

namespace Severity

/-- The severity that a marker in the output stands for. -/
def ofMarker? (marker : String) : Option Severity :=
  if marker = "ERROR" then some .error
  else if marker = "WARNING" then some .warning
  else none

/-- Whether this is an error. -/
def isError : Severity → Bool
  | .error => true
  | .warning => false

/-- The name of a severity. -/
def label : Severity → String
  | .error => "error"
  | .warning => "warning"

end Severity

/-- A report about a place in a file, counted from zero. -/
structure Diagnostic where
  severity : Severity
  message : String
  line : UInt32
  column : UInt32
  deriving DecidableEq, Repr

/-- A diagnostic as a line for the user, with the place counted from one. -/
def Diagnostic.display (diagnostic : Diagnostic) (path : Path) : String :=
  s!"{path.text}:{diagnostic.line + 1}:{diagnostic.column + 1}: "
    ++ s!"{diagnostic.severity.label}: {diagnostic.message}"

/-- A place in a file, counted from zero. -/
structure Location where
  path : Path
  line : UInt32
  column : UInt32
  deriving DecidableEq, Repr

namespace Position

/-- The largest number a position may have. -/
def limit : Nat := 4294967295

/-- The number after one more digit, unless it passes the limit. -/
def readDigit (number : Option Nat) (digit : Char) : Option Nat :=
  number.bind fun number =>
    let next := number * 10 + (digit.toNat - '0'.toNat)
    if digit.isDigit && next ≤ limit then some next else none

/-- Read one or more digits. -/
def readDigits? (digits : List Char) : Option Nat :=
  if digits = [] then none else digits.foldl readDigit (some 0)

/-- Read a number with an optional plus sign. -/
def read? (text : List Char) : Option Nat :=
  match text with
  | '+' :: digits => readDigits? digits
  | digits => readDigits? digits

theorem foldl_readDigit_le (digits : List Char) :
    ∀ {start : Option Nat} {number : Nat},
      (∀ first, start = some first → first ≤ limit) →
        digits.foldl readDigit start = some number → number ≤ limit := by
  induction digits with
  | nil => intro start number bound read; exact bound number read
  | cons digit digits ih =>
      intro start number bound read
      refine ih ?_ read
      intro first step
      simp only [readDigit, Option.bind_eq_some_iff] at step
      obtain ⟨before, _, step⟩ := step
      split at step
      · next fits =>
          simp only [Bool.and_eq_true, decide_eq_true_eq] at fits
          simp only [Option.some.injEq] at step
          omega
      · simp at step

theorem read?_le {text : List Char} {number : Nat} (read : read? text = some number) :
    number ≤ limit := by
  have digits {rest : List Char} (some : readDigits? rest = some number) : number ≤ limit := by
    unfold readDigits? at some
    split at some
    · simp at some
    · exact foldl_readDigit_le rest (by simp [limit]) some
  unfold read? at read
  split at read <;> exact digits read

/-- Read a number counted from one, as a position counted from zero. -/
def ofOneBased? (raw : List Char) : Option UInt32 :=
  (read? (Text.trim raw)).map fun number => UInt32.ofNat (number - 1)

end Position

/-- A text that is no position. -/
structure PositionError where
  raw : String
  deriving DecidableEq, Repr

/-- The wording of the error. -/
def PositionError.message (error : PositionError) : String :=
  s!"invalid 1-based position: {quoted error.raw}"

/-- Read a position counted from one, or say what was not one. -/
def Position.parse (raw : String) : Except PositionError UInt32 :=
  match Position.ofOneBased? raw.toList with
  | some position => .ok position
  | none => .error ⟨raw⟩

end CompilerRelay
