import CompilerRelay.Pattern.Node
import CompilerRelay.Text.Search

/-!
# Escapes in patterns

What a backslash and the characters after it stand for.

**Input.**  The text after the backslash, and the flags in force.

**Algorithm.**  One character decides the kind of escape; numbers, names of properties and names of word
boundaries are gathered up to their end.  Where blanks do not count they may stand between the characters
of an escape.
-/

namespace CompilerRelay
namespace Pattern

/-- The flags in force at a place of a pattern. -/
structure Flags where
  caseless : Bool := false
  multiline : Bool := false
  dotAll : Bool := false
  unicode : Bool := true
  /-- Whether carriage returns end lines. -/
  returns : Bool := false
  /-- Whether blanks and comments between the signs do not count. -/
  extended : Bool := false
  deriving DecidableEq, Repr

/-- What follows the blanks and the comments at the start of a text. -/
def skipBlanks (inComment : Bool) : List Char → List Char
  | [] => []
  | char :: rest =>
      if inComment then skipBlanks (char != '\n') rest
      else if char == '#' then skipBlanks true rest
      else if isBlank char then skipBlanks false rest
      else char :: rest

/-- What follows the part of a text that does not count. -/
def skip (flags : Flags) (text : List Char) : List Char :=
  if flags.extended then skipBlanks false text else text

/-- The characters of a kind at the start of a text, and what follows them. -/
def gather (flags : Flags) (keep : Char → Bool) (text : List Char) : List Char × List Char :=
  go text.length text
where
  /-- Gather at most so many characters. -/
  go : Nat → List Char → List Char × List Char
    | fuel + 1, char :: rest =>
        if keep char then
          let found := go fuel (skip flags rest)
          (char :: found.1, found.2)
        else ([], char :: rest)
    | _, text => ([], text)

/-- What an escape stands for. -/
inductive Escape where
  /-- A character, or a byte if it was given by two hexadecimal digits. -/
  | literal (char : Char) (asByte : Bool)
  | set (set : CharSet)
  | property (negated : Bool) (set : CharSet)
  | assertion (assertion : Assertion)
  deriving DecidableEq, Repr

/-- The value of a hexadecimal digit. -/
def hexValue? (char : Char) : Option Nat :=
  if char.isDigit then some (char.toNat - '0'.toNat)
  else if 'a' ≤ char ∧ char ≤ 'f' then some (char.toNat - 'a'.toNat + 10)
  else if 'A' ≤ char ∧ char ≤ 'F' then some (char.toNat - 'A'.toNat + 10)
  else none

/-- The character that hexadecimal digits name. -/
def charOfHex? (digits : List Char) : Option Char := do
  let values ← digits.mapM hexValue?
  let code := values.foldl (fun sum value => sum * 16 + value) 0
  if digits.isEmpty then none
  else if h : code.isValidChar then some ⟨UInt32.ofNat code, by
    have small : code < 2 ^ 32 := by
      rcases h with h | h
      · omega
      · omega
    simpa [UInt32.isValidChar, UInt32.toNat_ofNat_of_lt' small] using h⟩
  else none

/-- Gather exactly so many hexadecimal digits. -/
def gatherHex (flags : Flags) : Nat → List Char → Option (List Char × List Char)
  | 0, text => some ([], text)
  | count + 1, char :: rest => do
      let _ ← hexValue? char
      let found ← gatherHex flags count (skip flags rest)
      return (char :: found.1, found.2)
  | _ + 1, [] => none

/-- A character by its code point, in braces or in a fixed number of digits. -/
def readHex (flags : Flags) (width : Nat) (text : List Char) : Option (Escape × List Char) :=
  match skip flags text with
  | '\x7b' :: rest =>
      match gather flags (fun char => (hexValue? char).isSome) (skip flags rest) with
      | (digits, '\x7d' :: rest) => (charOfHex? digits).map fun char => (.literal char false, skip flags rest)
      | _ => none
  | text => do
      let (digits, rest) ← gatherHex flags width text
      return (.literal (← charOfHex? digits) (width == 2), rest)

/-- A property of characters by its name, or by its name and value. -/
def readPropertyName (negated : Bool) (name : List Char) : Option Escape :=
  match Text.cutAt? ['!', '='] name with
  | some (property, value) => (CharSet.ofValue? property value).map (.property (!negated))
  | none =>
      match (Text.cutAt? [':'] name).orElse fun _ => Text.cutAt? ['='] name with
      | some (property, value) => (CharSet.ofValue? property value).map (.property negated)
      | none => (CharSet.ofName? name).map (.property negated)

/-- A property of characters, by one letter or by a name in braces. -/
def readProperty (flags : Flags) (negated : Bool) (text : List Char) : Option (Escape × List Char) :=
  if !flags.unicode then none
  else
    match skip flags text with
    | [] | '\\' :: _ => none
    | '\x7b' :: rest =>
        match gather flags (· != '\x7d') (skip flags rest) with
        | (name, '\x7d' :: rest) => (readPropertyName negated name).map (·, rest)
        | _ => none
    | letter :: rest =>
        (CharSet.ofCategoryName? (String.ofList (plainName [letter]))).map fun set =>
          (.property negated set, skip flags rest)

/-- A word boundary by its name in braces; if what follows is no name, it is none of the boundary's. -/
def readBoundary (flags : Flags) (text : List Char) : Option (Escape × List Char) :=
  let isNameChar (char : Char) : Bool := char.isAlpha || char == '-'
  let plain := some (Escape.assertion (.wordBoundary flags.unicode), text)
  match text with
  | '\x7b' :: rest =>
      match skip flags rest with
      | [] => none
      | char :: rest =>
          if !isNameChar char then plain
          else
            match gather flags isNameChar (char :: rest) with
            | (name, '\x7d' :: rest) =>
                match String.ofList name with
                | "start" => some (.assertion (.wordStart flags.unicode), rest)
                | "end" => some (.assertion (.wordEnd flags.unicode), rest)
                | "start-half" => some (.assertion (.noWordBefore flags.unicode), rest)
                | "end-half" => some (.assertion (.noWordAfter flags.unicode), rest)
                | _ => none
            | _ => none
  | _ => plain

/-- Whether a backslash before a character makes it stand for itself. -/
def standsForItself (char : Char) : Bool :=
  char.toNat < 0x80 && !char.isAlphanum && char != '<' && char != '>'

/-- Read an escape from the text after the backslash. -/
def readEscape (flags : Flags) : List Char → Option (Escape × List Char)
  | [] => none
  | char :: rest =>
      let unicode := flags.unicode
      match char with
      | 'x' => readHex flags 2 rest
      | 'u' => readHex flags 4 rest
      | 'U' => readHex flags 8 rest
      | 'p' => readProperty flags false rest
      | 'P' => readProperty flags true rest
      | 'd' => some (.set (.digits unicode), rest)
      | 'D' => some (.set (.complement (.digits unicode)), rest)
      | 's' => some (.set (.blanks unicode), rest)
      | 'S' => some (.set (.complement (.blanks unicode)), rest)
      | 'w' => some (.set (.words unicode), rest)
      | 'W' => some (.set (.complement (.words unicode)), rest)
      | 'a' => some (.literal '\x07' false, rest)
      | 'f' => some (.literal '\x0c' false, rest)
      | 't' => some (.literal '\t' false, rest)
      | 'n' => some (.literal '\n' false, rest)
      | 'r' => some (.literal '\r' false, rest)
      | 'v' => some (.literal '\x0b' false, rest)
      | 'A' => some (.assertion .textStart, rest)
      | 'z' => some (.assertion .textEnd, rest)
      | 'b' => readBoundary flags rest
      | 'B' => some (.assertion (.noWordBoundary unicode), rest)
      | '<' => some (.assertion (.wordStart unicode), rest)
      | '>' => some (.assertion (.wordEnd unicode), rest)
      | char => if standsForItself char then some (.literal char false, rest) else none

end Pattern
end CompilerRelay
