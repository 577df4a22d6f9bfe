import CompilerRelay.Json.Number
import CompilerRelay.Text.Utf8

/-!
# Reading JSON

Values of JSON from their text.

**Algorithm.**  Reading goes from left to right and stops at the first fault.  A fault keeps the text that
follows its place, from which its line and column are counted, in bytes; some faults point at the next
character and not at the last one.  Arrays and objects may be nested 127 deep.

**Results.**  `skipBlanks_nil`.
-/

namespace CompilerRelay
namespace Json

/-- What is wrong with a text. -/
inductive Cause where
  | endInValue
  | endInString
  | endInArray
  | endInObject
  | expectedValue
  | expectedWord
  | expectedColon
  | expectedCommaOrBracket
  | expectedCommaOrBrace
  | trailingComma
  | trailingCharacters
  | keyNotString
  | invalidNumber
  | numberOutOfRange
  | invalidEscape
  | endInSurrogates
  | loneSurrogate
  | controlCharacter
  | tooDeep
  /-- The text is one of JSON, but not of what is sought. -/
  | data (text : String)
  deriving DecidableEq, Repr

/-- What is told of a cause. -/
def Cause.message : Cause → String
  | .endInValue => "EOF while parsing a value"
  | .endInString => "EOF while parsing a string"
  | .endInArray => "EOF while parsing a list"
  | .endInObject => "EOF while parsing an object"
  | .expectedValue => "expected value"
  | .expectedWord => "expected ident"
  | .expectedColon => "expected `:`"
  | .expectedCommaOrBracket => "expected `,` or `]`"
  | .expectedCommaOrBrace => "expected `,` or `\x7d`"
  | .trailingComma => "trailing comma"
  | .trailingCharacters => "trailing characters"
  | .keyNotString => "key must be a string"
  | .invalidNumber => "invalid number"
  | .numberOutOfRange => "number out of range"
  | .invalidEscape => "invalid escape"
  | .endInSurrogates => "unexpected end of hex escape"
  | .loneSurrogate => "lone leading surrogate in hex escape"
  | .controlCharacter => "control character (\\u0000-\\u001F) found while parsing a string"
  | .tooDeep => "recursion limit exceeded"
  | .data text => text

/-- A fault and its place: after what was read, or at the next character. -/
structure Fault where
  cause : Cause
  rest : List Char
  next : Bool := false
  deriving DecidableEq, Repr

/-- Reading a part of a text. -/
abbrev Read (α : Type) := Except Fault (α × List Char)

/-- The fault at the end of what was read. -/
def faultAt (cause : Cause) (rest : List Char) : Except Fault α :=
  .error ⟨cause, rest, false⟩

/-- The fault at the next character. -/
def faultBefore (cause : Cause) (rest : List Char) : Except Fault α :=
  .error ⟨cause, rest, true⟩

/-- How many bytes of a text stand before the place of a fault. -/
def Fault.offset (fault : Fault) (text : String) : Nat :=
  let read := text.utf8ByteSize - (String.ofList fault.rest).utf8ByteSize
  if fault.next then min text.utf8ByteSize (read + 1) else read

/-- What is told of a fault in a text. -/
def Fault.message (fault : Fault) (text : String) : String :=
  let before := (Utf8.encode text).take (fault.offset text)
  let line := before.count 0x0A + 1
  let column := (before.reverse.takeWhile (· != 0x0A)).length
  s!"{fault.cause.message} at line {line} column {column}"

/-- What follows the blanks at the start of a text. -/
def skipBlanks (text : List Char) : List Char :=
  text.dropWhile fun char => char == ' ' || char == '\n' || char == '\t' || char == '\r'

theorem skipBlanks_nil : skipBlanks [] = [] := rfl

/-! ## Words and strings -/

/-- Read the rest of a word. -/
def readWord : List Char → List Char → Except Fault (List Char)
  | [], text => .ok text
  | _ :: _, [] => faultAt .endInValue []
  | expected :: word, char :: rest =>
      if char = expected then readWord word rest else faultAt .expectedWord rest

/-- The value of a hexadecimal digit. -/
def hexValue? (char : Char) : Option Nat :=
  if char.isDigit then some (digitValue char)
  else if 'a' ≤ char ∧ char ≤ 'f' then some (char.toNat - 'a'.toNat + 10)
  else if 'A' ≤ char ∧ char ≤ 'F' then some (char.toNat - 'A'.toNat + 10)
  else none

/-- The text after so many bytes of it, or after the character that the last of them is in. -/
def dropBytes : Nat → List Char → List Char
  | _, [] => []
  | count, char :: rest => if count = 0 then char :: rest else dropBytes (count - char.utf8Size) rest

/-- Read the four digits of an escape. -/
def readUnit (text : List Char) : Read Nat :=
  if (String.ofList (text.take 4)).utf8ByteSize < 4 then faultAt .endInString []
  else
    match (text.take 4).mapM hexValue? with
    | some [first, second, third, fourth] =>
        .ok (((first * 16 + second) * 16 + third) * 16 + fourth, text.drop 4)
    | _ => faultAt .invalidEscape (dropBytes 4 text)

/-- Read the second unit of a pair of surrogates. -/
def readLowSurrogate (high : Nat) (text : List Char) : Except Fault (Char × List Char) :=
  match text with
  | [] => faultAt .endInString []
  | '\\' :: [] => faultAt .endInString []
  | '\\' :: 'u' :: rest => do
      let (low, rest) ← readUnit rest
      if low < 0xDC00 ∨ 0xDFFF < low then faultAt .loneSurrogate rest
      else return (Char.ofNat ((high - 0xD800) * 1024 + (low - 0xDC00) + 0x10000), rest)
  | '\\' :: _ :: rest => faultAt .endInSurrogates rest
  | _ :: rest => faultAt .endInSurrogates rest

/-- Read the code of an escape. -/
def readCode (text : List Char) : Except Fault (Char × List Char) := do
  let (unit, rest) ← readUnit text
  if 0xDC00 ≤ unit ∧ unit ≤ 0xDFFF then faultAt .loneSurrogate rest
  else if 0xD800 ≤ unit ∧ unit ≤ 0xDBFF then readLowSurrogate unit rest
  else return (Char.ofNat unit, rest)

/-- Read an escape from the text after its backslash. -/
def readEscape (text : List Char) : Read Char :=
  match text with
  | [] => faultAt .endInString []
  | '"' :: rest => .ok ('"', rest)
  | '\\' :: rest => .ok ('\\', rest)
  | '/' :: rest => .ok ('/', rest)
  | 'b' :: rest => .ok ('\x08', rest)
  | 'f' :: rest => .ok ('\x0c', rest)
  | 'n' :: rest => .ok ('\n', rest)
  | 'r' :: rest => .ok ('\r', rest)
  | 't' :: rest => .ok ('\t', rest)
  | 'u' :: rest => readCode rest
  | _ :: rest => faultAt .invalidEscape rest

/-- Read a string from the text after its opening quote. -/
def readString (text : List Char) : Read String :=
  go (text.length + 1) [] text
where
  /-- Read on, with the characters so far in reverse. -/
  go : Nat → List Char → List Char → Read String
    | 0, _, rest => faultAt .endInString rest
    | _ + 1, _, [] => faultAt .endInString []
    | _ + 1, read, '"' :: rest => .ok (String.ofList read.reverse, rest)
    | fuel + 1, read, '\\' :: rest =>
        match readEscape rest with
        | .ok (char, rest) => go fuel (char :: read) rest
        | .error fault => .error fault
    | fuel + 1, read, char :: rest =>
        if char.toNat < 0x20 then faultAt .controlCharacter rest else go fuel (char :: read) rest

/-! ## Numbers -/

/-- A fault of a number as a fault of the text. -/
def NumberFault.fault : NumberFault → Fault
  | .invalid rest => ⟨.invalidNumber, rest, false⟩
  | .invalidNext rest => ⟨.invalidNumber, rest, true⟩
  | .outOfRange rest => ⟨.numberOutOfRange, rest, false⟩
  | .ended => ⟨.endInValue, [], false⟩

/-- Read a number from the text after its sign. -/
def readNumber (negative : Bool) (text : List Char) : Read JsonNumber :=
  match readMagnitude negative text with
  | .ok read => .ok read
  | .error fault => .error fault.fault

/-! ## Objects and arrays -/

/-- Go to the next key of an object, up to after its opening quote; none if the object ends, and then up to
before its closing brace. -/
def nextKey (first : Bool) (text : List Char) : Read Bool :=
  match skipBlanks text with
  | [] => faultBefore .endInObject []
  | '\x7d' :: rest => .ok (false, '\x7d' :: rest)
  | '"' :: rest => if first then .ok (true, rest) else faultBefore .expectedCommaOrBrace ('"' :: rest)
  | ',' :: rest =>
      if first then faultBefore .keyNotString (',' :: rest)
      else
        match skipBlanks rest with
        | [] => faultBefore .endInValue []
        | '"' :: rest => .ok (true, rest)
        | '\x7d' :: rest => faultBefore .trailingComma ('\x7d' :: rest)
        | rest => faultBefore .keyNotString rest
  | rest => faultBefore (if first then .keyNotString else .expectedCommaOrBrace) rest

/-- Read the colon after a key. -/
def readColon (text : List Char) : Except Fault (List Char) :=
  match skipBlanks text with
  | ':' :: rest => .ok rest
  | [] => faultBefore .endInObject []
  | rest => faultBefore .expectedColon rest

/-- Go to the next item of an array; none if the array ends, and then up to before its bracket. -/
def nextItem (first : Bool) (text : List Char) : Read Bool :=
  match skipBlanks text with
  | [] => faultBefore .endInArray []
  | ']' :: rest => .ok (false, ']' :: rest)
  | ',' :: rest =>
      if first then .ok (true, ',' :: rest)
      else
        match skipBlanks rest with
        | [] => faultBefore .endInValue []
        | ']' :: rest => faultBefore .trailingComma (']' :: rest)
        | rest => .ok (true, rest)
  | rest => if first then .ok (true, rest) else faultBefore .expectedCommaOrBracket rest

/-! ## Values -/

mutual

/-- Read a value that may hold arrays and objects nested so deep. -/
def readValue (depth : Nat) : Nat → List Char → Read Json
  | 0, text => faultBefore .expectedValue text
  | fuel + 1, text =>
      match skipBlanks text with
      | [] => faultBefore .endInValue []
      | 'n' :: rest => (readWord ['u', 'l', 'l'] rest).map (.null, ·)
      | 't' :: rest => (readWord ['r', 'u', 'e'] rest).map (.bool true, ·)
      | 'f' :: rest => (readWord ['a', 'l', 's', 'e'] rest).map (.bool false, ·)
      | '"' :: rest => (readString rest).map fun (text, rest) => (.string text, rest)
      | '-' :: rest => (readNumber true rest).map fun (value, rest) => (.number value, rest)
      | '[' :: rest =>
          match depth with
          | 0 => faultBefore .tooDeep ('[' :: rest)
          | depth + 1 => readItems depth fuel [] rest
      | '\x7b' :: rest =>
          match depth with
          | 0 => faultBefore .tooDeep ('\x7b' :: rest)
          | depth + 1 => readMembers depth fuel [] rest
      | char :: rest =>
          if char.isDigit then
            (readNumber false (char :: rest)).map fun (value, rest) => (.number value, rest)
          else faultBefore .expectedValue (char :: rest)

/-- Read the rest of an array, with its items so far in reverse. -/
def readItems (depth : Nat) : Nat → List Json → List Char → Read Json
  | 0, _, text => faultBefore .expectedValue text
  | fuel + 1, items, text =>
      match nextItem items.isEmpty text with
      | .error fault => .error fault
      | .ok (false, rest) => .ok (.array items.reverse, rest.drop 1)
      | .ok (true, rest) =>
          match readValue depth fuel rest with
          | .error fault => .error fault
          | .ok (item, rest) => readItems depth fuel (item :: items) rest

/-- Read the rest of an object, with its members so far in reverse. -/
def readMembers (depth : Nat) : Nat → List (String × Json) → List Char → Read Json
  | 0, _, text => faultBefore .expectedValue text
  | fuel + 1, members, text =>
      match nextKey members.isEmpty text with
      | .error fault => .error fault
      | .ok (false, rest) => .ok (.object members.reverse, rest.drop 1)
      | .ok (true, rest) =>
          match readString rest with
          | .error fault => .error fault
          | .ok (name, rest) =>
              match readColon rest with
              | .error fault => .error fault
              | .ok rest =>
                  match readValue depth fuel rest with
                  | .error fault => .error fault
                  | .ok (value, rest) => readMembers depth fuel ((name, value) :: members) rest

end

/-- How deep arrays and objects may be nested. -/
def depthLimit : Nat := 127

/-- The steps that reading a text takes at most. -/
def readSteps (text : List Char) : Nat := 2 * text.length + 2

/-- Read the value that is the whole of a text. -/
def read (text : String) : Except Fault Json := do
  let (value, rest) ← readValue depthLimit (readSteps text.toList) text.toList
  match skipBlanks rest with
  | [] => return value
  | rest => faultBefore .trailingCharacters rest

end Json
end CompilerRelay
