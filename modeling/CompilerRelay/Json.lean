import CompilerRelay.Text.Quoted

/-!
# JSON

Values in the JavaScript Object Notation, and the way they are written: without blanks, with the members of
an object in the order in which they stand.

**Strings.**  A double quote and a backslash get a backslash; the control characters below the space have
either a short escape or their code point in four digits; every other character stands for itself.

**Results.**  `renderItems_cons_cons`.
-/

namespace CompilerRelay

/-- A number as JSON tells them apart. -/
inductive JsonNumber where
  | natural (value : Nat)
  /-- The negative number of this magnitude. -/
  | negative (magnitude : Nat)
  /-- A number that is no integer of 64 bits, by its shortest decimal text. -/
  | decimal (text : String)
  deriving DecidableEq, Repr

/-- A value of JSON. -/
inductive Json where
  | null
  | bool (value : Bool)
  | number (value : JsonNumber)
  | string (value : String)
  | array (items : List Json)
  | object (members : List (String × Json))
  deriving Repr, Inhabited

namespace Json

/-- A natural number as a value. -/
def nat (value : Nat) : Json :=
  .number (.natural value)

/-- A character as it stands in a string. -/
def escapeChar (char : Char) : List Char :=
  match char with
  | '"' => ['\\', '"']
  | '\\' => ['\\', '\\']
  | '\n' => ['\\', 'n']
  | '\r' => ['\\', 'r']
  | '\t' => ['\\', 't']
  | '\x08' => ['\\', 'b']
  | '\x0c' => ['\\', 'f']
  | other =>
      if other.toNat < 0x20 then
        ['\\', 'u', '0', '0', Text.hexDigit (other.toNat / 16), Text.hexDigit (other.toNat % 16)]
      else [other]

/-- A string between its quotes. -/
def renderString (text : String) : List Char :=
  '"' :: (text.toList.flatMap escapeChar ++ ['"'])

/-- A number in decimal digits. -/
def renderNumber : JsonNumber → List Char
  | .natural value => Nat.toDigits 10 value
  | .negative magnitude => '-' :: Nat.toDigits 10 magnitude
  | .decimal text => text.toList

/-- The word for nothing. -/
def nullWord : List Char := ['n', 'u', 'l', 'l']

/-- The word for a truth value. -/
def boolWord (value : Bool) : List Char :=
  if value then ['t', 'r', 'u', 'e'] else ['f', 'a', 'l', 's', 'e']

mutual

/-- The text of a value. -/
def render : Json → List Char
  | .null => nullWord
  | .bool value => boolWord value
  | .number value => renderNumber value
  | .string value => renderString value
  | .array items => '[' :: (renderItems items ++ [']'])
  | .object members => '\x7b' :: (renderMembers members ++ ['\x7d'])

/-- The items of an array with commas between them. -/
def renderItems : List Json → List Char
  | [] => []
  | [item] => render item
  | item :: rest => render item ++ ',' :: renderItems rest

/-- The members of an object with commas between them. -/
def renderMembers : List (String × Json) → List Char
  | [] => []
  | [(name, value)] => renderString name ++ ':' :: render value
  | (name, value) :: rest => renderString name ++ ':' :: (render value ++ ',' :: renderMembers rest)

end

theorem renderItems_cons_cons (item second : Json) (rest : List Json) :
    renderItems (item :: second :: rest) = render item ++ ',' :: renderItems (second :: rest) := by
  rw [renderItems]
  simp

/-- A value as one line of text. -/
def compress (value : Json) : String :=
  String.ofList value.render

end Json
end CompilerRelay
