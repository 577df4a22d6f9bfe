import CompilerRelay.Unicode.Property

/-!
# Quoted text

A text as it is shown inside a message: between double quotes, with everything that would not show as
itself escaped.

**Algorithm.**  A backslash and a double quote get a backslash; tab, line feed, carriage return and NUL
have short escapes; a character that extends the grapheme before it, or that cannot be shown, becomes its
code point in hexadecimal between braces.
-/

namespace CompilerRelay
namespace Text

/-- The digit of a number below sixteen, in lower case. -/
def hexDigit (number : Nat) : Char :=
  if number < 10 then Char.ofNat ('0'.toNat + number) else Char.ofNat ('a'.toNat + number - 10)

/-- A number in hexadecimal, without leading zeros. -/
def hexDigits (number : Nat) : List Char :=
  Nat.toDigits 16 number

/-- The escape of a character by its code point. -/
def codePointEscape (char : Char) : List Char :=
  '\\' :: 'u' :: '\x7b' :: (hexDigits char.toNat ++ ['\x7d'])

/-- Whether a character has to be escaped by its code point. -/
def needsCodePoint (char : Char) : Bool :=
  Unicode.isGraphemeExtend char || !Unicode.isPrintable char

/-- A character as it stands between the quotes. -/
def quoteChar (char : Char) : List Char :=
  match char with
  | '\\' => ['\\', '\\']
  | '"' => ['\\', '"']
  | '\t' => ['\\', 't']
  | '\n' => ['\\', 'n']
  | '\r' => ['\\', 'r']
  | '\x00' => ['\\', '0']
  | other => if needsCodePoint other then codePointEscape other else [other]

end Text

/-- A string between double quotes, escaped for display. -/
def quoted (text : String) : String :=
  String.ofList ('"' :: (text.toList.flatMap Text.quoteChar ++ ['"']))

end CompilerRelay
