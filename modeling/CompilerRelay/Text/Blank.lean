/-!
# Blank characters

White space in the sense of the Unicode property `White_Space`, and the trimming of a text by it.
-/

namespace CompilerRelay

/-- Whether a character has the Unicode property `White_Space`. -/
def isBlank (char : Char) : Bool :=
  let code := char.toNat
  (0x09 ≤ code && code ≤ 0x0D) || code == 0x20 || code == 0x85 || code == 0xA0 || code == 0x1680
    || (0x2000 ≤ code && code ≤ 0x200A) || code == 0x2028 || code == 0x2029 || code == 0x202F
    || code == 0x205F || code == 0x3000

namespace Text

/-- A text without the blanks it starts with. -/
def trimStart (text : List Char) : List Char :=
  text.dropWhile isBlank

/-- A text without the blanks it ends with. -/
def trimEnd (text : List Char) : List Char :=
  (text.reverse.dropWhile isBlank).reverse

/-- A text without the blanks at either end. -/
def trim (text : List Char) : List Char :=
  trimEnd (trimStart text)

end Text

/-- A string without the blanks at either end. -/
def trimmed (text : String) : String :=
  String.ofList (Text.trim text.toList)

/-- A string without the blanks at its end. -/
def trimmedEnd (text : String) : String :=
  String.ofList (Text.trimEnd text.toList)

end CompilerRelay
