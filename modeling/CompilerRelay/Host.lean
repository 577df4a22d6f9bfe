import CompilerRelay.FileTree
import CompilerRelay.Pattern

/-!
# The host

What the relay needs from outside, besides its files: the machine that it runs on, and the reading of patterns.
-/

namespace CompilerRelay

/-- What a command wrote before it ended. -/
structure CommandOutput where
  output : Bytes
  errors : Bytes
  deriving DecidableEq, Repr

namespace CommandOutput

/-- All that a command wrote as a text: its output, then its errors. -/
def text (written : CommandOutput) : String :=
  Utf8.decodeLossy written.output ++ Utf8.decodeLossy written.errors

end CommandOutput

/-- A machine, with what is installed on it. -/
structure Host where
  /-- The file of a program, if it is found. -/
  resolve : FileTree → String → Option Path
  /-- Why a program cannot be started in a directory, if that is so. -/
  refuses : FileTree → (program directory : Path) → Option FileError
  /-- Run a command to its end in a directory. -/
  complete : FileTree → (program : String) → List String → (directory : Path) →
    Except FileError CommandOutput × FileTree
  /-- The time as a text, so many milliseconds after the start. -/
  stamp : Nat → String
  /-- The pattern that a text of the user stands for, if it stands for one. -/
  compile : String → Except Pattern.Invalid Pattern := Pattern.compile

end CompilerRelay
