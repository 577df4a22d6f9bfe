import CompilerRelay.Path
import CompilerRelay.Text.Utf8

/-!
# The environment

The variables of a program, and texts with references to them.

**EnvironmentBlock.**  The machine keeps each variable as a byte string: its name, an equals sign, and its value, which need
not be text.  The first one with a name counts.

**Input.**  A text with references: a dollar sign, a name in braces.

**Algorithm.**  One pass from left to right.  A reference stands for the value of its variable, or for nothing if
there is none or it is no text.  A reference that is never closed is kept as it is.  Values are not looked into again.
-/

namespace CompilerRelay

/-- The variables of a program as the machine keeps them: each a name, an equals sign and a value. -/
structure EnvironmentBlock where
  entries : List Bytes
  deriving DecidableEq, Repr

namespace EnvironmentBlock

/-- What follows bytes at the start of others. -/
def after? : Bytes → Bytes → Option Bytes
  | [], bytes => some bytes
  | _ :: _, [] => none
  | expected :: lead, byte :: bytes => if expected = byte then after? lead bytes else none

/-- The value of a variable: what follows its name and an equals sign in the first entry that begins with them. -/
def find? (block : EnvironmentBlock) (name : List Char) : Option Bytes :=
  block.entries.findSome? (after? (Utf8.encode (String.ofList (name ++ ['=']))))

/-- The value of a variable that is text. -/
def text? (block : EnvironmentBlock) (name : List Char) : Option (List Char) :=
  match (block.find? name).map Utf8.decode? with
  | some (.ok text) => some text.toList
  | some (.error _) | none => none

/-- What a reference stands for. -/
def valueOf (block : EnvironmentBlock) (name : List Char) : List Char :=
  if name.isEmpty then [] else (block.text? name).getD []

/-- Replace the references in a text; inside a reference, its name so far is kept reversed. -/
def expandFrom (block : EnvironmentBlock) : Option (List Char) → List Char → List Char
  | none, [] => []
  | none, '$' :: '\x7b' :: rest => expandFrom block (some []) rest
  | none, char :: rest => char :: expandFrom block none rest
  | some name, [] => '$' :: '\x7b' :: name.reverse
  | some name, char :: rest =>
      if char = '\x7d' then block.valueOf name.reverse ++ expandFrom block none rest
      else expandFrom block (some (char :: name)) rest

/-- Replace the references in a text. -/
def expand (block : EnvironmentBlock) (text : String) : String :=
  String.ofList (block.expandFrom none text.toList)

end EnvironmentBlock

/-- The variables of a program that are text, with their values. -/
structure Environment where
  bindings : List (String × String) := []
  deriving DecidableEq, Repr

namespace Environment

/-- The variables as the machine keeps them. -/
def block (environment : Environment) : EnvironmentBlock :=
  ⟨environment.bindings.map fun (name, value) => Utf8.encode (name ++ "=" ++ value)⟩

/-- The value of a variable. -/
def find? (environment : Environment) (name : List Char) : Option (List Char) :=
  environment.block.text? name

/-- Set a variable. -/
def set (environment : Environment) (name value : String) : Environment :=
  ⟨(name, value) :: environment.bindings.filter (·.1 ≠ name)⟩

/-- Replace the references in a text. -/
def expand (environment : Environment) (text : String) : String :=
  environment.block.expand text

/-- Replace the references in a path. -/
def expandPath (environment : Environment) (path : Path) : Path :=
  ⟨environment.expand path.text⟩

/-- The home directory of a user who has none of their own. -/
def defaultHome : String := "/root"

/-- The home directory. -/
def home (environment : Environment) : Path :=
  match environment.find? "HOME".toList with
  | none | some [] => ⟨defaultHome⟩
  | some home => ⟨String.ofList home⟩

/-- The directory for files that need not last. -/
def temporary (environment : Environment) : Path :=
  match environment.find? "TMPDIR".toList with
  | none => ⟨"/tmp"⟩
  | some directory => ⟨String.ofList directory⟩

end Environment
end CompilerRelay
