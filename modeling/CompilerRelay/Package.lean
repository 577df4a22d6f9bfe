import CompilerRelay.Path

/-!
# Package names

The package of a file is named after the directory that holds it.

**Input.**  The root of the project and the path of a file.

**Algorithm.**  The directory of the file loses the root, whatever the case of its ASCII letters, if it
begins with the root and continues with a slash or not at all.  Otherwise it stays whole.  The parts of what
is left are joined by dots.  A part that holds dots itself counts as several segments.
-/

namespace CompilerRelay

/-- The name of a package, with dots between its segments. -/
structure Package where
  name : List Char
  deriving DecidableEq, Repr

namespace Package

/-- What follows a start, where the case of ASCII letters does not matter. -/
def stripStartCaseless? : List Char → List Char → Option (List Char)
  | [], text => some text
  | _ :: _, [] => none
  | expected :: start, char :: text =>
      if expected.toLower = char.toLower then stripStartCaseless? start text else none

/-- Whether what is left after the root is a path below it. -/
def isBelow (rest : List Char) : Bool :=
  rest == [] || rest.head? == some '/'

/-- A directory as seen from the root, or whole if it lies outside. -/
def relativeTo (root directory : List Char) : List Char :=
  match stripStartCaseless? root directory with
  | some rest => if isBelow rest then rest else directory
  | none => directory

/-- The package of a file under a root. -/
def derive (root file : Path) : Package :=
  let directory := (file.parent?.map Path.slashed).getD []
  let relative := relativeTo root.bareSlashed directory
  ⟨Text.join ['.'] ((Text.splitOn '/' relative).filter (· ≠ []))⟩

/-- The segments of a name. -/
def segments (package : Package) : List (List Char) :=
  (Text.splitOn '.' package.name).filter (· ≠ [])

/-- The segment at an index. -/
def segment? (package : Package) (index : Nat) : Option (List Char) :=
  package.segments[index]?

/-- The first `count` segments, if there are that many. -/
def leading? (package : Package) (count : Nat) : Option (List Char) :=
  if count ≤ package.segments.length then
    some (Text.join ['.'] (package.segments.take count))
  else none

/-- All segments but the last; a name of at most two segments is its own parent. -/
def parent (package : Package) : List Char :=
  if 2 < package.segments.length then Text.join ['.'] package.segments.dropLast
  else package.name

end Package
end CompilerRelay
