import CompilerRelay.FileTree

/-!
# Following paths

From a path to the place that it leads to.

**Algorithm.**  The parts of a path are followed one by one.  Every part but the last must lead to a directory.
A link is followed from the directory that it stands in; the last part is followed too, if that is asked for.
At most forty links are followed.

**Results.**  `walk_nil`: a path without parts stays where it is.
-/

namespace CompilerRelay

/-- Where a path leads. -/
structure Spot where
  /-- The place; there need not be an entry, but the directory of it is there. -/
  place : Place
  /-- Whether the path ends in a step that is no name, so that the place is a directory that is there. -/
  dotted : Bool
  /-- Whether the path ends in a slash, so that only a directory will do. -/
  slash : Bool
  deriving DecidableEq, Repr

namespace FileTree

/-- The most bytes that a name may have. -/
def nameLimit : Nat := 255

/-- The number of bytes from which on a path is too long. -/
def pathLimit : Nat := 4096

/-- How many links are followed on the way along one path. -/
def linkLimit : Nat := 40

/-- The parts of a path to follow; repeated slashes count once. -/
def stepsOf (path : Path) : List Name :=
  (Text.splitOn '/' path.text.toList).filter (· ≠ [])

/-- The directory that a path starts from. -/
def startOf (origin : Place) (path : Path) : Place :=
  if path.isAbsolute then [] else origin

/-- Where the parts of a path lead; `jump` goes on from a place after a link. -/
def walkParts
    (tree : FileTree) (follow : Bool)
    (jump : Place → List Name → Except FileError (Place × Bool)) :
    Place → List Name → Except FileError (Place × Bool)
  | place, [] => .ok (place, true)
  | place, name :: rest =>
      if name = ['.'] then walkParts tree follow jump place rest
      else if name = ['.', '.'] then walkParts tree follow jump place.dropLast rest
      else if nameLimit < (String.ofList name).utf8ByteSize then .error .nameTooLong
      else
        let here := place ++ [name]
        match tree.find? here with
        | none => if rest.isEmpty then .ok (here, false) else .error .notFound
        | some (.link target) =>
            if rest.isEmpty && !follow then .ok (here, false)
            else jump (startOf place target) (stepsOf target ++ rest)
        | some .directory =>
            if rest.isEmpty then .ok (here, false) else walkParts tree follow jump here rest
        | some _ => if rest.isEmpty then .ok (here, false) else .error .notDirectory

/-- Where the parts of a path lead, with so many links on the way. -/
def walk (tree : FileTree) (follow : Bool) : Nat → Place → List Name → Except FileError (Place × Bool)
  | 0 => walkParts tree follow fun _ _ => .error .tooManyLinks
  | links + 1 => walkParts tree follow (walk tree follow links)

theorem walk_nil (tree : FileTree) (follow : Bool) (links : Nat) (place : Place) :
    tree.walk follow links place [] = .ok (place, true) := by
  cases links <;> simp [walk, walkParts]

/-- Where a path leads. -/
def locate (tree : FileTree) (follow : Bool) (path : Path) : Except FileError Spot :=
  if path.text.toList.contains '\x00' then .error .nulInPath
  else if path.text.isEmpty then .error .notFound
  else if pathLimit ≤ path.text.utf8ByteSize then .error .nameTooLong
  else
    (tree.walk follow linkLimit (startOf tree.current path) (stepsOf path)).map fun (place, dotted) =>
      { place, dotted, slash := path.text.toList.getLast? == some '/' }

/-- What stands where a path leads, past all links. -/
def status (tree : FileTree) (path : Path) : Except FileError Node := do
  let spot ← tree.locate true path
  match tree.find? spot.place with
  | none => .error .notFound
  | some node => if spot.slash && !node.isDirectory then .error .notDirectory else .ok node

/-- Whether a path leads to anything. -/
def exists? (tree : FileTree) (path : Path) : Bool :=
  (tree.status path).toBool

/-- Whether a path leads to a file. -/
def isFile (tree : FileTree) (path : Path) : Bool :=
  match tree.status path with
  | .ok node => node.isFile
  | .error _ => false

/-- Whether a path leads to a directory. -/
def isDirectory (tree : FileTree) (path : Path) : Bool :=
  match tree.status path with
  | .ok node => node.isDirectory
  | .error _ => false

/-- The tree as a program sees it that runs in a directory. -/
def within (tree : FileTree) (path : Path) : Except FileError FileTree := do
  let spot ← tree.locate true path
  match tree.find? spot.place with
  | some .directory => return { tree with current := spot.place }
  | some _ => .error .notDirectory
  | none => .error .notFound

end FileTree
end CompilerRelay
