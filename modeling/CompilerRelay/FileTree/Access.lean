import CompilerRelay.FileTree.Locate

/-!
# Reading and changing files

**Algorithm.**  Reading, writing and making directories follow links; removing and renaming do not.  A file is
written under its own place if there is none, and in place otherwise, so that it keeps its number.

**Results.**  `removeFile_frame`: removing changes no other entry.
-/

namespace CompilerRelay

/-- A file that is open for writing at its end. -/
inductive Handle where
  | file (id : Nat)
  | device (device : Device)
  deriving DecidableEq, Repr

namespace FileTree

/-- The bytes of a file. -/
def read (tree : FileTree) (path : Path) : Except FileError Bytes := do
  match ← tree.status path with
  | .file _ content _ => return content
  | .directory => .error .isDirectory
  | .device _ | .link _ => return []

/-- The text of a file. -/
def readText (tree : FileTree) (path : Path) : Except FileError String := do
  match Utf8.decode? (← tree.read path) with
  | .ok text => return text
  | .error _ => .error .notText

/-- Where a path leads to write there. -/
def writable (tree : FileTree) (path : Path) : Except FileError (Place × Option Node) := do
  let spot ← tree.locate true path
  match tree.find? spot.place with
  | some .directory => .error .isDirectory
  | some node => if spot.slash then .error .notDirectory else return (spot.place, some node)
  | none => if spot.slash then .error .isDirectory else return (spot.place, none)

/-- Put a new file at a place. -/
def putFile (tree : FileTree) (place : Place) (content : Bytes) (executable : Bool) : FileTree :=
  { tree.insert place (.file (tree.lastId + 1) content executable) with lastId := tree.lastId + 1 }

/-- Give a file other content, or put a new one there. -/
def write (tree : FileTree) (path : Path) (content : Bytes) : Except FileError FileTree := do
  match ← tree.writable path with
  | (place, some (.file id _ executable)) => return tree.insert place (.file id content executable)
  | (_, some (.device .full)) => if content.isEmpty then return tree else .error .noSpace
  | (_, some _) => return tree
  | (place, none) => return tree.putFile place content false

/-- Open a file to write at its end, or a new one. -/
def openAppending (tree : FileTree) (path : Path) : Except FileError (Handle × FileTree) := do
  match ← tree.writable path with
  | (_, some (.file id _ _)) => return (.file id, tree)
  | (_, some (.device device)) => return (.device device, tree)
  | (_, some _) => .error .isDirectory
  | (place, none) =>
      let after := tree.putFile place [] false
      return (.file after.lastId, after)

/-- A node with bytes added, if it is the file with a number. -/
def appendTo (id : Nat) (bytes : Bytes) : Node → Node
  | .file own content executable =>
      .file own (if own = id then content ++ bytes else content) executable
  | node => node

/-- Write at the end of an open file. -/
def append (tree : FileTree) (handle : Handle) (bytes : Bytes) : Except FileError FileTree :=
  match handle with
  | .file id => .ok { tree with nodes := tree.nodes.map fun (place, node) => (place, appendTo id bytes node) }
  | .device .null => .ok tree
  | .device .full => if bytes.isEmpty then .ok tree else .error .noSpace

/-- Where a path leads to remove an entry there. -/
def removable (tree : FileTree) (path : Path) : Except FileError Place := do
  let spot ← tree.locate false path
  match tree.find? spot.place with
  | none => .error .notFound
  | some .directory => .error .isDirectory
  | some _ =>
      if spot.dotted then .error .isDirectory
      else if spot.slash then .error .notDirectory
      else return spot.place

/-- Remove the entry of a file or a link. -/
def removeFile (tree : FileTree) (path : Path) : Except FileError FileTree :=
  (tree.removable path).map tree.erase

theorem removeFile_frame
    {tree after : FileTree} {path : Path}
    (removed : tree.removeFile path = .ok after) :
    ∃ place, tree.removable path = .ok place ∧ ∀ other, other ≠ place → after.find? other = tree.find? other := by
  unfold removeFile at removed
  cases found : tree.removable path with
  | error fault => rw [found] at removed; exact absurd removed (by simp [Except.map])
  | ok place =>
      rw [found] at removed
      have equal : tree.erase place = after := Except.ok.inj removed
      refine ⟨place, rfl, fun other differ => ?_⟩
      rw [← equal]
      exact find?_erase_of_ne tree differ

/-- Move the file at a place to where a path leads, over a file that is there. -/
def moveFile (tree : FileTree) (origin : Place) (path : Path) : Except FileError FileTree := do
  let spot ← tree.locate false path
  match tree.find? origin with
  | none => .error .notFound
  | some node =>
      match tree.find? spot.place with
      | some .directory => .error .isDirectory
      | _ =>
          if spot.slash then .error .notDirectory
          else return (tree.erase origin).insert spot.place node

/-- Make one directory. -/
def makeDirectory (tree : FileTree) (path : Path) : Except FileError FileTree := do
  let spot ← tree.locate false path
  match tree.find? spot.place with
  | some _ => .error .alreadyThere
  | none => return tree.insert spot.place .directory

/-- Make a directory and those that it stands in, if they are missing. -/
def makeDirectories (tree : FileTree) (path : Path) : Except FileError FileTree :=
  go (path.text.length + 1) path
where
  /-- Make the directory of a path, after the one around it if that is missing. -/
  go : Nat → Path → Except FileError FileTree
    | 0, _ => .error .notFound
    | fuel + 1, path =>
        if path.text.isEmpty then .ok tree
        else
          match tree.makeDirectory path with
          | .ok after => .ok after
          | .error .notFound =>
              match path.parent? with
              | none => .error .notFound
              | some parent =>
                  match go fuel parent with
                  | .error fault => .error fault
                  | .ok made =>
                      match made.makeDirectory path with
                      | .ok after => .ok after
                      | .error fault => if made.isDirectory path then .ok made else .error fault
          | .error fault => if tree.isDirectory path then .ok tree else .error fault

/-- Put a link where a path leads. -/
def makeLink (tree : FileTree) (path target : Path) : Except FileError FileTree := do
  let spot ← tree.locate false path
  match tree.find? spot.place with
  | some _ => .error .alreadyThere
  | none => return tree.insert spot.place (.link target)

/-- Remove an entry and all below it; it is no error if there is none. -/
def removeTree (tree : FileTree) (path : Path) : FileTree :=
  match tree.locate false path with
  | .ok spot => { tree with nodes := tree.nodes.filter fun entry => !spot.place.isPrefixOf entry.1 }
  | .error _ => tree

/-- Make a file executable. -/
def makeExecutable (tree : FileTree) (path : Path) : FileTree :=
  match tree.locate true path with
  | .ok spot =>
      match tree.find? spot.place with
      | some (.file id content _) => tree.insert spot.place (.file id content true)
      | _ => tree
  | .error _ => tree

end FileTree
end CompilerRelay
