import CompilerRelay.Path
import CompilerRelay.Text.Utf8

/-!
# File trees

The files, directories and links that a program sees, and the directory that its relative paths start from.

**Places.**  An entry stands at a place: the names from the root down to it.  The root is always there and
is a directory.

**Identity.**  Every file has a number that stays with it when it is renamed or written.  A file that is open
is known by its number, so what is written to it is lost once no entry has that number any more.

**Results.**  `find?_insert_self`, `find?_insert_of_ne`, `find?_erase_self`, `find?_erase_of_ne`: what an
operation on one entry does to a look-up.
-/

namespace CompilerRelay

/-- The name of an entry in its directory. -/
abbrev Name := List Char

/-- Where an entry stands: the names from the root down to it. -/
abbrev Place := List Name

/-- A device: one that swallows what is written to it, and one that is always full. -/
inductive Device where
  | null
  | full
  deriving DecidableEq, Repr

/-- What may stand at a place. -/
inductive Node where
  | file (id : Nat) (content : Bytes) (executable : Bool)
  | directory
  | link (target : Path)
  | device (device : Device)
  deriving DecidableEq, Repr

/-- Whether a node is a file. -/
def Node.isFile : Node → Bool
  | .file _ _ _ => true
  | _ => false

/-- Whether a node is a directory. -/
def Node.isDirectory : Node → Bool
  | .directory => true
  | _ => false

/-- Whether a node is the file with a number. -/
def Node.hasId (id : Nat) : Node → Bool
  | .file own _ _ => own == id
  | _ => false

/-- A tree of files. -/
structure FileTree where
  nodes : List (Place × Node) := []
  /-- The number of the newest file. -/
  lastId : Nat := 0
  /-- The directory that relative paths start from. -/
  current : Place := []
  deriving DecidableEq, Repr

/-- Why an operation on files failed. -/
inductive FileError where
  | notFound
  | noProgram
  | denied
  | alreadyThere
  | notDirectory
  | isDirectory
  | noSpace
  | nameTooLong
  | tooManyLinks
  | notText
  | nulInPath
  /-- Another failure, with its number and its text. -/
  | other (number : Nat) (text : String)
  deriving DecidableEq, Repr

/-- What is told of a failure. -/
def FileError.message : FileError → String
  | .notFound => "No such file or directory (os error 2)"
  | .noProgram => "Exec format error (os error 8)"
  | .denied => "Permission denied (os error 13)"
  | .alreadyThere => "File exists (os error 17)"
  | .notDirectory => "Not a directory (os error 20)"
  | .isDirectory => "Is a directory (os error 21)"
  | .noSpace => "No space left on device (os error 28)"
  | .nameTooLong => "File name too long (os error 36)"
  | .tooManyLinks => "Too many levels of symbolic links (os error 40)"
  | .notText => "stream did not contain valid UTF-8"
  | .nulInPath => "file name contained an unexpected NUL byte"
  | .other number text => text ++ " (os error " ++ toString number ++ ")"

namespace FileTree

/-- The node of the first entry at a place. -/
def nodeAt (place : Place) : List (Place × Node) → Option Node
  | [] => none
  | entry :: rest => if entry.1 = place then some entry.2 else nodeAt place rest

/-- The node at a place. -/
def find? (tree : FileTree) (place : Place) : Option Node :=
  if place = [] then some .directory else nodeAt place tree.nodes

/-- The nodes with the one at a place replaced, or with a new one at the end. -/
def insertInto (place : Place) (node : Node) : List (Place × Node) → List (Place × Node)
  | [] => [(place, node)]
  | entry :: rest => if entry.1 = place then (place, node) :: rest else entry :: insertInto place node rest

/-- Put a node at a place. -/
def insert (tree : FileTree) (place : Place) (node : Node) : FileTree :=
  { tree with nodes := insertInto place node tree.nodes }

/-- Take away the node at a place. -/
def erase (tree : FileTree) (place : Place) : FileTree :=
  { tree with nodes := tree.nodes.filter (·.1 ≠ place) }

theorem nodeAt_insertInto_self (place : Place) (node : Node) (nodes : List (Place × Node)) :
    nodeAt place (insertInto place node nodes) = some node := by
  induction nodes with
  | nil => simp [insertInto, nodeAt]
  | cons entry rest ih =>
      by_cases same : entry.1 = place
      · simp [insertInto, nodeAt, same]
      · simp [insertInto, nodeAt, same, ih]

theorem nodeAt_insertInto_of_ne
    {place other : Place} (differ : other ≠ place) (node : Node) (nodes : List (Place × Node)) :
    nodeAt other (insertInto place node nodes) = nodeAt other nodes := by
  induction nodes with
  | nil => simp [insertInto, nodeAt, differ.symm]
  | cons entry rest ih =>
      by_cases same : entry.1 = place
      · simp [insertInto, nodeAt, same, differ.symm]
      · simp [insertInto, nodeAt, same, ih]

theorem nodeAt_filter_self (place : Place) (nodes : List (Place × Node)) :
    nodeAt place (nodes.filter (·.1 ≠ place)) = none := by
  induction nodes with
  | nil => rfl
  | cons entry rest ih =>
      by_cases same : entry.1 = place
      · rw [List.filter_cons_of_neg (by simp [same])]
        exact ih
      · rw [List.filter_cons_of_pos (by simp [same]), nodeAt, if_neg same]
        exact ih

theorem nodeAt_filter_of_ne
    {place other : Place} (differ : other ≠ place) (nodes : List (Place × Node)) :
    nodeAt other (nodes.filter (·.1 ≠ place)) = nodeAt other nodes := by
  induction nodes with
  | nil => rfl
  | cons entry rest ih =>
      by_cases same : entry.1 = place
      · have unequal : entry.1 ≠ other := fun equal => differ (equal.symm.trans same)
        rw [List.filter_cons_of_neg (by simp [same]), nodeAt, if_neg unequal]
        exact ih
      · rw [List.filter_cons_of_pos (by simp [same]), nodeAt, nodeAt, ih]

theorem find?_insert_self
    (tree : FileTree) {place : Place} (below : place ≠ []) (node : Node) :
    (tree.insert place node).find? place = some node := by
  simp [find?, insert, below, nodeAt_insertInto_self]

theorem find?_insert_of_ne
    (tree : FileTree) {place other : Place} (differ : other ≠ place) (node : Node) :
    (tree.insert place node).find? other = tree.find? other := by
  simp [find?, insert, nodeAt_insertInto_of_ne differ]

theorem find?_erase_self (tree : FileTree) {place : Place} (below : place ≠ []) :
    (tree.erase place).find? place = none := by
  simp only [find?, erase, below, if_false]
  exact nodeAt_filter_self place tree.nodes

theorem find?_erase_of_ne (tree : FileTree) {place other : Place} (differ : other ≠ place) :
    (tree.erase place).find? other = tree.find? other := by
  simp only [find?, erase]
  split
  · rfl
  · exact nodeAt_filter_of_ne differ tree.nodes

end FileTree
end CompilerRelay
