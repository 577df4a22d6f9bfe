import CompilerRelay.FileTree.Access

/-!
# Walking directories

The entries of directories in the order of their names.

**Algorithm.**  The names of a directory are sorted by their code points.  A walk visits what is in a directory
before the siblings that come after it, and does not follow links; only the place where it starts may be one.  It
opens every directory by its path, and stops at the first that cannot be opened.

**Results.**  `mem_children`: the children of a place are the names of the entries right below it.
`filesAt_of_long`: a directory whose path is too long cannot be opened.
-/

namespace CompilerRelay

/-- Where a walk stopped, and why. -/
structure WalkFault where
  path : Path
  cause : FileError
  deriving DecidableEq, Repr

/-- What is told of a walk that stopped. -/
def WalkFault.message (fault : WalkFault) : String :=
  fault.path.text ++ ": IO error for operation on " ++ fault.path.text ++ ": " ++ fault.cause.message

namespace FileTree

/-- Whether a name is sorted before another or is the same. -/
def nameAtMost (first second : List Char) : Bool :=
  Path.numbersAtMost (first.map Char.toNat) (second.map Char.toNat)

/-- The name that a place has right below another. -/
def childName? (parent : Place) (place : Place) : Option Name :=
  if place.dropLast = parent then place.getLast? else none

/-- The names in a directory, in no order. -/
def children (tree : FileTree) (place : Place) : List Name :=
  tree.nodes.filterMap fun entry => childName? place entry.1

theorem mem_children {tree : FileTree} {place : Place} {name : Name} :
    name ∈ tree.children place ↔ ∃ node, (place ++ [name], node) ∈ tree.nodes := by
  simp only [children, List.mem_filterMap, childName?, Prod.exists]
  constructor
  · rintro ⟨found, node, held, named⟩
    split at named
    · next above =>
        have whole : found = place ++ [name] := by
          obtain ⟨front, shape⟩ := List.getLast?_eq_some_iff.mp named
          rw [shape, List.dropLast_concat] at above
          rw [shape, above]
        exact ⟨node, whole ▸ held⟩
    · exact absurd named (by simp)
  · rintro ⟨node, held⟩
    exact ⟨place ++ [name], node, held, by simp⟩

/-- The names in a directory, sorted. -/
def sortedChildren (tree : FileTree) (place : Place) : List Name :=
  (tree.children place).mergeSort nameAtMost

theorem mem_sortedChildren
    {tree : FileTree} {place : Place} {name : Name} :
    name ∈ tree.sortedChildren place ↔ name ∈ tree.children place :=
  (List.mergeSort_perm _ _).mem_iff

/-- The files at and below a place, so many levels deep, by the path of the place and their names. -/
def filesAt (tree : FileTree) : Nat → Place → Path → Except WalkFault (List Path)
  | 0, _, _ => .ok []
  | levels + 1, place, path =>
      match tree.find? place with
      | some (.file _ _ _) => .ok [path]
      | some .directory =>
          if pathLimit ≤ path.text.utf8ByteSize then .error ⟨path, .nameTooLong⟩
          else
            ((tree.sortedChildren place).mapM fun name =>
              filesAt tree levels (place ++ [name]) (path.join ⟨String.ofList name⟩)).map List.flatten
      | _ => .ok []

theorem filesAt_of_long
    {tree : FileTree} {place : Place} {path : Path} (levels : Nat)
    (directory : tree.find? place = some .directory)
    (long : pathLimit ≤ path.text.utf8ByteSize) :
    tree.filesAt (levels + 1) place path = .error ⟨path, .nameTooLong⟩ := by
  simp only [filesAt, directory, long, if_true]

/-- The files below the directory that a path leads to, in the order of a walk. -/
def filesBelow (tree : FileTree) (path : Path) : Except WalkFault (List Path) :=
  match tree.locate true path with
  | .error cause => .error ⟨path, cause⟩
  | .ok spot => tree.filesAt (tree.nodes.length + 1) spot.place path

/-- The lines of a listing of what is below a place, so many levels deep; directories end in a slash, and links
to directories are followed. -/
def linesBelow (tree : FileTree) : Nat → Place → List Char → List (List Char)
  | 0, _, _ => []
  | levels + 1, place, lead =>
      (tree.children place).flatMap fun name =>
        let here := place ++ [name]
        let line := lead ++ name
        match tree.find? here with
        | some .directory => (line ++ ['/']) :: linesBelow tree levels here (line ++ ['/'])
        | some (.link target) =>
            match tree.walk true linkLimit (startOf place target) (stepsOf target) with
            | .ok (reached, _) =>
                if (tree.find? reached).any Node.isDirectory then
                  (line ++ ['/']) :: linesBelow tree levels reached (line ++ ['/'])
                else [line]
            | .error _ => [line]
        | _ => [line]

/-- The sorted listing of everything below the directory that a path leads to. -/
def listing (tree : FileTree) (path : Path) : List String :=
  match tree.locate true path with
  | .error _ => []
  | .ok spot =>
      ((tree.linesBelow (tree.nodes.length + 1) spot.place []).mergeSort nameAtMost).map String.ofList

end FileTree
end CompilerRelay
