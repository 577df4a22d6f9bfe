import CompilerRelay.FileTree.Refusal

/-!
# Replacing a file at once

**Input.**  A directory, a path in it, the new content, and what the system refuses.

**Algorithm.**  The content is written to a file under a name of its own in the directory, and the file is then
moved to the path.  Nobody sees a part of the content under the path.  A file that cannot be written or moved is removed
again, and it stays where it is if that is refused too.

**Results.**  `spareName?_spec`: the name that is chosen has a number, and is the name of nothing.
-/

namespace CompilerRelay
namespace FileTree

/-- How many names are tried for a file that is being written. -/
def spareNameLimit : Nat := 65536

/-- The name of a file that is being written: ten characters, unless very many files were made before. -/
def spareName (number : Nat) : Name :=
  ".tmp".toList ++ (Nat.toDigits 10 number).leftpad 6 '0'

/-- A name in a directory that is the name of nothing yet; numbers from the newest file on are tried. -/
def spareName? (tree : FileTree) (directory : Place) : Option Name :=
  go spareNameLimit tree.lastId
where
  /-- The first of so many names that is free. -/
  go : Nat → Nat → Option Name
    | 0, _ => none
    | tries + 1, number =>
        if tree.find? (directory ++ [spareName number]) = none then some (spareName number)
        else go tries (number + 1)

theorem spareName?_spec
    {tree : FileTree} {directory : Place} {name : Name}
    (chosen : tree.spareName? directory = some name) :
    (∃ number, name = spareName number) ∧ tree.find? (directory ++ [name]) = none := by
  have every (tries number : Nat) (found : spareName?.go tree directory tries number = some name) :
      (∃ number, name = spareName number) ∧ tree.find? (directory ++ [name]) = none := by
    induction tries generalizing number with
    | zero => simp [spareName?.go] at found
    | succ tries ih =>
        unfold spareName?.go at found
        split at found
        · next free =>
            obtain rfl := Option.some.inj found
            exact ⟨⟨number, rfl⟩, free⟩
        · exact ih (number + 1) found
  exact every _ _ chosen

/-- The path of a file in a directory, from the root on. -/
def pathFromRoot (tree : FileTree) (directory : Path) (name : Name) : Path :=
  ((⟨String.ofList ('/' :: Text.join ['/'] tree.current)⟩ : Path).join directory).join ⟨String.ofList name⟩

/-- Remove the file that was being written, unless that is refused. -/
def sweep (tree : FileTree) (refuses : Refusals) (spare : Place) : FileTree :=
  if (refuses tree (.sweep spare)).isSome then tree else tree.erase spare

/-- Put a file with this content where a path leads, by way of a place that is free. -/
def replaceBy
    (tree : FileTree) (refuses : Refusals) (spare : Place) (path : Path) (content : Bytes) :
    Except FileError Unit × FileTree :=
  match refuses tree (.create spare) with
  | some refusal => (.error refusal.cause, tree)
  | none =>
      match refuses (tree.putFile spare [] false) (.write spare content) with
      | some refusal =>
          (.error refusal.cause, (tree.putFile spare (content.take refusal.written) false).sweep refuses spare)
      | none =>
          let written := tree.putFile spare content false
          match written.permit refuses (.move spare path) (written.moveFile spare path) with
          | .ok after => (.ok (), after)
          | .error cause => (.error cause, written.sweep refuses spare)

/-- Put a file with this content where a path leads, in place of what is there. -/
def replaceFile
    (tree : FileTree) (directory path : Path) (content : Bytes) (refuses : Refusals := .none) :
    Except FileError Unit × FileTree :=
  match tree.locate true directory with
  | .error cause => (.error cause, tree)
  | .ok spot =>
      match tree.find? spot.place, tree.spareName? spot.place with
      | none, _ => (.error .notFound, tree)
      | some .directory, some name =>
          if pathLimit ≤ (tree.pathFromRoot directory name).text.utf8ByteSize then (.error .nameTooLong, tree)
          else tree.replaceBy refuses (spot.place ++ [name]) path content
      | some .directory, none => (.error .alreadyThere, tree)
      | some _, _ => (.error .notDirectory, tree)

end FileTree
end CompilerRelay
