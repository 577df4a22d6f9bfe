import CompilerRelay.FileTree.Access

/-!
# Calls that are refused

A system may refuse a call on files for a reason that no tree shows: missing rights, a full quota, a faulty disk.

**Form.**  `Refusals` says of every tree and call whether the call is refused, and why.  `Refusals.none` is the system
that refuses nothing, so that a call fails for what the tree is and for nothing else.

**Results.**  `permit_eq_ok_iff`: a call has a result if it is not refused and the tree allows it.
-/

namespace CompilerRelay

/-- A call on files that can be refused. -/
inductive FileCall where
  /-- Remove the entry that a path leads to. -/
  | remove (path : Path)
  /-- Read the file that a path leads to. -/
  | read (path : Path)
  /-- Make a file at a place that is free. -/
  | create (place : Place)
  /-- Write to the file that was made at a place. -/
  | write (place : Place) (content : Bytes)
  /-- Move the file at a place to where a path leads. -/
  | move (place : Place) (path : Path)
  /-- Remove the file at a place again that could not be written or moved. -/
  | sweep (place : Place)
  deriving DecidableEq, Repr

/-- Why a call was refused.  That there is no entry, or that there is one, is told by the tree alone. -/
structure Refusal where
  cause : FileError
  /-- How many bytes were written before, if the call writes. -/
  written : Nat := 0
  unseen : cause ≠ .notFound ∧ cause ≠ .alreadyThere := by decide
  deriving DecidableEq, Repr

/-- What a system refuses. -/
abbrev Refusals := FileTree → FileCall → Option Refusal

/-- Nothing is refused. -/
def Refusals.none : Refusals :=
  fun _ _ => Option.none

namespace FileTree

/-- The result of a call, unless the call is refused. -/
def permit
    (tree : FileTree) (refuses : Refusals) (call : FileCall) (result : Except FileError α) : Except FileError α :=
  match refuses tree call with
  | some refusal => .error refusal.cause
  | none => result

@[simp] theorem permit_none (tree : FileTree) (call : FileCall) (result : Except FileError α) :
    tree.permit .none call result = result := rfl

theorem permit_eq_ok_iff
    {refuses : Refusals} {tree : FileTree} {call : FileCall} {result : Except FileError α} {value : α} :
    tree.permit refuses call result = .ok value ↔ refuses tree call = none ∧ result = .ok value := by
  unfold permit
  cases refuses tree call with
  | none => simp
  | some refusal => simp

end FileTree
end CompilerRelay
