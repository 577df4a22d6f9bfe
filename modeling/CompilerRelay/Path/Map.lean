import CompilerRelay.Path

/-!
# Maps from paths

A map whose keys are paths, where two paths with the same components are one key.  The entries stand in the
order in which their keys came in, and each keeps the spelling it came in with.

**Results.**  `find?_insert_self`, `find?_empty`.
-/

namespace CompilerRelay

/-- A map from paths. -/
structure PathMap (α : Type) where
  entries : List (Path × α) := []
  deriving DecidableEq, Repr

namespace PathMap

variable {α : Type}

/-- Whether a path is the key of an entry. -/
def holds (path : Path) (entry : Path × α) : Bool :=
  entry.1.same path

/-- The value at a path. -/
def find? (map : PathMap α) (path : Path) : Option α :=
  (map.entries.find? (holds path)).map Prod.snd

/-- The entries with the value at a path replaced, or with a new entry at the end. -/
def insertInto (path : Path) (value : α) : List (Path × α) → List (Path × α)
  | [] => [(path, value)]
  | entry :: rest =>
      if holds path entry then (entry.1, value) :: rest
      else entry :: insertInto path value rest

/-- Set the value at a path. -/
def insert (map : PathMap α) (path : Path) (value : α) : PathMap α :=
  ⟨insertInto path value map.entries⟩

/-- Forget the value at a path. -/
def erase (map : PathMap α) (path : Path) : PathMap α :=
  ⟨map.entries.filter (!holds path ·)⟩

@[simp] theorem find?_empty (path : Path) :
    (PathMap.mk ([] : List (Path × α))).find? path = none := rfl

theorem find?_insert_self (map : PathMap α) (path : Path) (value : α) :
    (map.insert path value).find? path = some value := by
  unfold find? insert
  induction map.entries with
  | nil => simp [insertInto, holds]
  | cons entry rest ih =>
      unfold insertInto
      split
      · next found => simp_all [holds]
      · next other => simp_all

end PathMap
end CompilerRelay
