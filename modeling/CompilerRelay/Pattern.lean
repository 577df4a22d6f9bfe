import CompilerRelay.Pattern.Reader
import CompilerRelay.Text.Quoted

/-!
# Patterns

Regular expressions for lines of output.

**Input.**  The text of a pattern, as the user wrote it.

**Results.**  `compile_ok_text`: a pattern keeps its text.
-/

namespace CompilerRelay

/-- A pattern that was read. -/
structure Pattern where
  text : String
  node : Pattern.Node
  deriving DecidableEq, Repr

namespace Pattern

/-- The text is no pattern. -/
structure Invalid where
  text : String
  deriving DecidableEq, Repr

/-- What is told of a text that is no pattern. -/
def Invalid.message (invalid : Invalid) : String :=
  "invalid output pattern " ++ quoted invalid.text

/-- Read a pattern. -/
def compile (text : String) : Except Invalid Pattern :=
  match readNode text.toList with
  | some node => .ok ⟨text, node⟩
  | none => .error ⟨text⟩

theorem compile_ok_text
    {text : String} {pattern : Pattern}
    (compiled : compile text = .ok pattern) :
    pattern.text = text := by
  unfold compile at compiled
  split at compiled
  · cases compiled
    rfl
  · exact absurd compiled (by simp)

/-- Whether a pattern occurs in a line. -/
def occursIn (pattern : Pattern) (line : String) : Bool :=
  search pattern.node line.toList

end Pattern
end CompilerRelay
