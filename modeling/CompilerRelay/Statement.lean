import CompilerRelay.Pattern

/-!
# Statements

Code for the compiler whose outcome is read from its output.

**Input.**  The code, the pattern of the line that means success, and perhaps one of the line that means
failure.

**Results.**  `compile_code`: the code is kept as it is.
-/

namespace CompilerRelay

/-- Code with the patterns of the lines that settle it. -/
structure Statement where
  code : String
  success : Pattern
  failure : Option Pattern := none
  /-- Whether the compiler is started for it; otherwise it is skipped while none runs. -/
  start : Bool := true
  /-- Whether the output that is shown stays. -/
  keepOutput : Bool := false
  deriving DecidableEq, Repr

namespace Statement

/-- A statement from its code and the texts of its patterns; the pattern of success is read first. -/
def compile
    (code success : String) (failure : Option String)
    (read : String → Except Pattern.Invalid Pattern := Pattern.compile) : Except Pattern.Invalid Statement := do
  let success ← read success
  match failure with
  | none => return { code, success }
  | some text => return { code, success, failure := some (← read text) }

theorem compile_code
    {code success : String} {failure : Option String} {read : String → Except Pattern.Invalid Pattern}
    {statement : Statement} (compiled : compile code success failure read = .ok statement) :
    statement.code = code := by
  unfold compile at compiled
  cases first : read success with
  | error invalid => rw [first] at compiled; exact absurd compiled (by simp [bind, Except.bind])
  | ok pattern =>
      rw [first] at compiled
      cases failure with
      | none =>
          have equal := Except.ok.inj compiled
          rw [← equal]
      | some text =>
          cases second : read text with
          | error invalid =>
              exact absurd compiled (by simp [bind, Except.bind, second])
          | ok other =>
              simp only [bind, Except.bind, second] at compiled
              have equal := Except.ok.inj compiled
              rw [← equal]

end Statement
end CompilerRelay
