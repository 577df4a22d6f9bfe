import CompilerRelay.Diagnostic

/-!
# Events

What the relay tells the editor as it happens.
-/

namespace CompilerRelay

/-- Why a session ended without being asked to. -/
inductive StopReason where
  | exited
  | failed (cause : String)
  deriving DecidableEq, Repr

/-- Something the editor is told. -/
inductive Event where
  /-- A complete line for the output view. -/
  | output (line : String)
  | outputCleared
  /-- The complete list of diagnostics of a file, in place of the list before. -/
  | diagnostics (path : Path) (items : List Diagnostic)
  | diagnosticsCleared
  /-- A short message for the user. -/
  | notification (message : String)
  | sessionStopped (reason : StopReason)
  deriving DecidableEq, Repr

/-- The line that an event adds to the output view. -/
def Event.outputLine? : Event → Option String
  | .output line => some line
  | _ => none

end CompilerRelay
