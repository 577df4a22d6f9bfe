import CompilerRelay.Pattern
import CompilerRelay.Template.Generation

/-!
# Failures

Why a request was not carried out.
-/

namespace CompilerRelay

/-- Why the output did not settle a watch as it was wanted. -/
inductive WatchFailure where
  /-- No line settled it in so many milliseconds. -/
  | timeout (limit : Nat)
  | superseded
  | sessionEnded
  /-- This line said so. -/
  | failed (line : String)
  deriving DecidableEq, Repr

/-- What is told of a watch that failed. -/
def WatchFailure.message : WatchFailure → String
  | .timeout limit => s!"no matching output within {limit}ms"
  | .superseded => "output watch replaced by a newer request"
  | .sessionEnded => "compiler session ended before output matched"
  | .failed line => "statement failed: " ++ line

/-- Why the compiler did not start. -/
inductive StartFailure where
  | notFound (program : String)
  | notSpawned (program : Path) (cause : FileError)
  | notReady (cause : WatchFailure)
  deriving DecidableEq, Repr

/-- What is told of a compiler that did not start. -/
def StartFailure.message : StartFailure → String
  | .notFound program => program ++ " not found in PATH: cannot find binary path"
  | .notSpawned program cause => "spawning " ++ program.text ++ ": " ++ cause.message
  | .notReady cause => "not ready: " ++ cause.message

/-- Why a request was not carried out. -/
inductive Failure where
  | start (cause : StartFailure)
  | preprocess (fault : TemplateFault)
  | watch (cause : WatchFailure)
  | notRunning
  /-- This line was to tell a definition. -/
  | definition (line : String)
  | clean (cause : FileError)
  | log (path : Path) (cause : FileError)
  | invalidPattern (invalid : Pattern.Invalid)
  deriving DecidableEq, Repr

/-- What is told of a failure. -/
def Failure.message : Failure → String
  | .start cause => "failed to start cm compiler: " ++ cause.message
  | .preprocess fault => fault.message
  | .watch cause => cause.message
  | .notRunning => "cm compiler is not running"
  | .definition line => "unrecognised definition reply: " ++ line
  | .clean cause => "clean command failed: " ++ cause.message
  | .log path cause => path.text ++ ": " ++ cause.message
  | .invalidPattern invalid => invalid.message

end CompilerRelay
