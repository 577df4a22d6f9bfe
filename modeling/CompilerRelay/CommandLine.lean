import CompilerRelay.Bridge
import CompilerRelay.Config.Reader

/-!
# The command line

How the program begins and ends.

**Algorithm.**  The configuration is that of the user, or the default if there is none or it cannot be used.  The log
of the program is opened at the first of its places where that works.  The program fails only if a request cannot be
read.

**Place.**  The start and the end of the program, around the loop that serves requests: the theory of the relay is about
every configuration, whichever was read here.
-/

namespace CompilerRelay
namespace CommandLine

/-- The configuration that the program works with. -/
def configuration (environment : Environment) (files : FileTree) : CompilerConfig :=
  match Config.load environment files with
  | .ok (some config) => config.compiler.expand environment
  | .ok none | .error _ => CompilerConfig.expand {} environment

/-- The log below a directory for the configuration and the logs. -/
def logBelow (home : Path) : Path :=
  (home.join ⟨"logs"⟩).join ⟨"cmbridge.log"⟩

/-- The places of the log, the best first. -/
def logPlaces (environment : Environment) : List Path :=
  [logBelow (Config.home environment), logBelow ⟨".cmbridge"⟩]

/-- Make the directories around a file. -/
def makeAround (path : Path) (files : FileTree) : Except FileError FileTree :=
  match path.parent? with
  | some parent => files.makeDirectories parent
  | none => .ok files

/-- Open the log at the first place where that works. -/
def openLog : List Path → FileTree → Option Path × FileTree
  | [], files => (none, files)
  | path :: rest, files =>
      match makeAround path files with
      | .error _ => openLog rest files
      | .ok made =>
          match made.openAppending path with
          | .ok (_, opened) => (some path, opened)
          | .error _ => openLog rest made

/-- Begin: the configuration, and the files with the log. -/
def start (environment : Environment) (files : FileTree) : CompilerConfig × FileTree :=
  (configuration environment files, (openLog (logPlaces environment) files).2)

/-- The number that the program ends with. -/
def status : Except Utf8.Fault Unit → Nat
  | .ok () => 0
  | .error _ => 1

/-- What the program tells at its end. -/
def lastWords : Except Utf8.Fault Unit → String
  | .ok () => ""
  | .error fault => "Error: " ++ "\n\nCaused by:\n    ".intercalate (Bridge.readFailure fault) ++ "\n"

end CommandLine
end CompilerRelay
