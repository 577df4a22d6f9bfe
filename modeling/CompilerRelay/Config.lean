import CompilerRelay.Environment

/-!
# The configuration

What the relay is told about the compiler, and what it takes for granted otherwise.
-/

namespace CompilerRelay

/-- What the relay is told about the compiler. -/
structure CompilerConfig where
  /-- The program, which is looked for in the directories for programs. -/
  program : String := "cm"
  arguments : List String := []
  /-- The directory that the compiler runs in. -/
  root : Path := ⟨"."⟩
  /-- The project with the custom packages, if it is somewhere else. -/
  project : Option Path := none
  /-- The directory that files in the output are relative to, if it is another one. -/
  outputRoot : Option Path := none
  gitMode : Bool := false
  arch : String := "x64"
  debug : Bool := false
  /-- Whether the view of the output is cleared before commands that build. -/
  clearOutput : Bool := true
  /-- The pattern of the line that says that the compiler takes commands. -/
  readyPattern : Option String := none
  /-- How long the compiler may take to get ready, in milliseconds. -/
  startupTimeout : Nat := 30000
  /-- How long a statement or a look-up may take, in milliseconds. -/
  watchTimeout : Nat := 2000
  /-- The file for a copy of the output, if it is not the usual one. -/
  outputFile : Option Path := none
  cleanProgram : String := "make"
  cleanArguments : List String := ["clean-cm"]
  deriving DecidableEq, Repr

namespace CompilerConfig

/-- The root of the project. -/
def projectRoot (config : CompilerConfig) : Path :=
  config.project.getD config.root

/-- The directory that files in the output are relative to. -/
def diagnosticRoot (config : CompilerConfig) : Path :=
  config.outputRoot.getD config.root

/-- The file for a copy of the output. -/
def logPath (config : CompilerConfig) (environment : Environment) : Path :=
  config.outputFile.getD (environment.temporary.join ⟨"cmbridge-output.log"⟩)

/-- A truth value as a text for the compiler. -/
def flagText (value : Bool) : String :=
  if value then "1" else "0"

/-- The variables that the compiler is told its configuration by. -/
def bindings (config : CompilerConfig) : List (String × String) :=
  [("CM_ROOT", config.root.text), ("CM_GIT_MODE", flagText config.gitMode), ("CM_ARCH", config.arch),
    ("CM_DEBUG", flagText config.debug)]

/-- The configuration with the references to variables replaced. -/
def expand (config : CompilerConfig) (environment : Environment) : CompilerConfig :=
  { config with
    program := environment.expand config.program
    arguments := config.arguments.map environment.expand
    root := environment.expandPath config.root
    project := config.project.map environment.expandPath
    outputRoot := config.outputRoot.map environment.expandPath
    outputFile := config.outputFile.map environment.expandPath }

end CompilerConfig

/-- The configuration of the relay. -/
structure Config where
  logLevel : Option String := none
  compiler : CompilerConfig := {}
  deriving DecidableEq, Repr

end CompilerRelay
