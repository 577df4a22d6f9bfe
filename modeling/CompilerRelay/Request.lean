import CompilerRelay.Json
import CompilerRelay.Path

/-!
# Requests

What an editor asks for.  A request is one object of JSON: its command, the fields of the command, and
perhaps a number that its answer carries too.

**Results.**  `CommandName.mem_all`: the list of commands is complete.  `CommandName.ofText?_text`: a command
is found by its name.
-/

namespace CompilerRelay

/-- The commands. -/
inductive CommandName where
  | start
  | stop
  | reset
  | clean
  | cleanTemplates
  | compileFile
  | compileWorkspace
  | compileFolders
  | runCurrentFile
  | loadAllKnown
  | run
  | runIfStarted
  | runStatement
  | goto
  | quitDebug
  | outputFile
  | diagnostics
  | shutdown
  deriving DecidableEq, Repr

namespace CommandName

/-- All commands, in the order of their numbers. -/
def all : List CommandName :=
  [.start, .stop, .reset, .clean, .cleanTemplates, .compileFile, .compileWorkspace, .compileFolders,
   .runCurrentFile, .loadAllKnown, .run, .runIfStarted, .runStatement, .goto, .quitDebug, .outputFile,
   .diagnostics, .shutdown]

theorem mem_all (name : CommandName) : name ∈ all := by
  cases name <;> simp [all]

/-- The name of a command in a request. -/
def text : CommandName → String
  | .start => "start"
  | .stop => "stop"
  | .reset => "reset"
  | .clean => "clean"
  | .cleanTemplates => "clean_cmx"
  | .compileFile => "compile_file"
  | .compileWorkspace => "compile_workspace"
  | .compileFolders => "compile_folders"
  | .runCurrentFile => "run_current_file"
  | .loadAllKnown => "load_all_known"
  | .run => "run"
  | .runIfStarted => "run_if_started"
  | .runStatement => "run_statement"
  | .goto => "goto"
  | .quitDebug => "quit_debug"
  | .outputFile => "output_file"
  | .diagnostics => "diagnostics"
  | .shutdown => "shutdown"

/-- The command of a name. -/
def ofText? (name : String) : Option CommandName :=
  all.find? (·.text == name)

theorem ofText?_text (name : CommandName) : ofText? name.text = some name := by
  cases name <;> decide

end CommandName

/-- The fields of requests. -/
inductive FieldName where
  | file
  | directory
  | directories
  | code
  | success
  | failure
  | start
  | keepOutput
  | offset
  | enabled
  deriving DecidableEq, Repr

namespace FieldName

/-- All fields. -/
def all : List FieldName :=
  [.file, .directory, .directories, .code, .success, .failure, .start, .keepOutput, .offset, .enabled]

theorem mem_all (name : FieldName) : name ∈ all := by
  cases name <;> simp [all]

/-- The name of a field in a request. -/
def text : FieldName → String
  | .file => "file"
  | .directory => "dir"
  | .directories => "dirs"
  | .code => "code"
  | .success => "success"
  | .failure => "failure"
  | .start => "start"
  | .keepOutput => "do_not_clear"
  | .offset => "offset"
  | .enabled => "enabled"

end FieldName

/-- The fields that a command has, in their order. -/
def CommandName.fields : CommandName → List FieldName
  | .compileFile | .runCurrentFile | .loadAllKnown => [.file]
  | .compileWorkspace => [.directory]
  | .compileFolders => [.directories]
  | .run | .runIfStarted => [.code]
  | .runStatement => [.code, .success, .failure, .start, .keepOutput]
  | .goto => [.file, .offset]
  | .outputFile => [.enabled]
  | .start | .stop | .reset | .clean | .cleanTemplates | .quitDebug | .diagnostics | .shutdown => []

/-- Code whose outcome is asked for, with the patterns that tell it as texts. -/
structure StatementRequest where
  code : String
  success : String
  failure : Option String := none
  start : Bool := true
  keepOutput : Bool := false
  deriving DecidableEq, Repr

/-- What is asked for. -/
inductive Request where
  | start
  | stop
  | reset
  | clean
  | cleanTemplates
  | compileFile (file : Path)
  | compileWorkspace (directory : Path)
  | compileFolders (directories : List Path)
  | runCurrentFile (file : Path)
  | loadAllKnown (file : Path)
  | run (code : String)
  | runIfStarted (code : String)
  | runStatement (statement : StatementRequest)
  | goto (file : Path) (offset : Nat)
  | quitDebug
  | outputFile (enabled : Bool)
  | diagnostics
  | shutdown
  deriving DecidableEq, Repr

/-- A request with the number that its answer carries. -/
structure Envelope where
  id : Option Nat := none
  request : Request
  deriving DecidableEq, Repr

namespace Request

/-- The command of a request. -/
def command : Request → CommandName
  | .start => .start
  | .stop => .stop
  | .reset => .reset
  | .clean => .clean
  | .cleanTemplates => .cleanTemplates
  | .compileFile _ => .compileFile
  | .compileWorkspace _ => .compileWorkspace
  | .compileFolders _ => .compileFolders
  | .runCurrentFile _ => .runCurrentFile
  | .loadAllKnown _ => .loadAllKnown
  | .run _ => .run
  | .runIfStarted _ => .runIfStarted
  | .runStatement _ => .runStatement
  | .goto _ _ => .goto
  | .quitDebug => .quitDebug
  | .outputFile _ => .outputFile
  | .diagnostics => .diagnostics
  | .shutdown => .shutdown

/-- A path as a value. -/
def pathValue (path : Path) : Json :=
  .string path.text

/-- The fields of a request with their values, in their order. -/
def fields : Request → List (FieldName × Json)
  | .compileFile file | .runCurrentFile file | .loadAllKnown file => [(.file, pathValue file)]
  | .compileWorkspace directory => [(.directory, pathValue directory)]
  | .compileFolders directories => [(.directories, .array (directories.map pathValue))]
  | .run code | .runIfStarted code => [(.code, .string code)]
  | .runStatement statement =>
      [(.code, .string statement.code), (.success, .string statement.success),
       (.failure, statement.failure.elim .null .string), (.start, .bool statement.start),
       (.keepOutput, .bool statement.keepOutput)]
  | .goto file offset => [(.file, pathValue file), (.offset, .nat offset)]
  | .outputFile enabled => [(.enabled, .bool enabled)]
  | .start | .stop | .reset | .clean | .cleanTemplates | .quitDebug | .diagnostics | .shutdown => []

theorem map_fst_fields (request : Request) :
    request.fields.map Prod.fst = request.command.fields := by
  cases request <;> rfl

/-- The members of the object that asks for a request. -/
def members (request : Request) : List (String × Json) :=
  ("command", .string request.command.text)
    :: request.fields.map fun (name, value) => (name.text, value)

end Request

/-- The object that a request is sent as. -/
def Envelope.object (envelope : Envelope) : Json :=
  .object (("id", envelope.id.elim .null .nat) :: envelope.request.members)

end CompilerRelay
