import CompilerRelay.Relay.Lifecycle
import CompilerRelay.Statement

/-!
# What the editor asks of the compiler

**Algorithm.**  A command clears the views that it is going to fill, makes sure that the compiler runs, and sends a
statement.  A statement whose outcome is wanted is watched for from before it is sent.  A template is generated
anew before its file is used.
-/

namespace CompilerRelay
namespace Relay

/-- End debugging, if the compiler runs. -/
def quitDebug : Operation Unit := do
  if (← look isRunning) then send .quitDebug

/-- Clear the views, make sure that the compiler runs, and send a command. -/
def runCommand (command : Command) : Operation Unit := do
  clearForBuild
  clearDiagnostics
  ensureRunning
  send command

/-- Run code. -/
def run (code : String) : Operation Unit :=
  runCommand (.raw code)

/-- Run code if the compiler runs; the result says whether it was sent. -/
def runIfStarted (code : String) : Operation Bool := do
  clearForBuild
  clearDiagnostics
  if (← look isRunning) then
    send (.raw code)
    return true
  else return false

/-- Watch for lines, as long as the configuration allows. -/
def watchFor (success : Pattern) (failure : Option Pattern) : Operation PendingWatch := do
  let id ← install success failure
  return ⟨id, ← look (·.config.watchTimeout)⟩

/-- Compile code with the texts of its patterns, read as the host reads them. -/
def compile (code success : String) (failure : Option String) : Operation Statement := do
  let compiled ← look fun relay => Statement.compile code success failure relay.host.compile
  attempt .invalidPattern compiled

/-- Send a statement; the result is its watch, or nothing if it was skipped. -/
def submit (statement : Statement) : Operation (Option PendingWatch) := do
  if !statement.start && !(← look isRunning) then return none
  if !statement.keepOutput then clearForBuild
  ensureRunning
  let watch ← watchFor statement.success statement.failure
  sendWatched (.raw statement.code) watch
  return some watch

/-- Send a statement and wait for the line that settles it; nothing if it was skipped. -/
def runStatement (statement : Statement) : Operation (Option String) := do
  match ← submit statement with
  | none => return none
  | some watch => return some (← watch.wait)

/-- Generate the file of a template; the result is the file that the compiler is to see. -/
def preprocess (file : Path) : Operation Path := do
  let target ← onTemplates fun root files => Template.generate root file files
  if !target.same file then onChannel Channel.forgetTemplates
  return target

/-- Compile a file; the result is the file that the compiler sees. -/
def compileFile (file : Path) : Operation Path := do
  clearForBuild
  clearDiagnostics
  ensureRunning
  let target ← preprocess file
  send (.compileFile target)
  return target

/-- The name of files whose runs leave the output that is shown. -/
def loaderName : List Char := "acloader.cm".toList

/-- Whether running a file leaves the output that is shown. -/
def isLoader (file : Path) : Bool :=
  loaderName.isSuffixOf file.slashed

/-- Run a file; the result is the file that the compiler sees. -/
def runFile (file : Path) : Operation Path := do
  if !isLoader file then clearForBuild
  clearDiagnostics
  ensureRunning
  let target ← preprocess file
  send (.runFile target)
  return target

/-- Load a file with all that it needs. -/
def loadAll (file : Path) : Operation Unit := do
  clearDiagnostics
  ensureRunning
  send (.loadAll file)

/-- Generate the files of all templates and compile directories. -/
def compileFolders (directories : List Path) : Operation Unit := do
  ensureRunning
  let _ ← onTemplates Template.generateAll
  onChannel Channel.forgetTemplates
  runCommand (.compileAllBelow directories)

/-- Generate the files of all templates and compile a directory. -/
def compileWorkspace (directory : Path) : Operation Unit :=
  compileFolders [directory]

/-- The text of the pattern of lines that tell a definition. -/
def definitionPattern : String := "^\\[DEFINITION:"

/-- Ask where a symbol is defined; the result is the watch for the answer. -/
def submitGoto (file : Path) (offset : Nat) : Operation PendingWatch := do
  ensureRunning
  let pattern ← attempt .invalidPattern (Pattern.compile definitionPattern)
  let watch ← watchFor pattern none
  sendWatched (.refers file offset) watch
  return watch

/-- Where a symbol is defined. -/
def goto (file : Path) (offset : Nat) : Operation Location := do
  (← submitGoto file offset).waitLocation

end Relay
end CompilerRelay
