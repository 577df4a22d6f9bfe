import CompilerRelay.Relay.Operation

/-!
# Starting and stopping the compiler

**Algorithm.**  A session is started only if the slot holds none.  If a line is configured that says that the
compiler takes commands, it is watched for before the process is spawned, and the session gets the slot when it
came.  Ending a session frees the slot first, tells who waits for output, and then kills the process.
-/

namespace CompilerRelay
namespace Relay

/-- Spawn a process of the compiler; the result is the number of its session. -/
def spawn (relay : Relay) : Except StartFailure Nat × Relay :=
  match relay.host.resolve relay.files relay.config.program with
  | none => (.error (.notFound relay.config.program), relay)
  | some program =>
      match relay.host.refuses relay.files program relay.config.root with
      | some cause => (.error (.notSpawned program cause), relay)
      | none => (.ok relay.sessions.length, { relay with sessions := relay.sessions ++ [{}] })

/-- Clear the view of the output before a command that builds, if that is wanted. -/
def clearForBuild : Operation Unit := do
  if (← look (·.config.clearOutput)) then onChannel Channel.clear

/-- Forget the diagnostics. -/
def clearDiagnostics : Operation Unit :=
  onChannel Channel.clearDiagnostics

/-- Spawn a process; a watch for its first line is given up if that fails. -/
def spawnWatched (ready : Option Nat) : Operation Nat := do
  match ← ExceptT.lift (Task.act spawn) with
  | .ok session => return session
  | .error cause =>
      ready.forM clearWatch
      setSlot .stopped
      throw (.start cause)

/-- Wait for the line that says that the compiler takes commands; a process that does not write it is killed. -/
def awaitReady (session id : Nat) : Operation Unit := do
  let limit ← look (·.config.startupTimeout)
  match ← ExceptT.lift (awaitWatch ⟨id, limit⟩) with
  | .ok _ => return
  | .error cause =>
      change (·.killSession session)
      setSlot .stopped
      throw (.start (.notReady cause))

/-- Start the compiler, unless the slot holds a session. -/
def start : Operation Unit := do
  if (← look isRunning) then return
  let compiled ← look fun relay => relay.config.readyPattern.mapM relay.host.compile
  let pattern ← attempt .invalidPattern compiled
  setSlot .starting
  let ready ← pattern.mapM fun pattern => install pattern none
  let session ← spawnWatched ready
  ready.forM (awaitReady session)
  setSlot (.running session)

/-- Free the slot; the result is what it held. -/
def freeSlot (relay : Relay) : Slot × Relay :=
  (relay.slot, { relay with slot := .stopped })

/-- End the session, if there is one, and tell who waits for output. -/
def endSession : Operation Unit := do
  let slot ← ExceptT.lift (Task.act freeSlot)
  onChannel Channel.abandon
  match slot with
  | .running session => change (·.killSession session)
  | .stopped | .starting => return

/-- End the session and start another. -/
def reset : Operation Unit := do
  endSession
  clearForBuild
  start

/-- The line that says that the compiler was stopped. -/
def killedLine : String := "[INFO CM Killed]\n"

/-- Stop the compiler, if the slot holds a session. -/
def stop : Operation Unit := do
  if (← look isRunning) then
    clearForBuild
    say killedLine
    endSession

/-- Start the compiler unless a session holds the slot whose process has not exited. -/
def ensureRunning : Operation Unit := do
  change fun relay => if relay.hasExited then { relay with slot := .stopped } else relay
  if !(← look isRunning) then start

/-- Give a statement to the session of the slot. -/
def deliver (text : String) (relay : Relay) : Except Failure Unit × Relay :=
  match relay.slot with
  | .running number =>
      if (relay.session? number).any (·.writer) then
        (.ok (), relay.changeSession number fun session => { session with queue := session.queue ++ [text] })
      else (.error .notRunning, relay)
  | .stopped | .starting => (.error .notRunning, relay)

/-- Send a command to the compiler. -/
def send (command : Command) : Operation Unit :=
  act (deliver command.render)

/-- Send a command whose outcome is watched; the watch is given up if that fails. -/
def sendWatched (command : Command) (watch : PendingWatch) : Operation Unit :=
  tryCatch (send command) fun failure => do
    clearWatch watch.id
    throw failure

/-! ## Cleaning -/

/-- The line that cleaning begins with. -/
def cleanLine : String := "Starting Clean...\n"

/-- The rule around the output of cleaning. -/
def rule : String := "---------------------"

/-- Report what cleaning wrote. -/
def reportClean (header output footer : String) : Operation Unit :=
  change (·.changeOutput fun channel files =>
    let (headed, files) := channel.write files ("[INFO " ++ header ++ ":]\n" ++ rule ++ "\n")
    let (filled, files) := headed.writeBlock files output
    filled.write files (rule ++ "\n[INFO " ++ footer ++ "]\n"))

/-- Run the command that cleans. -/
def runClean (relay : Relay) : Except FileError CommandOutput × Relay :=
  let (result, files) :=
    relay.host.complete relay.files relay.config.cleanProgram relay.config.cleanArguments relay.config.root
  (result, { relay with files })

/-- Run the command that cleans, end the session, and report. -/
def cleanAndReport (header footer : String) : Operation Unit := do
  let result ← ExceptT.lift (Task.act runClean)
  endSession
  let written ← attempt .clean result
  reportClean header written.text footer

/-- Clean what the compiler built. -/
def clean : Operation Unit := do
  change (·.changeOutput fun channel files => channel.clear.write files cleanLine)
  cleanAndReport "make clean-cm" "CM Clean"

/-- Run work on templates. -/
def onTemplates (work : Path → FileTree → Except TemplateFault α × FileTree) : Operation α := do
  let result ← ExceptT.lift (Task.act fun relay =>
    let (result, files) := work relay.config.projectRoot relay.files
    (result, { relay with files }))
  attempt .preprocess result

/-- Remove the generated files and clean what the compiler built. -/
def cleanTemplates : Operation Unit := do
  clearForBuild
  let _ ← onTemplates Template.clean
  onChannel Channel.forgetTemplates
  cleanAndReport "make clean-cmx" "CMX Clean"

/-! ## The output log -/

/-- The line that says where the output will be copied to. -/
def logLine (path : Path) : String :=
  "[Contents of output channel will now be written to: " ++ path.text ++ "]\n"

/-- The line that says that the output is copied no more. -/
def logEndLine : String := "[Stopped writing output to file]\n"

/-- Begin to copy the output, after saying so. -/
def beginLog (relay : Relay) : Except Failure Path × Relay :=
  let path := relay.channel.log.path
  let (channel, files) := relay.channel.write relay.files (logLine path)
  match channel.enableLog (relay.host.stamp relay.clock) files with
  | (.ok (), channel, files) => (.ok path, { relay with channel, files })
  | (.error cause, channel, files) => (.error (.log path cause), { relay with channel, files })

/-- Begin to copy the output; the result is the file. -/
def startLog : Operation Path :=
  act beginLog

/-- Copy the output no more, and say so. -/
def stopLog : Operation Unit :=
  change (·.changeOutput fun channel files => channel.disableLog.write files logEndLine)

end Relay
end CompilerRelay
