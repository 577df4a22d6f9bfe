import CompilerRelay.CommandLine
import CompilerRelay.Rehearsal.Expectation

/-!
# The program

Serves the editor on the standard streams.  The compiler is played by the programs of a small machine, whose only
file from outside is the configuration of the user.

**Form.**  This module reads, calls and writes; what is done is decided by the library.
-/

namespace CompilerRelay
namespace Main

/-- The variables that matter. -/
def readEnvironment : IO Environment := do
  let found ← ["HOME", "TMPDIR", "PATH"].filterMapM fun name => do
    return (← IO.getEnv name).map (name, ·)
  return ⟨found⟩

/-- The files of the small machine. -/
def readFiles (environment : Environment) : IO FileTree := do
  let path := Config.file environment
  let base := Shell.install {}
  let made := (CommandLine.makeAround path base).toOption.getD base
  try
    let content ← IO.FS.readBinFile path.text
    return (made.write path content.toList).toOption.getD made
  catch _ => return made

/-- Write the messages that were not told yet. -/
def tell (output : IO.FS.Stream) (told : Nat) (rehearsal : Rehearsal) : IO Nat := do
  output.write (ByteArray.mk (Message.encodeAll (rehearsal.messagesSince told)).toArray)
  output.flush
  return rehearsal.bridge.sent.length

/-- Serve lines as they come, until the input ends or the task is done. -/
partial def serve
    (input output : IO.FS.Stream) (told last : Nat) (task : Task Bridge (Except Utf8.Fault Unit))
    (rehearsal : Rehearsal) : IO (Except Utf8.Fault Unit) := do
  match task.value? with
  | some result => return result
  | none =>
      let bytes ← input.read 65536
      if bytes.isEmpty then
        let (result, after) := rehearsal.close task
        let _ ← tell output told after
        return result.getD (.ok ())
      else
        let now ← IO.monoMsNow
        let fed := { rehearsal with bridge.input := rehearsal.bridge.input ++ bytes.toList }
        let (_, left, after) := fed.await (fun _ => false) (now - last + 1) task
        serve input output (← tell output told after) now left after

end Main
end CompilerRelay

open CompilerRelay in
/-- Serve the editor. -/
def main : IO UInt32 := do
  let environment ← Main.readEnvironment
  let (config, files) := CommandLine.start environment (← Main.readFiles environment)
  let rehearsal := Rehearsal.new config environment toString files
  let result ← Main.serve (← IO.getStdin) (← IO.getStdout) 0 (← IO.monoMsNow)
    (Bridge.serve Rehearsal.stepLimit) rehearsal
  (← IO.getStderr).putStr (CommandLine.lastWords result)
  return (CommandLine.status result).toUInt32
