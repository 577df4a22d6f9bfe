import CompilerRelay.FileTree.Access
import CompilerRelay.Shell.Format
import CompilerRelay.Text.Search

/-!
# The state of the shell

**State.**  What is left to do is a stack of frames.  Each stream of a command is led somewhere: to the pipes of
the process, or to files.

**Place.**  A part of the stage on which the relay is rehearsed.
-/

namespace CompilerRelay
namespace Shell

/-- Bytes as a text of the shell. -/
def ofBytes (bytes : Bytes) : List Char :=
  bytes.map fun byte => Char.ofNat byte.toNat

/-- A text of the shell as bytes. -/
def toBytes (text : List Char) : Bytes :=
  text.map fun char => UInt8.ofNat char.toNat

/-- A string as a text of the shell. -/
def ofString (text : String) : List Char :=
  ofBytes (Utf8.encode text)

/-- Where input comes from. -/
inductive Source where
  /-- From the pipe of the process. -/
  | pipe
  /-- From a file, of which this much is left. -/
  | file (left : List Char)
  deriving DecidableEq, Repr

/-- Where output goes. -/
inductive Sink where
  | output
  | errors
  | file (handle : Handle)
  | nowhere
  deriving DecidableEq, Repr

/-- Where the streams of a command are led. -/
structure Streams where
  input : Source := .pipe
  output : Sink := .output
  errors : Sink := .errors
  deriving DecidableEq, Repr

/-- What a command changed for itself alone, as it was before. -/
structure Before where
  /-- Where input came from, if that was changed. -/
  input : Option Source
  output : Sink
  errors : Sink
  bindings : List (List Char × Option (List Char)) := []
  deriving DecidableEq, Repr

/-- Something that is left to do. -/
inductive Frame where
  | run (command : Command)
  /-- After the condition of a loop. -/
  | check (isUntil : Bool) (condition body : Command)
  /-- After the body of a loop. -/
  | again (isUntil : Bool) (condition body : Command)
  /-- After the condition of a branch. -/
  | decide (yes no : Command)
  /-- Only after success. -/
  | both (second : Command)
  /-- Only after a failure. -/
  | either (second : Command)
  | negate
  /-- For the values that are left. -/
  | each (name : List Char) (values : List (List Char)) (body : Command)
  /-- Undo what a command changed for itself alone. -/
  | restore (before : Before)
  /-- Copy the input to the output up to its end. -/
  | copy

/-- A shell that runs a script. -/
structure Machine where
  frames : List Frame
  scope : Scope := {}
  /-- The directory that it works in. -/
  directory : Place := []
  streams : Streams := {}
  /-- What came through the pipe and was not read. -/
  input : List Char := []
  /-- Whether nothing more comes through the pipe. -/
  inputClosed : Bool := false

namespace Machine

/-- Give the status of the command before. -/
def setStatus (machine : Machine) (status : Nat) : Machine :=
  { machine with scope := { machine.scope with status } }

/-- Do something before what is left. -/
def push (machine : Machine) (frame : Frame) : Machine :=
  { machine with frames := frame :: machine.frames }

/-- Undo what a command changed for itself alone. -/
def restore (machine : Machine) (before : Before) : Machine :=
  { machine with
    streams := ⟨before.input.getD machine.streams.input, before.output, before.errors⟩
    scope := before.bindings.foldl (fun scope (name, value) => scope.put name value) machine.scope }

/-- A machine that does a command beside another. -/
def child (machine : Machine) (command : Command) : Machine :=
  { machine with frames := [.run command], streams.input := .file [], input := [] }

/-- Whether what is written may still go to a sink. -/
def mayWrite (machine : Machine) (sink : Sink) : Bool :=
  machine.streams.output = sink || machine.streams.errors = sink || machine.frames.any fun
    | .restore before => before.output = sink || before.errors = sink
    | _ => false

/-- Leave the innermost loop, or go on with its next turn. -/
def leave (again : Bool) : List Frame → Machine → Machine
  | [], machine => { machine with frames := [] }
  | .restore before :: rest, machine => leave again rest (machine.restore before)
  | .check _ _ _ :: rest, machine => { machine with frames := rest }
  | .again isUntil condition body :: rest, machine =>
      { machine with frames := if again then .again isUntil condition body :: rest else rest }
  | .each name values body :: rest, machine =>
      { machine with frames := if again then .each name values body :: rest else rest }
  | _ :: rest, machine => leave again rest machine

end Machine

/-- Whether what is written goes to the errors of the process. -/
inductive Stream where
  | output
  | errors
  deriving DecidableEq, Repr

/-- What a step of a machine comes to. -/
inductive Outcome where
  /-- It went on, and wrote this to the pipes of the process. -/
  | went (machine : Machine) (files : FileTree) (written : List (Stream × Bytes))
  /-- It waits for input. -/
  | blocked
  /-- It began a machine that works beside it. -/
  | forked (child machine : Machine)
  /-- It waits for so many milliseconds. -/
  | asleep (milliseconds : Nat) (machine : Machine)
  | ended (status : Nat)

/-- Write a text to a sink. -/
def writeTo (sink : Sink) (text : List Char) (files : FileTree) : FileTree × List (Stream × Bytes) :=
  if text.isEmpty then (files, [])
  else
    match sink with
    | .output => (files, [(.output, toBytes text)])
    | .errors => (files, [(.errors, toBytes text)])
    | .nowhere => (files, [])
    | .file handle => ((files.append handle (toBytes text)).toOption.getD files, [])

end Shell
end CompilerRelay
