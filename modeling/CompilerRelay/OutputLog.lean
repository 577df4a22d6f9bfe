import CompilerRelay.FileTree.Access
import CompilerRelay.LineBuffer

/-!
# The output log

A copy of the output in a file, made while it is wanted.

**Algorithm.**  Enabling makes the directory of the file, opens the file to write at its end, and writes a line
with the time.  Lines are added while the file is open.  A line that cannot be added closes the file.

**Results.**  `append_of_disabled`: nothing is written while the log is not enabled.
-/

namespace CompilerRelay

/-- The file for a copy of the output. -/
structure OutputLog where
  path : Path
  /-- The open file, while the log is enabled. -/
  handle : Option Handle := none
  deriving DecidableEq, Repr

namespace OutputLog

/-- Whether output is copied. -/
def isEnabled (log : OutputLog) : Bool :=
  log.handle.isSome

/-- The line that begins the copy, with the time at which it begins. -/
def header (stamp : String) : String :=
  "--- cm output " ++ stamp ++ " ---"

/-- The bytes of a line in the file. -/
def lineBytes (line : String) : Bytes :=
  Utf8.encode line ++ [LineBuffer.newline]

/-- Make the directory of the file. -/
def prepare (log : OutputLog) (tree : FileTree) : Except FileError FileTree :=
  match log.path.parent? with
  | none => .ok tree
  | some parent => if parent.text.isEmpty then .ok tree else tree.makeDirectories parent

/-- Begin to copy the output, at a time. -/
def enable (log : OutputLog) (stamp : String) (tree : FileTree) : Except FileError OutputLog × FileTree :=
  if log.isEnabled then (.ok log, tree)
  else
    match log.prepare tree with
    | .error cause => (.error cause, tree)
    | .ok ready =>
        match ready.openAppending log.path with
        | .error cause => (.error cause, ready)
        | .ok (handle, opened) =>
            match opened.append handle (lineBytes (header stamp)) with
            | .error cause => (.error cause, opened)
            | .ok after => (.ok { log with handle := some handle }, after)

/-- Copy no more. -/
def disable (log : OutputLog) : OutputLog :=
  { log with handle := none }

/-- Copy a line, if the log is enabled. -/
def append (log : OutputLog) (line : String) (tree : FileTree) : OutputLog × FileTree :=
  match log.handle with
  | none => (log, tree)
  | some handle =>
      match tree.append handle (lineBytes line) with
      | .error _ => (log.disable, tree)
      | .ok after => (log, after)

theorem append_of_disabled
    {log : OutputLog} (line : String) (tree : FileTree)
    (disabled : log.isEnabled = false) :
    log.append line tree = (log, tree) := by
  have closed : log.handle = none := by
    simpa [isEnabled] using disabled
  simp [append, closed]

end OutputLog
end CompilerRelay
