import CompilerRelay.Shell.Program

/-!
# Processes

The processes of a rehearsal: a machine that plays the compiler, what it began beside itself, and the pipes to it
and from it.

**Place.**  A part of the stage on which the relay is rehearsed.

**Results.**  `chunks_flatten`: nothing that was written is lost on the way into the pipe.
-/

namespace CompilerRelay

/-- A machine at work. -/
structure Worker where
  machine : Shell.Machine
  /-- When it goes on. -/
  wakes : Nat := 0
  hasEnded : Bool := false

/-- A process that plays the compiler. -/
structure Process where
  main : Worker
  /-- What it began and does not wait for. -/
  helpers : List Worker := []
  /-- What was written and nobody read, oldest first. -/
  pipe : List (Shell.Stream × Bytes) := []
  /-- How many statements reached it. -/
  given : Nat := 0

/-- The most bytes that are read from a pipe at once. -/
def chunkLimit : Nat := 8192

/-- Bytes in pieces that can be read at once, so many at most. -/
def chunks (stream : Shell.Stream) : Nat → Bytes → List (Shell.Stream × Bytes)
  | 0, _ => []
  | fuel + 1, bytes =>
      if bytes.isEmpty then [] else (stream, bytes.take chunkLimit) :: chunks stream fuel (bytes.drop chunkLimit)

/-- What a process wrote, in pieces that can be read at once. -/
def chunksOf (written : List (Shell.Stream × Bytes)) : List (Shell.Stream × Bytes) :=
  written.flatMap fun (stream, bytes) => chunks stream (bytes.length + 1) bytes

theorem chunks_flatten (stream : Shell.Stream) (fuel : Nat) (bytes : Bytes) (enough : bytes.length ≤ fuel) :
    (chunks stream fuel bytes).flatMap Prod.snd = bytes := by
  induction fuel generalizing bytes with
  | zero =>
      have nothing : bytes = [] := List.length_eq_zero_iff.mp (Nat.le_zero.mp enough)
      simp [chunks, nothing]
  | succ fuel ih =>
      unfold chunks
      split
      · next empty => simpa using empty.symm
      · next more =>
          have shorter : (bytes.drop chunkLimit).length ≤ fuel := by
            have := List.length_drop (i := chunkLimit) (l := bytes)
            have : 0 < bytes.length := by
              cases bytes with
              | nil => simp at more
              | cons => simp
            simp only [chunkLimit] at *
            omega
          simp [ih _ shorter]

/-- Whether a machine may still write to a stream of its process. -/
def Worker.mayWrite (sink : Shell.Sink) (worker : Worker) : Bool :=
  !worker.hasEnded && worker.machine.mayWrite sink

/-- What comes of the step of a worker. -/
structure Advance where
  worker : Worker
  files : FileTree
  written : List (Shell.Stream × Bytes) := []
  /-- What it began and does not wait for. -/
  helpers : List Worker := []

/-- Let a worker take a step at a time. -/
def Worker.advance? (worker : Worker) (clock : Nat) (files : FileTree) : Option Advance :=
  if worker.hasEnded || clock < worker.wakes then none
  else
    match Shell.step worker.machine files with
    | .went machine files written => some { worker := { worker with machine }, files, written := chunksOf written }
    | .forked child machine => some { worker := { worker with machine }, files, helpers := [{ machine := child }] }
    | .blocked => none
    | .asleep milliseconds machine => some { worker := { worker with machine, wakes := clock + milliseconds }, files }
    | .ended _ => some { worker := { worker with hasEnded := true }, files }

namespace Process

/-- A process after a step of one of its workers, which is put back. -/
def after (process : Process) (advance : Advance) (put : Worker → Process → Process) : Process :=
  let stepped := put advance.worker process
  { stepped with helpers := stepped.helpers ++ advance.helpers, pipe := stepped.pipe ++ advance.written }

/-- Let the worker with a place among the helpers of a process take a step. -/
def helperAdvance? (process : Process) (clock : Nat) (files : FileTree) (place : Nat) :
    Option (Process × FileTree) := do
  let advance ← (← process.helpers[place]?).advance? clock files
  return (process.after advance fun worker process => { process with helpers := process.helpers.set place worker },
    advance.files)

/-- Let the main worker of a process take a step. -/
def mainAdvance? (process : Process) (clock : Nat) (files : FileTree) : Option (Process × FileTree) :=
  (process.main.advance? clock files).map fun advance =>
    (process.after advance fun main process => { process with main }, advance.files)

/-- Whether a stream of a process is still open; its main worker counts only while it lives. -/
def isOpen (process : Process) (lives : Bool) (sink : Shell.Sink) : Bool :=
  (lives && process.main.mayWrite sink) || process.helpers.any (·.mayWrite sink)

/-- A statement as a process reads it. -/
def statementInput (text : String) : List Char :=
  Shell.ofString (if text.toList.getLast? = some '\n' then text else text ++ "\n")

/-- A process that a statement has reached. -/
def give (process : Process) (statement : String) : Process :=
  { process with
    given := process.given + 1
    main.machine.input := process.main.machine.input ++ statementInput statement }

end Process
end CompilerRelay
