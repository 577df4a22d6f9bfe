import CompilerRelay.Shell.Builtin
import CompilerRelay.Shell.Reader

/-!
# Steps of the shell

**Algorithm.**  A step takes the top of the stack of what is left to do.  A command of several commands is put back
as its parts.  The streams of a command are led elsewhere before it, and back after it.

**Place.**  A part of the stage on which the relay is rehearsed.
-/

namespace CompilerRelay
namespace Shell

/-- Go on without a word. -/
def quietly (machine : Machine) (files : FileTree) : Outcome :=
  .went machine files []

/-- What is told of a file that cannot be read. -/
def openFault (path : List Char) : List Char :=
  "sh: 1: cannot open ".toList ++ path ++ ": No such file\n".toList

/-- What is told of a file that cannot be written. -/
def createFault (path : List Char) (cause : FileError) : List Char :=
  let reason :=
    match cause with
    | .notFound => "Directory nonexistent"
    | .isDirectory => "Is a directory"
    | _ => "Permission denied"
  "sh: 1: cannot create ".toList ++ path ++ ": ".toList ++ reason.toList ++ ['\n']

/-- Open a file to write there. -/
def openFile (files : FileTree) (appending : Bool) (path : List Char) : Except (List Char) (Handle × FileTree) :=
  let emptied := if appending then .ok files else files.write (pathOf path) []
  (emptied.bind fun files => files.openAppending (pathOf path)).mapError (createFault path)

/-- Lead a stream elsewhere. -/
def redirect
    (scope : Scope) (streams : Streams) (files : FileTree) : Redirect → Except (List Char) (Streams × FileTree)
  | .readFrom file =>
      let path := expandText scope file
      match files.read (pathOf path) with
      | .ok bytes => .ok ({ streams with input := .file (ofBytes bytes) }, files)
      | .error _ => .error (openFault path)
  | .writeTo errors appending file => do
      let (handle, files) ← openFile files appending (expandText scope file)
      if errors then return ({ streams with errors := .file handle }, files)
      else return ({ streams with output := .file handle }, files)
  | .outputToErrors => .ok ({ streams with output := streams.errors }, files)
  | .errorsToOutput => .ok ({ streams with errors := streams.output }, files)
  | .closeInput => .ok ({ streams with input := .file [] }, files)
  | .close errors =>
      .ok (if errors then { streams with errors := .nowhere } else { streams with output := .nowhere }, files)

/-- Lead streams elsewhere, one after the other. -/
def redirectAll (scope : Scope) : List Redirect → Streams → FileTree → Except (List Char) (Streams × FileTree)
  | [], streams, files => .ok (streams, files)
  | first :: rest, streams, files => do
      let (streams, files) ← redirect scope streams files first
      redirectAll scope rest streams files

/-- Whether a redirection is one of the input. -/
def Redirect.isInput : Redirect → Bool
  | .readFrom _ | .closeInput => true
  | .writeTo _ _ _ | .outputToErrors | .errorsToOutput | .close _ => false

/-- How things are before a command with redirections and assignments. -/
def beforeOf (machine : Machine) (redirects : List Redirect) (assigned : List (List Char)) : Before :=
  { input := if redirects.any Redirect.isInput then some machine.streams.input else none
    output := machine.streams.output
    errors := machine.streams.errors
    bindings := assigned.map fun name => (name, machine.scope.lookup? name) }

/-- Set variables to what words stand for. -/
def assign (scope : Scope) (assignments : List (List Char × Word)) : Scope :=
  assignments.foldl (fun scope (name, word) => scope.set name (expandText scope word)) scope

/-- Carry out a simple command. -/
def runSimple
    (machine : Machine) (files : FileTree) (assignments : List (List Char × Word)) (words : List Word)
    (redirects : List Redirect) : Outcome :=
  match redirectAll machine.scope redirects machine.streams files with
  | .error fault => apply machine files { status := 2, errors := fault }
  | .ok (streams, files) =>
      match words.flatMap (expandWord machine.scope) with
      | [] => quietly ({ machine with scope := assign machine.scope assignments }.setStatus 0) files
      | name :: arguments =>
          let inside := { machine with streams, scope := assign machine.scope assignments }
          let before := beforeOf machine redirects (assignments.map Prod.fst)
          let changes := !redirects.isEmpty || !assignments.isEmpty
          if name = "exec".toList then
            match arguments with
            | [] => quietly (inside.setStatus 0) files
            | program :: arguments => runWords { inside with frames := [] } files program arguments
          else runWords (if changes then inside.push (.restore before) else inside) files name arguments

/-- The command of the first arm with a pattern that matches. -/
def armOf (scope : Scope) (value : List Char) : List (List Word × Command) → Command
  | [] => .nothing
  | (patterns, body) :: rest =>
      if patterns.any fun pattern => glob (expandPattern scope pattern) value then body else armOf scope value rest

/-- Carry out a command. -/
def runCommand (machine : Machine) (files : FileTree) : Command → Outcome
  | .nothing => quietly machine files
  | .simple assignments words redirects => runSimple machine files assignments words redirects
  | .sequence first second => quietly ((machine.push (.run second)).push (.run first)) files
  | .both first second => quietly ((machine.push (.both second)).push (.run first)) files
  | .either first second => quietly ((machine.push (.either second)).push (.run first)) files
  | .negate command => quietly ((machine.push .negate).push (.run command)) files
  | .loop isUntil condition body =>
      quietly ((machine.push (.check isUntil condition body)).push (.run condition)) files
  | .branch condition yes no => quietly ((machine.push (.decide yes no)).push (.run condition)) files
  | .each name words body =>
      quietly ((machine.setStatus 0).push (.each name (words.flatMap (expandWord machine.scope)) body)) files
  | .choice word arms =>
      quietly ((machine.setStatus 0).push (.run (armOf machine.scope (expandText machine.scope word) arms))) files
  | .redirected command redirects =>
      match redirectAll machine.scope redirects machine.streams files with
      | .error fault => apply machine files { status := 2, errors := fault }
      | .ok (streams, files) =>
          let before := beforeOf machine redirects []
          quietly (({ machine with streams }.push (.restore before)).push (.run command)) files
  | .background command => .forked (machine.child command) (machine.setStatus 0)

/-- Do what is on top of the stack, with the rest of it. -/
def runFrame (machine : Machine) (files : FileTree) : Frame → Outcome
  | .run command => runCommand machine files command
  | .check isUntil condition body =>
      if (machine.scope.status = 0) != isUntil then
        quietly ((machine.push (.again isUntil condition body)).push (.run body)) files
      else quietly (machine.setStatus 0) files
  | .again isUntil condition body =>
      quietly ((machine.push (.check isUntil condition body)).push (.run condition)) files
  | .decide yes no =>
      quietly (if machine.scope.status = 0 then machine.push (.run yes) else (machine.setStatus 0).push (.run no)) files
  | .both second => quietly (if machine.scope.status = 0 then machine.push (.run second) else machine) files
  | .either second => quietly (if machine.scope.status = 0 then machine else machine.push (.run second)) files
  | .negate => quietly (machine.setStatus (if machine.scope.status = 0 then 1 else 0)) files
  | .each _ [] _ => quietly machine files
  | .each name (value :: values) body =>
      let turn := { machine with scope := machine.scope.set name value }
      quietly ((turn.push (.each name values body)).push (.run body)) files
  | .restore before => quietly (machine.restore before) files
  | .copy => copyInput machine files

/-- The tree as it was found, but for its current directory. -/
def Outcome.backTo (place : Place) : Outcome → Outcome
  | .went machine files written => .went machine { files with current := place } written
  | other => other

/-- Take a step. -/
def step (machine : Machine) (files : FileTree) : Outcome :=
  match machine.frames with
  | [] => .ended machine.scope.status
  | frame :: frames =>
      (runFrame { machine with frames } { files with current := machine.directory } frame).backTo files.current

end Shell
end CompilerRelay
