import CompilerRelay.Environment
import CompilerRelay.Host
import CompilerRelay.Shell.Step
import CompilerRelay.Text.Blank

/-!
# Programs

What the files of a small machine run.

**Input.**  A file that is executable.  A program of the machine itself begins with a mark and has its name after
it; a script begins with the line that names the program that runs it.

**Algorithm.**  Programs are looked for in the directories of the search path, one after the other.

**Place.**  A part of the stage on which the relay is rehearsed.
-/

namespace CompilerRelay
namespace Shell

/-- What the file of a program of the machine begins with. -/
def mark : Bytes := [0x7f, 0x45, 0x4c, 0x46]

/-- The file of a program of the machine. -/
def image (name : List Char) : Bytes :=
  mark ++ toBytes name

/-- The names of the programs of the machine. -/
def programNames : List String :=
  ["sh", "dash", "true", "false", "echo", "printf", "cat", "pwd", "sleep", "test", "[", "ls", "rm", "mkdir",
    "touch"]

/-- The place of the programs of the machine. -/
def programPlace : Place := ["usr".toList, "bin".toList]

/-- A tree with the programs of the machine. -/
def install (tree : FileTree) : FileTree :=
  let base := (tree.insert ["usr".toList] .directory).insert programPlace .directory
  let filled := programNames.foldl (fun tree name =>
    tree.putFile (programPlace ++ [name.toList]) (image (ofString name)) true) base
  filled.insert ["bin".toList] (.link ⟨"usr/bin"⟩)

/-- What a file runs. -/
inductive Program where
  /-- A program of the machine. -/
  | command (name : List Char)
  /-- A script, by the program that runs it and perhaps an argument. -/
  | script (interpreter : Path) (argument : Option (List Char))
  deriving DecidableEq, Repr

namespace Program

/-- What the bytes of a file run. -/
def ofBytes? (bytes : Bytes) : Option Program :=
  if mark.isPrefixOf bytes then some (.command (ofBytes (bytes.drop mark.length)))
  else
    match ofBytes bytes with
    | '#' :: '!' :: rest =>
        let line := (rest.takeWhile (· ≠ '\n')).dropWhile isSplitter
        let name := line.takeWhile (!isSplitter ·)
        let argument := ((trimmedEnd (String.ofList (line.drop name.length))).toList).dropWhile isSplitter
        if name.isEmpty then none
        else some (.script (pathOf name) (if argument.isEmpty then none else some argument))
    | _ => none

/-- What the file at a path runs. -/
def find (tree : FileTree) (path : Path) : Except FileError Program := do
  match ← tree.status path with
  | .file _ content true =>
      match ofBytes? content with
      | some program => return program
      | none => .error .noProgram
  | _ => .error .denied

end Program

/-! ## Finding programs -/

/-- The search path where none is set. -/
def defaultSearch : List Char :=
  "/usr/local/sbin:/usr/local/bin:/usr/sbin:/usr/bin:/sbin:/bin".toList

/-- The directories of the search path. -/
def searchPath (environment : Environment) : List Path :=
  (Text.splitOn ':' ((environment.find? "PATH".toList).getD defaultSearch)).map fun part => ⟨String.ofList part⟩

/-- Whether a path leads to an executable file. -/
def isExecutable (tree : FileTree) (path : Path) : Bool :=
  match tree.status path with
  | .ok (.file _ _ executable) => executable
  | _ => false

/-- A path from the root. -/
def absolute (tree : FileTree) (path : Path) : Path :=
  if path.isAbsolute then path
  else
    (path.components.dropWhile (· == .current)).foldl (fun base part => base.join ⟨String.ofList part.text⟩)
      (pathOf (placeText tree.current))

/-- The file of a program that is named by a name or a path. -/
def resolve (environment : Environment) (tree : FileTree) (program : String) : Option Path :=
  if 1 < (Path.mk program).components.length then
    let path := absolute tree ⟨program⟩
    if isExecutable tree path then some path else none
  else ((searchPath environment).map (·.join ⟨program⟩)).find? (isExecutable tree)

/-- Why a file does not run in a directory, if that is so. -/
def refuses (tree : FileTree) (program directory : Path) : Option FileError :=
  match tree.within directory with
  | .error cause => some cause
  | .ok inside =>
      match Program.find inside program with
      | .error cause => some cause
      | .ok (.command _) => none
      | .ok (.script interpreter _) =>
          match Program.find inside interpreter with
          | .error cause => some cause
          | .ok _ => none

/-- The first file in the search path with a name, or why none of those runs. -/
def searchFor (environment : Environment) (tree : FileTree) (program : String) : Except FileError Path :=
  if program.isEmpty then .error .notFound
  else if program.toList.contains '/' then .ok ⟨program⟩
  else
    let candidates := (searchPath environment).map (·.join ⟨program⟩)
    match candidates.find? (isExecutable tree) with
    | some path => .ok path
    | none => .error (if candidates.any tree.exists? then .denied else .notFound)

/-! ## Running programs -/

/-- The arguments of the shell: a script after an option, or a file with one. -/
def scriptOf (tree : FileTree) (name : List Char) : List (List Char) → Option (Command × List (List Char))
  | ['-', 'c'] :: script :: arguments =>
      (readScript script).map fun command => (command, if arguments.isEmpty then [name] else arguments)
  | file :: arguments =>
      match tree.read (pathOf file) with
      | .ok bytes => (readScript (ofBytes bytes)).map fun command => (command, file :: arguments)
      | .error _ => none
  | [] => none

/-- What a program of the machine has to do. -/
def framesOf
    (tree : FileTree) (name : List Char) (arguments : List (List Char)) : Option (Command × List (List Char)) :=
  if name = "sh".toList || name = "dash".toList then scriptOf tree name arguments
  else
    let words := (name :: arguments).map fun text => [Part.text text true]
    some (.simple [] words [], [name])

/-- The state of a program at its start, with its variables; nothing if its script cannot be read. -/
def startCommand
    (tree : FileTree) (bindings : List (List Char × List Char)) (name : List Char) (arguments : List (List Char)) :
    Option Machine :=
  (framesOf tree name arguments).map fun (command, arguments) =>
    { frames := [.run command], scope := { bindings, arguments }, directory := tree.current }

/-- The variables of a program, as texts of the shell. -/
def variablesOf (environment : Environment) : List (List Char × List Char) :=
  environment.bindings.map fun (name, value) => (ofString name, ofString value)

/-- The state of a program at its start. -/
def launch
    (environment : Environment) (tree : FileTree) (program : Path) (arguments : List String) (directory : Path) :
    Machine :=
  let started := do
    let inside ← (tree.within directory).toOption
    let words := arguments.map ofString
    let bindings := variablesOf environment
    match ← (Program.find inside program).toOption with
    | .command name => startCommand inside bindings name words
    | .script interpreter argument =>
        match ← (Program.find inside interpreter).toOption with
        | .command name => startCommand inside bindings name (argument.toList ++ ofString program.text :: words)
        | .script _ _ => none
  started.getD { frames := [], scope.status := 2 }

/-- How many steps a command may take. -/
def commandLimit : Nat := 1000000

/-- Run a machine to its end without input; what it writes is put after what it wrote. -/
def runToEnd : Nat → Machine → FileTree → CommandOutput → CommandOutput × FileTree
  | 0, _, files, written => (written, files)
  | fuel + 1, machine, files, written =>
      match step machine files with
      | .went machine files chunks =>
          let output := written.output ++ (chunks.filter (·.1 = .output)).flatMap Prod.snd
          let errors := written.errors ++ (chunks.filter (·.1 = .errors)).flatMap Prod.snd
          runToEnd fuel machine files ⟨output, errors⟩
      | .asleep _ machine => runToEnd fuel machine files written
      | .forked child machine =>
          let (written, files) := runToEnd fuel machine files written
          runToEnd fuel child files written
      | .blocked | .ended _ => (written, files)

/-- Run a command to its end. -/
def complete
    (environment : Environment) (tree : FileTree) (program : String) (arguments : List String) (directory : Path) :
    Except FileError CommandOutput × FileTree :=
  let found := do
    let inside ← tree.within directory
    let path ← searchFor environment inside program
    match refuses tree path directory with
    | some cause => .error cause
    | none => return path
  match found with
  | .error cause => (.error cause, tree)
  | .ok path =>
      let machine := { launch environment tree path arguments directory with inputClosed := true }
      let (written, files) := runToEnd commandLimit machine tree ⟨[], []⟩
      (.ok written, files)

/-- A machine with a shell; `stamp` tells the time. -/
def host (environment : Environment) (stamp : Nat → String) : Host where
  resolve := resolve environment
  refuses := refuses
  complete := complete environment
  stamp := stamp

end Shell
end CompilerRelay
