import CompilerRelay.FileTree.Walk
import CompilerRelay.Shell.Machine

/-!
# Commands of the shell

The commands that the shell carries out by itself.

**Input.**  The words of a command; the first is its name.

**Algorithm.**  A command either does no more than write texts and give a status, or it changes the state of the
shell.  Reading takes a line; a line that is not complete yet blocks, unless the input has ended.

**Place.**  A part of the stage on which the relay is rehearsed.
-/

namespace CompilerRelay
namespace Shell

/-- What a command gives at once. -/
structure Effect where
  status : Nat := 0
  output : List Char := []
  errors : List Char := []
  deriving DecidableEq, Repr

/-! ## Tests -/

/-- The place of a directory as a text. -/
def placeText (place : Place) : List Char :=
  if place.isEmpty then ['/'] else place.flatMap fun name => '/' :: ofString (String.ofList name)

/-- The path that a text of the shell is. -/
def pathOf (text : List Char) : Path :=
  ⟨Utf8.decodeLossy (toBytes text)⟩

/-- Whether a test of one operand holds. -/
def holdsOne (files : FileTree) (operator operand : List Char) : Bool :=
  if operator = "-n".toList then !operand.isEmpty
  else if operator = "-z".toList then operand.isEmpty
  else if operator = "-e".toList || operator = "-r".toList || operator = "-w".toList then files.exists? (pathOf operand)
  else if operator = "-f".toList then files.isFile (pathOf operand)
  else if operator = "-d".toList then files.isDirectory (pathOf operand)
  else if operator = "-s".toList then !((files.read (pathOf operand)).toOption.getD []).isEmpty
  else false

/-- Whether a test of two operands holds. -/
def holdsTwo (left operator right : List Char) : Bool :=
  let first := integerOf left
  let second := integerOf right
  if operator = "=".toList || operator = "==".toList then left == right
  else if operator = "!=".toList then left != right
  else if operator = "-eq".toList then first == second
  else if operator = "-ne".toList then first != second
  else if operator = "-lt".toList then first < second
  else if operator = "-le".toList then first ≤ second
  else if operator = "-gt".toList then second < first
  else if operator = "-ge".toList then second ≤ first
  else false

/-- Whether a test holds. -/
def holds (files : FileTree) : List (List Char) → Bool
  | [] => false
  | [text] => !text.isEmpty
  | [operator, operand] => if operator = ['!'] then operand.isEmpty else holdsOne files operator operand
  | [left, operator, right] =>
      if left = ['!'] then !holdsOne files operator right else holdsTwo left operator right
  | ['!'] :: left :: operator :: right :: _ => !holdsTwo left operator right
  | _ => false

/-- The effect of a test. -/
def Effect.ofTest (holds : Bool) : Effect :=
  { status := if holds then 0 else 1 }

/-! ## Files -/

/-- Change files by operations on paths; the status tells whether all worked. -/
def changeFiles
    (change : FileTree → Path → Except FileError FileTree) (paths : List (List Char)) (files : FileTree) :
    Nat × FileTree :=
  paths.foldl (fun (status, files) path =>
    match change files (pathOf path) with
    | .ok after => (status, after)
    | .error _ => (1, files)) (0, files)

/-- The names in directories, one in a line. -/
def listNames (files : FileTree) (paths : List (List Char)) : List Char :=
  let places := (if paths.isEmpty then [['.']] else paths).filterMap fun path => (files.within (pathOf path)).toOption
  let names := places.flatMap fun inside =>
    (inside.sortedChildren inside.current).map fun name => ofString (String.ofList name)
  (names.filter (·.head? ≠ some '.')).flatMap (· ++ ['\n'])

/-- The files after a command that changes files, and its status, if it is one. -/
def changeOf? (files : FileTree) (name : List Char) (arguments : List (List Char)) : Option (Nat × FileTree) :=
  let paths := arguments.filter (·.head? ≠ some '-')
  match String.ofList name with
  | "rm" => some (changeFiles (fun files path => .ok (files.removeTree path)) paths files)
  | "mkdir" => some (changeFiles FileTree.makeDirectories paths files)
  | "touch" => some (changeFiles (fun files path => (files.openAppending path).map Prod.snd) paths files)
  | _ => none

/-! ## Output -/

/-- What is written for a list of words. -/
def echoOf (arguments : List (List Char)) : List Char :=
  let silent := arguments.head? = some "-n".toList
  let joined := ((arguments.drop (if silent then 1 else 0)).intersperse [' ']).flatten
  let (text, ends) := unescape (joined.length + 1) joined
  if ends || silent then text else text ++ ['\n']

/-- The bytes of files one after the other. -/
def concatenate (files : FileTree) (paths : List (List Char)) : Effect :=
  paths.foldl (fun effect path =>
    match files.read (pathOf path) with
    | .ok bytes => { effect with output := effect.output ++ ofBytes bytes }
    | .error _ =>
        let told := "cat: ".toList ++ path ++ ": No such file or directory\n".toList
        { effect with status := 1, errors := effect.errors ++ told })
    {}

/-- What is told of a command that is not there. -/
def notFoundText (name : List Char) : List Char :=
  "sh: 1: ".toList ++ name ++ ": not found\n".toList

/-- The effect of a command that changes nothing, if it is one. -/
def effectOf?
    (directory : Place) (files : FileTree) (name : List Char) (arguments : List (List Char)) : Option Effect :=
  match String.ofList name with
  | ":" | "true" => some {}
  | "false" => some { status := 1 }
  | "echo" => some { output := echoOf arguments }
  | "printf" =>
      match arguments with
      | [] => some { status := 2, errors := "sh: 1: printf: usage: printf format [arg ...]\n".toList }
      | format :: values => some { output := formatAll (values.length + 1) format values }
  | "pwd" => some { output := placeText directory ++ ['\n'] }
  | "ls" => some { output := listNames files arguments }
  | "test" => some (.ofTest (holds files arguments))
  | "[" => some (.ofTest (holds files (arguments.take (arguments.length - 1))))
  | _ => none

/-! ## Reading -/

/-- The characters up to a newline, with a mark on those that come after a backslash, and what follows the newline;
`escaped` says whether a backslash came before. -/
def cutLine (raw : Bool) : Bool → List Char → List (Char × Bool) × Option (List Char)
  | _, [] => ([], none)
  | escaped, char :: rest =>
      if char = '\x00' then cutLine raw escaped rest
      else if escaped then
        if char = '\n' then cutLine raw false rest
        else Prod.map ((char, true) :: ·) id (cutLine raw false rest)
      else if char = '\n' then ([], some rest)
      else if char = '\\' && !raw then cutLine raw true rest
      else Prod.map ((char, false) :: ·) id (cutLine raw false rest)

/-- Whether words are split at a character of a line that was read. -/
def splitsAt (splitters : List Char) (char : Char × Bool) : Bool :=
  !char.2 && splitters.contains char.1

/-- Whether a character of a line is a blank at which words are split. -/
def isGap (splitters : List Char) (char : Char × Bool) : Bool :=
  splitsAt splitters char && isSplitter char.1

/-- A line without the blanks at its end at which words are split. -/
def trimGaps (splitters : List Char) (line : List (Char × Bool)) : List (Char × Bool) :=
  (line.reverse.dropWhile (isGap splitters)).reverse

/-- Set variables to the words of a line; the last takes what is left. -/
def assignWords (splitters : List Char) : List (List Char) → List (Char × Bool) → Scope → Scope
  | [], _, scope => scope
  | [name], line, scope => scope.set name ((trimGaps splitters (line.dropWhile (isGap splitters))).map Prod.fst)
  | name :: names, line, scope =>
      let start := line.dropWhile (isGap splitters)
      let word := start.takeWhile (!splitsAt splitters ·)
      let rest := (start.drop word.length).dropWhile (isGap splitters)
      let after :=
        match rest with
        | char :: more => if splitsAt splitters char then more else rest
        | [] => []
      assignWords splitters names after (scope.set name (word.map Prod.fst))

/-- The characters at which words of a line are split. -/
def splittersOf (scope : Scope) : List Char :=
  (scope.lookup? "IFS".toList).getD [' ', '\t', '\n']

/-- Read a line into variables. -/
def readInto (machine : Machine) (files : FileTree) (arguments : List (List Char)) : Outcome :=
  let options := arguments.takeWhile (·.head? = some '-')
  let raw := options.contains "-r".toList
  let names := arguments.drop options.length
  let (available, mayGrow) :=
    match machine.streams.input with
    | .pipe => (machine.input, !machine.inputClosed)
    | .file left => (left, false)
  let (line, after) := cutLine raw false available
  if after.isNone && mayGrow then .blocked
  else
    let left := after.getD []
    let scope := assignWords (splittersOf machine.scope) names line machine.scope
    let taken :=
      match machine.streams.input with
      | .pipe => { machine with input := left }
      | .file _ => { machine with streams.input := .file left }
    .went ({ taken with scope }.setStatus (if after.isSome then 0 else 1)) files []

/-- Copy what is there of the input to the output. -/
def copyInput (machine : Machine) (files : FileTree) : Outcome :=
  match machine.streams.input with
  | .file left =>
      let (files, written) := writeTo machine.streams.output left files
      .went ({ machine with streams.input := .file [] }.setStatus 0) files written
  | .pipe =>
      if !machine.input.isEmpty then
        let (files, written) := writeTo machine.streams.output machine.input files
        .went ({ machine with input := [] }.push .copy) files written
      else if machine.inputClosed then .went (machine.setStatus 0) files []
      else .blocked

/-! ## Commands that change the state -/

/-- A number of seconds as milliseconds. -/
def millisecondsOf (text : List Char) : Nat :=
  let whole := text.takeWhile Char.isDigit
  let part := ((text.drop (whole.length + 1)).takeWhile Char.isDigit ++ ['0', '0', '0']).take 3
  ofDecimal whole * 1000 + ofDecimal part

/-- Set the variables of words that have the form of assignments. -/
def assignAll (scope : Scope) (arguments : List (List Char)) : Scope :=
  arguments.foldl (fun scope text =>
    if text.contains '=' then scope.set (text.takeWhile (· ≠ '=')) ((text.dropWhile (· ≠ '=')).drop 1) else scope) scope

/-- Write what a command gives, and take its status. -/
def apply (machine : Machine) (files : FileTree) (effect : Effect) : Outcome :=
  let (files, output) := writeTo machine.streams.output effect.output files
  let (files, errors) := writeTo machine.streams.errors effect.errors files
  .went (machine.setStatus effect.status) files (output ++ errors)

/-- Go to another directory. -/
def changeDirectory (machine : Machine) (files : FileTree) (target : List Char) : Outcome :=
  match files.within (pathOf target) with
  | .ok inside => .went ({ machine with directory := inside.current }.setStatus 0) files []
  | .error _ =>
      apply machine files { status := 2, errors := "sh: 1: cd: can't cd to ".toList ++ target ++ ['\n'] }

/-- Carry a command out. -/
def runWords (machine : Machine) (files : FileTree) (name : List Char) (arguments : List (List Char)) : Outcome :=
  match effectOf? machine.directory files name arguments, changeOf? files name arguments with
  | some effect, _ => apply machine files effect
  | none, some (status, after) => .went (machine.setStatus status) after []
  | none, none =>
      match String.ofList name with
      | "read" => readInto machine files arguments
      | "cat" =>
          if arguments.isEmpty then copyInput machine files else apply machine files (concatenate files arguments)
      | "exit" => .ended (((arguments.head?).map ofDecimal).getD machine.scope.status % 256)
      | "cd" => changeDirectory machine files (arguments.headD (machine.scope.value "HOME".toList))
      | "sleep" => .asleep (millisecondsOf (arguments.headD [])) (machine.setStatus 0)
      | "export" => .went ({ machine with scope := assignAll machine.scope arguments }.setStatus 0) files []
      | "unset" =>
          .went ({ machine with scope := arguments.foldl (·.put · none) machine.scope }.setStatus 0) files []
      | "shift" =>
          let values := machine.scope.arguments
          .went ({ machine with scope.arguments := values.take 1 ++ values.drop 2 }.setStatus 0) files []
      | "break" => .went ((machine.leave false machine.frames).setStatus 0) files []
      | "continue" => .went ((machine.leave true machine.frames).setStatus 0) files []
      | _ => apply machine files { status := 127, errors := notFoundText name }

end Shell
end CompilerRelay
