import CompilerRelay.Path

/-!
# Commands to the compiler

What can be asked of the compiler, and the statement that asks it.  A path is written between double quotes
with slashes for backslashes; a directory ends in exactly one slash.
-/

namespace CompilerRelay

/-- A request to the compiler. -/
inductive Command where
  /-- Load a file and all it depends on. -/
  | loadAll (file : Path)
  /-- Compile every package below each directory. -/
  | compileAllBelow (directories : List Path)
  | compileFile (file : Path)
  | runFile (file : Path)
  /-- Ask where the symbol at an offset, counted in characters, is defined. -/
  | refers (file : Path) (offset : Nat)
  | quitDebug
  /-- Code that is passed on as it is. -/
  | raw (code : String)
  deriving DecidableEq, Repr

namespace Command

/-- A path between double quotes. -/
def quotedPath (path : Path) : List Char :=
  '"' :: (path.slashed ++ ['"'])

/-- A directory with exactly one slash at its end. -/
def directoryText (directory : Path) : List Char :=
  directory.bareSlashed ++ ['/']

/-- The name of the call that loads a file. -/
def loadAllName : List Char := "loadAll".toList

/-- The name of the call that compiles a file. -/
def compileFileName : List Char := "compileFile".toList

/-- The name of the call that runs a file. -/
def runFileName : List Char := "runFile".toList

/-- What a lookup begins with. -/
def refersStart : List Char := "cm.runtime.refers(".toList

/-- The statement that ends debugging. -/
def quitDebugText : List Char := "quitDebug();".toList

/-- What a block of compilations begins with. -/
def blockStart : List Char := "\x7b use cm.runtime.util; ".toList

/-- What a block of compilations ends with. -/
def blockEnd : List Char := " \x7d".toList

/-- What the compilation of a directory begins with. -/
def compileBelowStart : List Char := "compileAllBelow(CompileAllEnv(\"".toList

/-- What the compilation of a directory ends with. -/
def compileBelowEnd : List Char := "\"));".toList

/-- The call that compiles everything below one directory. -/
def compileBelowCall (directory : Path) : List Char :=
  compileBelowStart ++ directoryText directory ++ compileBelowEnd

/-- A call with a path as its only argument. -/
def callOn (function : List Char) (file : Path) : List Char :=
  function ++ '(' :: (quotedPath file ++ [')', ';'])

/-- The decimal digits of an offset. -/
def offsetText (offset : Nat) : List Char :=
  Nat.toDigits 10 offset

/-- The characters of the statement, without a newline at its end. -/
def renderChars : Command → List Char
  | .loadAll file => callOn loadAllName file
  | .compileAllBelow directories =>
      blockStart ++ directories.flatMap compileBelowCall ++ blockEnd
  | .compileFile file => callOn compileFileName file
  | .runFile file => callOn runFileName file
  | .refers file offset =>
      refersStart ++ quotedPath file ++ [',', ' '] ++ offsetText offset ++ [')', ';']
  | .quitDebug => quitDebugText
  | .raw code => code.toList

/-- The statement that asks the compiler for a command. -/
def render (command : Command) : String :=
  String.ofList command.renderChars

end Command
end CompilerRelay
