import CompilerRelay.FileTree.Replace
import CompilerRelay.FileTree.Walk
import CompilerRelay.Template

/-!
# Generating files from templates

The files of a project that are generated from templates, and their removal.

**Input.**  The root of the project, the tree of files, and what the system refuses.

**Algorithm.**  The file that is to be generated is removed first.  Then the template is read, its markers are
replaced, and the text is put beside it; a template without text leaves no file.  All templates below the
directory of custom packages are generated in the order of a walk.  Cleaning removes, in the same order, the
generated files whose template is there; other files with that extension were written by hand.  A walk that stops
is the end of the work before anything is touched.

**Results.**  `generate_of_not_template`: a path that is no template is passed on and nothing is touched.
-/

namespace CompilerRelay

/-- A step at which work on templates may fail. -/
inductive TemplateStep where
  | removing
  | reading
  | writing
  deriving DecidableEq, Repr

/-- The word for a step. -/
def TemplateStep.word : TemplateStep → String
  | .removing => "removing"
  | .reading => "reading"
  | .writing => "writing"

/-- Why work on templates stopped. -/
inductive TemplateFault where
  /-- A step failed on a file. -/
  | file (step : TemplateStep) (path : Path) (cause : FileError)
  /-- The walk through a directory stopped. -/
  | walk (directory : Path) (fault : WalkFault)
  deriving DecidableEq, Repr

/-- What is told of a failure. -/
def TemplateFault.message : TemplateFault → String
  | .file step path cause => step.word ++ " " ++ path.text ++ ": " ++ cause.message
  | .walk directory fault => "walking " ++ directory.text ++ ": " ++ fault.message

namespace Template

/-- The directory of custom packages. -/
def customDirectory (root : Path) : Path :=
  root.join ⟨"custom"⟩

/-- The directory that a path stands in. -/
def directoryOf (path : Path) : Path :=
  match path.parent? with
  | none => ⟨"."⟩
  | some parent => if parent.text.isEmpty then ⟨"."⟩ else parent

/-- Remove a file; it is no failure if there is none. -/
def discard (tree : FileTree) (path : Path) (refuses : Refusals := .none) : Except FileError FileTree :=
  match tree.permit refuses (.remove path) (tree.removeFile path) with
  | .error .notFound => .ok tree
  | result => result

/-- Put the text of a template where its generated file belongs; an empty text puts nothing there. -/
def place
    (tree : FileTree) (target : Path) (text : List Char) (refuses : Refusals := .none) :
    Except FileError Unit × FileTree :=
  if text.isEmpty then (.ok (), tree)
  else tree.replaceFile (directoryOf target) target (Utf8.encode (String.ofList text)) refuses

/-- Generate the file of a template; the result is its path.  Another path is passed on. -/
def generate
    (root file : Path) (tree : FileTree) (refuses : Refusals := .none) : Except TemplateFault Path × FileTree :=
  if !file.isTemplate then (.ok file, tree)
  else
    let target := file.generated
    match discard tree target refuses with
    | .error cause => (.error (.file .removing target cause), tree)
    | .ok bare =>
        match bare.permit refuses (.read file) (bare.readText file) with
        | .error cause => (.error (.file .reading file cause), bare)
        | .ok text =>
            match place bare target (substitute root file text.toList) refuses with
            | (.error cause, after) => (.error (.file .writing target cause), after)
            | (.ok (), after) => (.ok target, after)

theorem generate_of_not_template
    (root : Path) {file : Path} (tree : FileTree)
    (other : file.isTemplate = false) (refuses : Refusals := .none) :
    generate root file tree refuses = (.ok file, tree) := by
  simp [generate, other]

/-- The files in the directory of custom packages, in the order of a walk; none if there is no such directory. -/
def customFiles (root : Path) (tree : FileTree) : Except TemplateFault (List Path) :=
  if tree.isDirectory (customDirectory root) then
    (tree.filesBelow (customDirectory root)).mapError (.walk (customDirectory root))
  else .ok []

/-- Generate the files of templates one after the other, up to a failure. -/
def generateEach (root : Path) : List Path → FileTree → Except TemplateFault (List Path) × FileTree
  | [], tree => (.ok [], tree)
  | file :: rest, tree =>
      match generate root file tree with
      | (.error fault, after) => (.error fault, after)
      | (.ok target, after) =>
          let (result, last) := generateEach root rest after
          (result.map (target :: ·), last)

/-- Generate the files of all custom templates; the result is their paths. -/
def generateAll (root : Path) (tree : FileTree) : Except TemplateFault (List Path) × FileTree :=
  match customFiles root tree with
  | .error fault => (.error fault, tree)
  | .ok files => generateEach root (files.filter Path.isTemplate) tree

/-- Whether the template of a generated file is there. -/
def isRegenerable (tree : FileTree) (path : Path) : Bool :=
  path.template?.any tree.isFile

/-- Remove the files that can be generated again one after the other, up to a failure. -/
def removeEach : List Path → FileTree → Except TemplateFault (List Path) × FileTree
  | [], tree => (.ok [], tree)
  | file :: rest, tree =>
      if isRegenerable tree file then
        match tree.removeFile file with
        | .error cause => (.error (.file .removing file cause), tree)
        | .ok after =>
            let (result, last) := removeEach rest after
            (result.map (file :: ·), last)
      else removeEach rest tree

/-- Remove the custom files that can be generated again; the result is their paths. -/
def clean (root : Path) (tree : FileTree) : Except TemplateFault (List Path) × FileTree :=
  match customFiles root tree with
  | .error fault => (.error fault, tree)
  | .ok files => removeEach (files.filter Path.isGenerated) tree

end Template
end CompilerRelay
