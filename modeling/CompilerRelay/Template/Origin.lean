import CompilerRelay.FileTree.Locate
import CompilerRelay.Path.Map
import CompilerRelay.Template

/-!
# From generated files back to templates

The compiler speaks of generated files, but the user edits their templates.

**Algorithm.**  A generated file whose template is there stands for the template.  Whether it is there is looked
up once per path and remembered until everything is forgotten.
-/

namespace CompilerRelay

/-- What is known of templates: for some paths, whether a file is there. -/
structure TemplateOrigins where
  known : PathMap Bool := {}
  deriving DecidableEq, Repr

namespace TemplateOrigins

/-- Whether a template is there, from what is known or else from the tree. -/
def isThere (origins : TemplateOrigins) (tree : FileTree) (template : Path) : Bool :=
  (origins.known.find? template).getD (tree.isFile template)

/-- Remember whether a template is there. -/
def remember (origins : TemplateOrigins) (tree : FileTree) (template : Path) : TemplateOrigins :=
  match origins.known.find? template with
  | some _ => origins
  | none => ⟨origins.known.insert template (tree.isFile template)⟩

/-- The file that the user edits for a path, and what is known after looking it up. -/
def origin (origins : TemplateOrigins) (tree : FileTree) (path : Path) : Path × TemplateOrigins :=
  match path.template? with
  | none => (path, origins)
  | some template =>
      (if origins.isThere tree template then template else path, origins.remember tree template)

/-- Forget everything. -/
def forget (_ : TemplateOrigins) : TemplateOrigins := {}

end TemplateOrigins
end CompilerRelay
