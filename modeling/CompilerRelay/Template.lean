import CompilerRelay.Package

/-!
# Templates

A template is a source text with markers that stand for parts of the package it belongs to.

**Input.**  The root of the project, the path of the template, and its text.

**Algorithm.**  The markers are taken one after the other.  All occurrences of a marker are replaced by its
value; a marker without a value, because the package has too few segments, stays.

**File names.**  A template has the extension `cmx` and the file generated from it the extension `cm`, beside
it.

**Results.**  `substitute_nil`: an empty template yields an empty text.
-/

namespace CompilerRelay

namespace Path

/-- Whether a path has the extension of templates. -/
def isTemplate (path : Path) : Bool :=
  path.extension? == some "cmx".toList

/-- Whether a path has the extension of generated files. -/
def isGenerated (path : Path) : Bool :=
  path.extension? == some "cm".toList

/-- The file generated from a template; every other path stands for itself. -/
def generated (path : Path) : Path :=
  if path.isTemplate then path.withExtension "cm".toList else path

/-- The template of a generated file. -/
def template? (path : Path) : Option Path :=
  if path.isGenerated then some (path.withExtension "cmx".toList) else none

end Path

/-- A marker in a template. -/
inductive Marker where
  | shortcut
  | wholePackage
  | customExtension
  | parentPackage
  | rootPackage
  deriving DecidableEq, Repr

namespace Marker

/-- The markers in the order in which they are replaced. -/
def all : List Marker :=
  [.shortcut, .wholePackage, .customExtension, .parentPackage, .rootPackage]

/-- The text of a marker. -/
def text : Marker → String
  | .shortcut => "$$"
  | .wholePackage => "$dynamicPackageName"
  | .customExtension => "$customExtensionName"
  | .parentPackage => "$parentPackageName"
  | .rootPackage => "$rootExtensionPackage"

/-- What a marker stands for in a package. -/
def value? (package : Package) : Marker → Option (List Char)
  | .shortcut => package.segment? 1
  | .wholePackage => some package.name
  | .customExtension => package.segment? 1
  | .parentPackage => some package.parent
  | .rootPackage => package.leading? 2

/-- Replace every occurrence of a marker that has a value. -/
def apply (package : Package) (text : List Char) (marker : Marker) : List Char :=
  match marker.value? package with
  | some value => Text.replaceAll marker.text.toList value text
  | none => text

end Marker

namespace Template

/-- Replace the markers in the text of a template, one marker after the other. -/
def substitute (root file : Path) (text : List Char) : List Char :=
  Marker.all.foldl (Marker.apply (Package.derive root file)) text

@[simp] theorem substitute_nil (root file : Path) : substitute root file [] = [] := by
  have empty (package : Package) (marker : Marker) : marker.apply package [] = [] := by
    cases marker <;> simp only [Marker.apply] <;> split <;> rfl
  simp [substitute, Marker.all, empty]

end Template
end CompilerRelay
