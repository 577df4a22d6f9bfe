import CompilerRelay.Text.Search

/-!
# Paths

A path is a text whose parts are separated by slashes.  The text is kept as it was given; what the path
names is decided by its components.

**Components.**  An absolute path begins with the root.  Empty parts and parts that are a single dot are
fillers and count for nothing, except a dot at the very beginning of a relative path.

**Operations.**  `parent?`, `fileName?` and `extension?` look through fillers at the end of the text.
`join` appends a relative path and is replaced by an absolute one.

**Results.**  `Path.same_refl`, `Path.same_symm`, `Path.same_trans`: naming the same place is an equivalence.
-/

namespace CompilerRelay

/-- A path, as the text it was given by. -/
structure Path where
  text : String
  deriving DecidableEq, Repr, Inhabited

namespace Path

/-- One step of a path. -/
inductive Component where
  | root
  | current
  | parent
  | normal (name : List Char)
  deriving DecidableEq, Repr

/-- What stands before the parts of a path. -/
inductive Anchor where
  | root
  | current
  | nothing
  deriving DecidableEq, Repr

/-- A path cut at its slashes: the anchor, and the parts after it. -/
structure Shape where
  anchor : Anchor
  body : List (List Char)
  deriving DecidableEq, Repr

/-- Sort the parts of a path into an anchor and the body. -/
def Shape.ofParts : List (List Char) → Shape
  | [] :: part :: rest => ⟨.root, part :: rest⟩
  | ['.'] :: rest => ⟨.current, rest⟩
  | parts => ⟨.nothing, parts⟩

/-- Cut a path at its slashes. -/
def shape (path : Path) : Shape :=
  Shape.ofParts (Text.splitOn '/' path.text.toList)

/-- Whether a part counts for nothing after the anchor. -/
def isFiller (part : List Char) : Bool :=
  part == [] || part == ['.']

/-- The component that a part other than a filler stands for. -/
def Component.ofPart (part : List Char) : Component :=
  if part = ['.', '.'] then .parent else .normal part

/-- The components of an anchor. -/
def Anchor.components : Anchor → List Component
  | .root => [.root]
  | .current => [.current]
  | .nothing => []

/-- The components of a path, in order. -/
def components (path : Path) : List Component :=
  path.shape.anchor.components
    ++ (path.shape.body.filter (!isFiller ·)).map Component.ofPart

/-- The text of a component. -/
def Component.text : Component → List Char
  | .root => ['/']
  | .current => ['.']
  | .parent => ['.', '.']
  | .normal name => name

/-- Whether two paths have the same components, so that they name the same place. -/
def same (first second : Path) : Bool :=
  first.components == second.components

theorem same_iff (first second : Path) :
    first.same second = true ↔ first.components = second.components := by
  simp [same]

@[simp] theorem same_refl (path : Path) : path.same path = true := by
  simp [same_iff]

theorem same_symm {first second : Path} (same : first.same second = true) :
    second.same first = true := by
  rw [same_iff] at same ⊢
  exact same.symm

theorem same_trans
    {first second third : Path}
    (left : first.same second = true) (right : second.same third = true) :
    first.same third = true := by
  rw [same_iff] at left right ⊢
  exact left.trans right

/-- A component as a number and the code points of its name; the order of paths is that of these lists. -/
def Component.sortKey : Component → List Nat
  | .root => [0]
  | .current => [1]
  | .parent => [2]
  | .normal name => 3 :: name.map Char.toNat

/-- What a path is sorted by: its components one after the other. -/
def sortKey (path : Path) : List (List Nat) :=
  path.components.map Component.sortKey

/-- Whether numbers are sorted before others or are the same, by the first place where they differ. -/
def numbersAtMost : List Nat → List Nat → Bool
  | [], _ => true
  | _ :: _, [] => false
  | number :: numbers, other :: others => if number = other then numbersAtMost numbers others else number < other

/-- Whether keys are sorted before others or are the same, by the first place where they differ. -/
def keysAtMost : List (List Nat) → List (List Nat) → Bool
  | [], _ => true
  | _ :: _, [] => false
  | key :: keys, other :: others => if key = other then keysAtMost keys others else numbersAtMost key other

/-- Whether a path comes before another or names the same place. -/
def atMost (first second : Path) : Bool :=
  keysAtMost first.sortKey second.sortKey

/-- Whether a path starts at the root. -/
def isAbsolute (path : Path) : Bool :=
  path.text.toList.head? == some '/'

/-- Parts without the fillers at their end. -/
def trimFillers (body : List (List Char)) : List (List Char) :=
  (body.reverse.dropWhile isFiller).reverse

/-- The path of an anchor and the parts after it. -/
def ofShape : Shape → Path
  | ⟨.root, body⟩ => ⟨String.ofList ('/' :: Text.join ['/'] body)⟩
  | ⟨.current, []⟩ => ⟨"."⟩
  | ⟨.current, body⟩ => ⟨String.ofList ('.' :: '/' :: Text.join ['/'] body)⟩
  | ⟨.nothing, body⟩ => ⟨String.ofList (Text.join ['/'] body)⟩

/-- The path without its last component; the root and the empty path have none. -/
def parent? (path : Path) : Option Path :=
  let ⟨anchor, body⟩ := path.shape
  match trimFillers body, anchor with
  | [], .current => some ⟨""⟩
  | [], _ => none
  | parts, anchor => some (ofShape ⟨anchor, trimFillers parts.dropLast⟩)

/-- The name that a path ends with, if its last component is a name. -/
def fileName? (path : Path) : Option (List Char) :=
  match (trimFillers path.shape.body).getLast? with
  | none => none
  | some name => if name = ['.', '.'] then none else some name

/-- A name cut at its last dot; a dot at the very beginning does not count. -/
def cutExtension (name : List Char) : List Char × Option (List Char) :=
  let extension := (name.reverse.takeWhile (· ≠ '.')).reverse
  match name.reverse.dropWhile (· ≠ '.') with
  | [] | [_] => (name, none)
  | _ :: stem => (stem.reverse, some extension)

/-- What follows the last dot of the name that a path ends with. -/
def extension? (path : Path) : Option (List Char) :=
  path.fileName?.bind fun name => (cutExtension name).2

/-- The path whose last name got another extension; a path without a last name is kept. -/
def setExtension (path : Path) (extension : List Char) : Path :=
  let ⟨anchor, body⟩ := path.shape
  match path.fileName? with
  | none => path
  | some name =>
      let stem := (cutExtension name).1 ++ '.' :: extension
      ofShape ⟨anchor, (trimFillers body).dropLast ++ [stem]⟩

/-- The path with another extension.  As much of the text as the old extension is long is taken off its end
before the new one is set, so a name that is two dots and the extension is left with the two dots. -/
def withExtension (path : Path) (extension : List Char) : Path :=
  let kept :=
    match path.extension? with
    | none => path
    | some previous =>
        let text := path.text.toList
        ⟨String.ofList (text.take (text.length - previous.length))⟩
  kept.setExtension extension

/-- A path followed by another; an absolute one stands alone. -/
def join (path other : Path) : Path :=
  if other.isAbsolute then other
  else
    match path.text.toList.getLast? with
    | none | some '/' => ⟨path.text ++ other.text⟩
    | some _ => ⟨path.text ++ "/" ++ other.text⟩

/-- The text of a path with a slash for every backslash, as the compiler expects it. -/
def slashed (path : Path) : List Char :=
  path.text.toList.map fun char => if char = '\\' then '/' else char

/-- The same without the slashes at its end. -/
def bareSlashed (path : Path) : List Char :=
  (path.slashed.reverse.dropWhile (· = '/')).reverse

end Path
end CompilerRelay
