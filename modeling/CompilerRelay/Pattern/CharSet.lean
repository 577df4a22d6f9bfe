import CompilerRelay.Text.Blank
import CompilerRelay.Unicode.CaseFolding
import CompilerRelay.Unicode.Script

/-!
# Sets of characters

What one position of a pattern admits.

**Input.**  Ranges, the classes of the Unicode standard, and the operations on sets.

**Algorithm.**  A set is kept as it was put together and asked for one character at a time.  A caseless set
admits a character with one of its case variants.

**Results.**  `contains_caseless_of_contains`: a caseless set admits no less.
-/

namespace CompilerRelay
namespace Pattern

/-- The classes of characters that have a name of their own. -/
inductive CharClass where
  | any
  | blank
  | digit
  | word
  | alphabetic
  | lowercase
  | uppercase
  | category (category : Unicode.Category)
  deriving DecidableEq, Repr

/-- Whether a class admits a character. -/
def CharClass.contains : CharClass → Char → Bool
  | .any, _ => true
  | .blank, char => isBlank char
  | .digit, char => Unicode.isDecimalDigit char
  | .word, char => Unicode.isWordChar char
  | .alphabetic, char => Unicode.isAlphabetic char
  | .lowercase, char => Unicode.isLowercase char
  | .uppercase, char => Unicode.isUppercase char
  | .category kind, char => Unicode.category char == kind

/-- The operations on two sets. -/
inductive SetOperator where
  | both
  | butNot
  | eitherOne
  deriving DecidableEq, Repr

/-- A set of characters. -/
inductive CharSet where
  | empty
  | ranges (ranges : Unicode.Ranges)
  | named (name : CharClass)
  | union (left right : CharSet)
  | combined (operator : SetOperator) (left right : CharSet)
  | complement (set : CharSet)
  /-- With all case variants, or with those of ASCII only. -/
  | caseless (unicode : Bool) (set : CharSet)
  deriving DecidableEq, Repr

/-- The other case of a letter of ASCII, after the character itself. -/
def asciiVariants (char : Char) : List Char :=
  if char.isUpper then [char, char.toLower] else if char.isLower then [char, char.toUpper] else [char]

/-- The characters that a caseless set does not tell from this one. -/
def variants (unicode : Bool) (char : Char) : List Char :=
  if unicode then Unicode.caseVariants char else asciiVariants char

theorem mem_variants_self (unicode : Bool) (char : Char) : char ∈ variants unicode char := by
  unfold variants asciiVariants
  split
  · exact Unicode.mem_caseVariants_self char
  · split
    · simp
    · split <;> simp

namespace CharSet

/-- The set of the characters from one code point to another. -/
def range (first last : Nat) : CharSet :=
  .ranges [(first, last)]

/-- The set of one character. -/
def single (char : Char) : CharSet :=
  .range char.toNat char.toNat

/-- Whether a set admits a character. -/
def contains : CharSet → Char → Bool
  | .empty, _ => false
  | .ranges listed, char => listed.contains char
  | .named name, char => name.contains char
  | .union left right, char => left.contains char || right.contains char
  | .combined .both left right, char => left.contains char && right.contains char
  | .combined .butNot left right, char => left.contains char && !right.contains char
  | .combined .eitherOne left right, char => left.contains char != right.contains char
  | .complement set, char => !set.contains char
  | .caseless unicode set, char => (variants unicode char).any fun other => set.contains other

theorem contains_caseless_of_contains
    {unicode : Bool} {set : CharSet} {char : Char}
    (admitted : set.contains char = true) :
    (CharSet.caseless unicode set).contains char = true := by
  simp only [contains, List.any_eq_true]
  exact ⟨char, mem_variants_self unicode char, admitted⟩

/-- Whether a set of bytes admits only those of ASCII. -/
def asciiOnly (set : CharSet) : Bool :=
  (List.range 128).all fun low => !set.contains (Char.ofNat (128 + low))

/-- About how many ranges a set is made of. -/
def rangeCount : CharSet → Nat
  | .empty => 0
  | .ranges listed => listed.length
  | .named .any => 1
  | .named .blank => 10
  | .named .digit => 70
  | .named .word => 760
  | .named _ => 300
  | .union left right | .combined _ left right => left.rangeCount + right.rangeCount
  | .complement set => set.rangeCount + 1
  | .caseless _ set => 2 * set.rangeCount

end CharSet

/-! ## Classes with names -/

/-- The set of the characters of several categories. -/
def CharSet.ofCategories (categories : List Unicode.Category) : CharSet :=
  categories.foldr (fun category set => .union (.named (.category category)) set) .empty

/-- A name without what does not count in it: case, blanks, hyphens, underscores, and a leading `is`. -/
def plainName (name : List Char) : List Char :=
  let kept := (name.filter fun c => c.toNat < 0x80 && c != ' ' && c != '-' && c != '_').map Char.toLower
  match kept with
  | ['i', 's', 'c'] => kept
  | 'i' :: 's' :: rest => rest
  | _ => kept

/-- The categories by their short and long names, the groups of categories among them. -/
def categoryNames : List (List String × List Unicode.Category) :=
  [(["lu", "uppercaseletter"], [.uppercaseLetter]),
   (["ll", "lowercaseletter"], [.lowercaseLetter]),
   (["lt", "titlecaseletter"], [.titlecaseLetter]),
   (["lc", "casedletter"], [.uppercaseLetter, .lowercaseLetter, .titlecaseLetter]),
   (["lm", "modifierletter"], [.modifierLetter]),
   (["lo", "otherletter"], [.otherLetter]),
   (["l", "letter"], [.uppercaseLetter, .lowercaseLetter, .titlecaseLetter, .modifierLetter, .otherLetter]),
   (["mn", "nonspacingmark"], [.nonspacingMark]),
   (["mc", "spacingmark"], [.spacingMark]),
   (["me", "enclosingmark"], [.enclosingMark]),
   (["m", "mark", "combiningmark"], [.nonspacingMark, .spacingMark, .enclosingMark]),
   (["nd", "decimalnumber", "digit"], [.decimalNumber]),
   (["nl", "letternumber"], [.letterNumber]),
   (["no", "othernumber"], [.otherNumber]),
   (["n", "number"], [.decimalNumber, .letterNumber, .otherNumber]),
   (["pc", "connectorpunctuation"], [.connectorPunctuation]),
   (["pd", "dashpunctuation"], [.dashPunctuation]),
   (["ps", "openpunctuation"], [.openPunctuation]),
   (["pe", "closepunctuation"], [.closePunctuation]),
   (["pi", "initialpunctuation"], [.initialPunctuation]),
   (["pf", "finalpunctuation"], [.finalPunctuation]),
   (["po", "otherpunctuation"], [.otherPunctuation]),
   (["p", "punctuation", "punct"],
    [.connectorPunctuation, .dashPunctuation, .openPunctuation, .closePunctuation,
     .initialPunctuation, .finalPunctuation, .otherPunctuation]),
   (["sm", "mathsymbol"], [.mathSymbol]),
   (["sc", "currencysymbol"], [.currencySymbol]),
   (["sk", "modifiersymbol"], [.modifierSymbol]),
   (["so", "othersymbol"], [.otherSymbol]),
   (["s", "symbol"], [.mathSymbol, .currencySymbol, .modifierSymbol, .otherSymbol]),
   (["zs", "spaceseparator"], [.spaceSeparator]),
   (["zl", "lineseparator"], [.lineSeparator]),
   (["zp", "paragraphseparator"], [.paragraphSeparator]),
   (["z", "separator"], [.spaceSeparator, .lineSeparator, .paragraphSeparator]),
   (["cc", "control", "cntrl"], [.control]),
   (["cf", "format"], [.format]),
   (["cs", "surrogate"], [.surrogate]),
   (["co", "privateuse"], [.privateUse]),
   (["cn", "unassigned"], [.unassigned]),
   (["c", "other"], [.control, .format, .surrogate, .privateUse, .unassigned])]

/-- The set of a general category. -/
def CharSet.ofCategoryName? (name : String) : Option CharSet :=
  match name with
  | "any" => some (.named .any)
  | "assigned" => some (.complement (.named (.category .unassigned)))
  | "ascii" => some (.range 0 0x7F)
  | _ => (categoryNames.find? (·.1.contains name)).map fun entry => .ofCategories entry.2

/-- The set of a script. -/
def CharSet.ofScriptName? (name : String) : Option CharSet :=
  (Unicode.scripts.lookup name).map .ranges

/-- The set of a property that characters either have or not. -/
def CharSet.ofPropertyName? (name : String) : Option CharSet :=
  match name with
  | "alphabetic" | "alpha" => some (.named .alphabetic)
  | "lowercase" | "lower" => some (.named .lowercase)
  | "uppercase" | "upper" => some (.named .uppercase)
  | "whitespace" | "wspace" | "space" => some (.named .blank)
  | "asciihexdigit" | "ahex" => some (.ranges [(0x30, 0x39), (0x41, 0x46), (0x61, 0x66)])
  | "hexdigit" | "hex" =>
      some (.ranges [(0x30, 0x39), (0x41, 0x46), (0x61, 0x66), (0xFF10, 0xFF19), (0xFF21, 0xFF26),
        (0xFF41, 0xFF46)])
  | _ => none

/-- The set of a class that is given by its name alone. -/
def CharSet.ofName? (name : List Char) : Option CharSet :=
  let plain := String.ofList (plainName name)
  (CharSet.ofPropertyName? plain).orElse fun _ =>
    (CharSet.ofCategoryName? plain).orElse fun _ => CharSet.ofScriptName? plain

/-- The set of a class that is given by a property and its value. -/
def CharSet.ofValue? (property value : List Char) : Option CharSet :=
  let plain := String.ofList (plainName value)
  match String.ofList (plainName property) with
  | "generalcategory" | "gc" => CharSet.ofCategoryName? plain
  | "script" | "sc" | "scriptextensions" | "scx" => CharSet.ofScriptName? plain
  | _ => none

/-- The sets of ASCII that are written between colons. -/
def CharSet.ofPosixName? (name : List Char) : Option CharSet :=
  match String.ofList name with
  | "alnum" => some (.ranges [(0x30, 0x39), (0x41, 0x5A), (0x61, 0x7A)])
  | "alpha" => some (.ranges [(0x41, 0x5A), (0x61, 0x7A)])
  | "ascii" => some (.range 0 0x7F)
  | "blank" => some (.ranges [(0x09, 0x09), (0x20, 0x20)])
  | "cntrl" => some (.ranges [(0, 0x1F), (0x7F, 0x7F)])
  | "digit" => some (.range 0x30 0x39)
  | "graph" => some (.range 0x21 0x7E)
  | "lower" => some (.range 0x61 0x7A)
  | "print" => some (.range 0x20 0x7E)
  | "punct" => some (.ranges [(0x21, 0x2F), (0x3A, 0x40), (0x5B, 0x60), (0x7B, 0x7E)])
  | "space" => some (.ranges [(0x09, 0x0D), (0x20, 0x20)])
  | "upper" => some (.range 0x41 0x5A)
  | "word" => some (.ranges [(0x30, 0x39), (0x41, 0x5A), (0x5F, 0x5F), (0x61, 0x7A)])
  | "xdigit" => some (.ranges [(0x30, 0x39), (0x41, 0x46), (0x61, 0x66)])
  | _ => none

/-- The set of the decimal digits. -/
def CharSet.digits (unicode : Bool) : CharSet :=
  if unicode then .named .digit else .range 0x30 0x39

/-- The set of the blanks. -/
def CharSet.blanks (unicode : Bool) : CharSet :=
  if unicode then .named .blank else .ranges [(0x09, 0x0D), (0x20, 0x20)]

/-- The set of the characters of words. -/
def CharSet.words (unicode : Bool) : CharSet :=
  if unicode then .named .word else .ranges [(0x30, 0x39), (0x41, 0x5A), (0x5F, 0x5F), (0x61, 0x7A)]

end Pattern
end CompilerRelay
