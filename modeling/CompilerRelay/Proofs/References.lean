import CompilerRelay.Environment
import CompilerRelay.Proofs.StrictDecoding

/-!
# References to variables

What a text with references stands for, told by the pieces that it is written in.

**Input.**  The variables as the machine keeps them, and a text.

**Form.**  A text is a list of literals and references, and perhaps a reference at its end that is never closed.
`EnvironmentBlock.StandsFor` says what a piece stands for, by the entries of the variables alone.

**Algorithm.**  The scan goes over the text once.  A literal without a dollar sign is passed whatever comes after it, and
a name ends at the first closing brace, so no reference is found across the seam of two pieces.

**Results.**
* `EnvironmentBlock.find?_eq_some_iff`: the first entry with a name counts.
* `EnvironmentBlock.expandFrom_literal`, `EnvironmentBlock.expandFrom_name`, `EnvironmentBlock.expandFrom_open`: one piece is scanned.
* `EnvironmentBlock.exists_readAs`: every text is read in pieces.
* `EnvironmentBlock.expansion_law`: what comes out is what the pieces stand for, one after the other.
-/

namespace CompilerRelay
namespace EnvironmentBlock

section Defs

/-- A piece of a text with references. -/
inductive Piece where
  | literal (text : List Char)
  | reference (name : List Char)
  deriving DecidableEq, Repr

/-- How a piece is written. -/
def Piece.written : Piece → List Char
  | .literal text => text
  | .reference name => '$' :: '\x7b' :: (name ++ ['\x7d'])

/-- A literal without a dollar sign, or a reference whose name has no closing brace. -/
def Piece.IsPlain : Piece → Prop
  | .literal text => '$' ∉ text
  | .reference name => '\x7d' ∉ name

/-- A reference that is never closed, if there is one. -/
def opened (tail : Option (List Char)) : List Char :=
  tail.elim [] fun name => '$' :: '\x7b' :: name

/-- The text of pieces, and of what is opened behind them. -/
def written (pieces : List Piece) (tail : Option (List Char)) : List Char :=
  pieces.flatMap Piece.written ++ opened tail

/-- How an entry begins that sets a variable. -/
def lead (name : List Char) : Bytes :=
  Utf8.encode (String.ofList (name ++ ['=']))

/-- The first entry that begins with the name and an equals sign goes on with this value. -/
def Sets (block : EnvironmentBlock) (name : List Char) (value : Bytes) : Prop :=
  ∃ before after, block.entries = before ++ (lead name ++ value) :: after ∧
    ∀ entry ∈ before, ¬ lead name <+: entry

/-- What a piece stands for. -/
inductive StandsFor (block : EnvironmentBlock) : Piece → List Char → Prop
  | literal (text : List Char) : StandsFor block (.literal text) text
  | unnamed : StandsFor block (.reference []) []
  | unset {name : List Char} (hunset : ∀ entry ∈ block.entries, ¬ lead name <+: entry) :
      StandsFor block (.reference name) []
  | notText {name : List Char} {value : Bytes} (hsets : block.Sets name value)
      (hbytes : ∀ text, Utf8.encode text ≠ value) :
      StandsFor block (.reference name) []
  | text {name : List Char} {value : String} (hname : name ≠ []) (hsets : block.Sets name (Utf8.encode value)) :
      StandsFor block (.reference name) value.toList

/-- How every text can be read: literals in which nothing is opened, with references between any two. -/
inductive ReadAs : List Piece → Option (List Char) → Prop
  | last {text : List Char} {tail : Option (List Char)} (htext : ¬ ['$', '\x7b'] <:+: text)
      (htail : ∀ name, tail = some name → '\x7d' ∉ name) :
      ReadAs [.literal text] tail
  | reference {text name : List Char} {pieces : List Piece} {tail : Option (List Char)}
      (htext : ¬ ['$', '\x7b'] <:+: text) (hname : '\x7d' ∉ name) (h : ReadAs pieces tail) :
      ReadAs (.literal text :: .reference name :: pieces) tail

end Defs

variable {block : EnvironmentBlock} {name : List Char}

/-! ## Values -/

theorem after?_eq_some_iff {first bytes rest : Bytes} :
    after? first bytes = some rest ↔ bytes = first ++ rest := by
  induction first generalizing bytes with
  | nil => simp [after?]
  | cons expected first ih =>
      cases bytes with
      | nil => simp [after?]
      | cons byte bytes =>
          by_cases hsame : expected = byte
          · simp [after?, hsame, ih]
          · simp [after?, hsame, Ne.symm hsame]

theorem after?_eq_none_iff {first bytes : Bytes} : after? first bytes = none ↔ ¬ first <+: bytes := by
  rw [Option.eq_none_iff_forall_ne_some, List.IsPrefix, not_exists]
  exact forall_congr' fun rest => not_congr (after?_eq_some_iff.trans eq_comm)

/-- The first entry with a name counts. -/
theorem find?_eq_some_iff {value : Bytes} : block.find? name = some value ↔ block.Sets name value := by
  rw [find?, List.findSome?_eq_some_iff]
  constructor
  · rintro ⟨before, entry, after, hentries, hvalue, hbefore⟩
    rw [after?_eq_some_iff.mp hvalue] at hentries
    exact ⟨before, after, hentries, fun other hother => after?_eq_none_iff.mp (hbefore other hother)⟩
  · rintro ⟨before, after, hentries, hbefore⟩
    exact ⟨before, _, after, hentries, after?_eq_some_iff.mpr rfl,
      fun other hother => after?_eq_none_iff.mpr (hbefore other hother)⟩

theorem find?_eq_none_iff : block.find? name = none ↔ ∀ entry ∈ block.entries, ¬ lead name <+: entry := by
  rw [find?, List.findSome?_eq_none_iff]
  exact forall₂_congr fun entry _ => after?_eq_none_iff

/-- A reference stands for what it is replaced by. -/
theorem standsFor_valueOf (block : EnvironmentBlock) (name : List Char) :
    block.StandsFor (.reference name) (block.valueOf name) := by
  unfold valueOf
  split
  · next hempty =>
      obtain rfl := List.isEmpty_iff.mp hempty
      exact .unnamed
  · next hnamed =>
      have hname : name ≠ [] := fun hempty => hnamed (List.isEmpty_iff.mpr hempty)
      unfold text?
      cases hfind : block.find? name with
      | none => exact .unset (find?_eq_none_iff.mp hfind)
      | some value =>
          have hsets := find?_eq_some_iff.mp hfind
          cases hdecode : Utf8.decode? value with
          | error fault =>
              simp only [Option.map_some, hdecode, Option.getD_none]
              exact .notText hsets (Utf8.decode?_eq_error_iff.mp ⟨fault, hdecode⟩)
          | ok text =>
              simp only [Option.map_some, hdecode, Option.getD_some]
              rw [← Utf8.decode?_eq_ok_iff.mp hdecode] at hsets
              exact .text hname hsets

theorem Sets.unique
    {first second : Bytes} (hfirst : block.Sets name first) (hsecond : block.Sets name second) :
    first = second :=
  Option.some.inj ((find?_eq_some_iff.mpr hfirst).symm.trans (find?_eq_some_iff.mpr hsecond))

theorem Sets.not_unset
    {value : Bytes} (h : block.Sets name value) (hunset : ∀ entry ∈ block.entries, ¬ lead name <+: entry) :
    False := by
  have hsome := find?_eq_some_iff.mpr h
  rw [find?_eq_none_iff.mpr hunset] at hsome
  cases hsome

/-- A piece stands for one text only. -/
theorem StandsFor.unique
    {piece : Piece} {first second : List Char}
    (hfirst : block.StandsFor piece first) (hsecond : block.StandsFor piece second) :
    first = second := by
  cases hfirst with
  | literal => cases hsecond; rfl
  | unnamed =>
      cases hsecond with
      | text hname _ => exact absurd rfl hname
      | unnamed | unset | notText => rfl
  | unset hunset =>
      cases hsecond with
      | text _ hsets => exact (hsets.not_unset hunset).elim
      | unnamed | unset | notText => rfl
  | notText hsets hbytes =>
      cases hsecond with
      | text _ hother => exact absurd (hother.unique hsets) (hbytes _)
      | unnamed | unset | notText => rfl
  | text hname hsets =>
      cases hsecond with
      | unnamed => exact absurd rfl hname
      | unset hunset => exact (hsets.not_unset hunset).elim
      | notText hother hbytes => exact absurd (hsets.unique hother) (hbytes _)
      | text _ hother => rw [Utf8.encode_injective (hsets.unique hother)]

/-! ## The scan -/

/-- A text is passed in which nothing is opened, also not together with what comes after it. -/
theorem expandFrom_literal
    (block : EnvironmentBlock) {text rest : List Char}
    (hclosed : ∀ front back, text = front ++ '$' :: back → (back ++ rest).head? ≠ some '\x7b') :
    block.expandFrom none (text ++ rest) = text ++ block.expandFrom none rest := by
  induction text with
  | nil => rfl
  | cons char text ih =>
      have hrest := ih fun front back htext => hclosed (char :: front) back (by rw [htext]; rfl)
      rw [List.cons_append, expandFrom, hrest]
      · rfl
      · rintro more rfl hmore
        exact hclosed [] text rfl (by rw [hmore]; rfl)

/-- A name ends at the first closing brace. -/
theorem expandFrom_name
    (block : EnvironmentBlock) (hname : '\x7d' ∉ name) (read rest : List Char) :
    block.expandFrom (some read) (name ++ '\x7d' :: rest) =
      block.valueOf (read.reverse ++ name) ++ block.expandFrom none rest := by
  induction name generalizing read with
  | nil => simp [expandFrom]
  | cons char name ih =>
      have hchar : char ≠ '\x7d' := fun hsame => hname (by simp [hsame])
      have hmore : '\x7d' ∉ name := fun hmem => hname (List.mem_cons_of_mem char hmem)
      rw [List.cons_append, expandFrom, if_neg hchar, ih hmore]
      simp

/-- A name that never ends is kept. -/
theorem expandFrom_open
    (block : EnvironmentBlock) (hname : '\x7d' ∉ name) (read : List Char) :
    block.expandFrom (some read) name = '$' :: '\x7b' :: (read.reverse ++ name) := by
  induction name generalizing read with
  | nil => simp [expandFrom]
  | cons char name ih =>
      have hchar : char ≠ '\x7d' := fun hsame => hname (by simp [hsame])
      have hmore : '\x7d' ∉ name := fun hmem => hname (List.mem_cons_of_mem char hmem)
      rw [expandFrom, if_neg hchar, ih hmore]
      simp

theorem expandFrom_reference
    (block : EnvironmentBlock) (hname : '\x7d' ∉ name) (rest : List Char) :
    block.expandFrom none ((Piece.reference name).written ++ rest) =
      block.valueOf name ++ block.expandFrom none rest := by
  have hread := block.expandFrom_name hname [] rest
  simpa [Piece.written, expandFrom] using hread

theorem expandFrom_opened
    (block : EnvironmentBlock) {tail : Option (List Char)} (htail : ∀ name, tail = some name → '\x7d' ∉ name) :
    block.expandFrom none (opened tail) = opened tail := by
  cases tail with
  | none => rfl
  | some name =>
      have hread := block.expandFrom_open (htail name rfl) []
      simpa [opened, expandFrom] using hread

/-- Pieces are replaced one after the other, whatever comes after them. -/
theorem expandFrom_pieces
    (block : EnvironmentBlock) {pieces : List Piece} (hplain : ∀ piece ∈ pieces, piece.IsPlain) (rest : List Char) :
    ∃ values, List.Forall₂ block.StandsFor pieces values ∧
      block.expandFrom none (pieces.flatMap Piece.written ++ rest) =
        values.flatten ++ block.expandFrom none rest := by
  induction pieces with
  | nil => exact ⟨[], .nil, rfl⟩
  | cons piece pieces ih =>
      obtain ⟨values, hvalues, hexpand⟩ := ih fun other hother => hplain other (List.mem_cons_of_mem piece hother)
      have hpiece : piece.IsPlain := hplain piece List.mem_cons_self
      rw [List.flatMap_cons, List.append_assoc]
      cases piece with
      | literal text =>
          have hdollar : '$' ∉ text := hpiece
          refine ⟨text :: values, .cons (.literal text) hvalues, ?_⟩
          rw [Piece.written, expandFrom_literal, hexpand, List.flatten_cons, List.append_assoc]
          rintro front back rfl
          simp at hdollar
      | reference name =>
          refine ⟨block.valueOf name :: values, .cons (block.standsFor_valueOf name) hvalues, ?_⟩
          rw [expandFrom_reference block hpiece, hexpand, List.flatten_cons, List.append_assoc]

/-! ## Every text -/

/-- A text that is not opened in itself is not opened by what begins with no brace. -/
theorem expandFrom_closed
    (block : EnvironmentBlock) {text rest : List Char} (htext : ¬ ['$', '\x7b'] <:+: text)
    (hrest : rest.head? ≠ some '\x7b') :
    block.expandFrom none (text ++ rest) = text ++ block.expandFrom none rest := by
  refine block.expandFrom_literal ?_
  rintro front back rfl
  cases back with
  | nil => exact hrest
  | cons char back =>
      intro hhead
      obtain rfl : char = '\x7b' := Option.some.inj hhead
      exact htext ⟨front, back, by simp⟩

/-- A text is read by its pieces as they are written. -/
theorem ReadAs.expandFrom
    {pieces : List Piece} {tail : Option (List Char)} (h : ReadAs pieces tail) (block : EnvironmentBlock) :
    ∃ values, List.Forall₂ block.StandsFor pieces values ∧
      block.expandFrom none (written pieces tail) = values.flatten ++ opened tail := by
  induction h with
  | @last text tail htext htail =>
      refine ⟨[text], .cons (.literal text) .nil, ?_⟩
      have hopened : (opened tail).head? ≠ some '\x7b' := by cases tail <;> simp [opened]
      have hscan := block.expandFrom_closed htext hopened
      rw [expandFrom_opened block htail] at hscan
      simpa [written, Piece.written] using hscan
  | @reference text name pieces tail htext hname _ ih =>
      obtain ⟨values, hvalues, hexpand⟩ := ih
      refine ⟨text :: block.valueOf name :: values,
        .cons (.literal text) (.cons (block.standsFor_valueOf name) hvalues), ?_⟩
      have hnext : ((Piece.reference name).written ++ written pieces tail).head? ≠ some '\x7b' := by
        simp [Piece.written]
      have hscan := block.expandFrom_closed htext hnext
      rw [expandFrom_reference block hname, hexpand] at hscan
      simpa [written, Piece.written] using hscan

/-- Either nothing is opened in a text, or it is cut where the first reference is. -/
theorem exists_first_opened (text : List Char) :
    ¬ ['$', '\x7b'] <:+: text ∨
      ∃ front back, text = front ++ '$' :: '\x7b' :: back ∧ ¬ ['$', '\x7b'] <:+: front := by
  induction text with
  | nil => exact Or.inl (by simp)
  | cons char text ih =>
      by_cases hhere : ['$', '\x7b'] <+: char :: text
      · obtain ⟨back, hback⟩ := hhere
        exact Or.inr ⟨[], back, hback.symm, by simp⟩
      · rcases ih with hclosed | ⟨front, back, rfl, hfront⟩
        · refine Or.inl fun hinfix => ?_
          exact (List.infix_cons_iff.mp hinfix).elim hhere hclosed
        · refine Or.inr ⟨char :: front, back, rfl, fun hinfix => ?_⟩
          refine (List.infix_cons_iff.mp hinfix).elim (fun hstart => hhere ?_) hfront
          exact hstart.trans (List.prefix_append (char :: front) _)

/-- Every text is read in pieces. -/
theorem exists_readAs (text : List Char) : ∃ pieces tail, ReadAs pieces tail ∧ written pieces tail = text := by
  induction hlength : text.length using Nat.strong_induction_on generalizing text with
  | _ length ih =>
      rcases exists_first_opened text with hclosed | ⟨front, back, rfl, hfront⟩
      · exact ⟨[.literal text], none, .last hclosed (by simp), by simp [written, Piece.written, opened]⟩
      · by_cases hend : '\x7d' ∈ back
        · obtain ⟨name, rest, rfl, hname⟩ := List.eq_append_cons_of_mem hend
          obtain ⟨pieces, tail, hread, hrest⟩ := ih rest.length (by simp at hlength; omega) rest rfl
          refine ⟨.literal front :: .reference name :: pieces, tail, .reference hfront hname hread, ?_⟩
          rw [← hrest]
          simp [written, Piece.written]
        · refine ⟨[.literal front], some back, .last hfront ?_, by simp [written, Piece.written, opened]⟩
          rintro name hname
          rwa [← Option.some.inj hname]

/-! ## The law -/

/-- **References are replaced in one pass.**  Literals and what is never closed are kept; a reference becomes the value of
its variable, as it is, or nothing if it has no name or its variable is not set or no text.  Every text can be read in
such pieces, once a literal may hold dollar signs that open nothing. -/
theorem expansion_law (block : EnvironmentBlock) :
    (∀ (pieces : List Piece) (tail : Option (List Char)),
      (∀ piece ∈ pieces, piece.IsPlain) → (∀ name, tail = some name → '\x7d' ∉ name) →
      ∃ values, List.Forall₂ block.StandsFor pieces values ∧
        block.expand (String.ofList (written pieces tail)) = String.ofList (values.flatten ++ opened tail)) ∧
    (∀ (piece : Piece) (first second : List Char),
      block.StandsFor piece first → block.StandsFor piece second → first = second) ∧
    ∀ text : String, ∃ pieces tail values, ReadAs pieces tail ∧ written pieces tail = text.toList ∧
      List.Forall₂ block.StandsFor pieces values ∧
      block.expand text = String.ofList (values.flatten ++ opened tail) := by
  refine ⟨?_, fun piece first second hfirst hsecond => hfirst.unique hsecond, ?_⟩
  · intro pieces tail hplain htail
    obtain ⟨values, hvalues, hexpand⟩ := block.expandFrom_pieces hplain (opened tail)
    refine ⟨values, hvalues, ?_⟩
    rw [expand, String.toList_ofList, written, hexpand, expandFrom_opened block htail]
  · intro text
    obtain ⟨pieces, tail, hread, htext⟩ := exists_readAs text.toList
    obtain ⟨values, hvalues, hexpand⟩ := hread.expandFrom block
    refine ⟨pieces, tail, values, hread, htext, hvalues, ?_⟩
    rw [expand, ← htext, hexpand]

/-- A value is not looked into again, the second entry with a name does not count, and what is no text is nothing. -/
example :
    (EnvironmentBlock.mk [Utf8.encode "A=$\x7bB\x7d", Utf8.encode "A=x", Utf8.encode "B=" ++ [0xFF]]).expand
      "$$\x7bA\x7d$\x7bB\x7d$\x7b\x7d$\x7b$\x7bA\x7d\x7d$\x7bA" = "$$\x7bB\x7d\x7d$\x7bA" := by
  decide +kernel

end EnvironmentBlock
end CompilerRelay
