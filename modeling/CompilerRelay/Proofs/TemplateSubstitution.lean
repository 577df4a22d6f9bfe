import CompilerRelay.Proofs.PackageLocation
import CompilerRelay.Template

/-!
# Markers, one after the other or all at once

A text of literals and markers becomes the same text with the value of each marker in its place.

**Input.**  Pieces of text, in any order and number: literals without a dollar sign, and markers.  Markers may stand
side by side, so that one dollar sign follows another.

**Algorithm.**  The markers are replaced in five passes, and each pass reads what the one before it has written.

**Invariant.**  Between two passes the text is still one of literals and markers: a value holds no dollar sign, so a
pass neither makes a marker nor breaks one.  The pass for two dollar signs is the first; it finds them where they
were written, because all other markers go on with a letter.

**Results.**
* `Text.replaceAll_append`, `Text.replaceAll_plain`, `Text.replaceAll_other`: what the search finds and passes over.
* `Template.replaceAll_written`: a pass replaces the pieces of its marker and no others.
* `Template.substitute_written`: the five passes are one replacement.
-/

namespace CompilerRelay
namespace Text

section Replace

variable {sought value : List Char}

theorem replaceAll_skip (skipped written rest : List Char) :
    replaceAll.go sought value skipped.length written (skipped ++ rest) =
      replaceAll.go sought value 0 written rest := by
  induction skipped with
  | nil => rfl
  | cons char skipped ih => exact ih

theorem replaceAll_written (skip : Nat) (written text : List Char) :
    replaceAll.go sought value skip written text =
      written.reverse ++ replaceAll.go sought value skip [] text := by
  induction text generalizing skip written with
  | nil => simp [replaceAll.go]
  | cons char rest ih =>
      cases skip with
      | succ skip =>
          simp only [replaceAll.go]
          exact ih skip written
      | zero =>
          simp only [replaceAll.go]
          split
          · rw [ih, ih _ (value.reverse ++ [])]
            simp
          · rw [ih, ih _ [char]]
            simp

/-- An occurrence at the beginning is replaced, and the search goes on after it. -/
theorem replaceAll_append
    (hsought : sought ≠ []) (rest : List Char) :
    replaceAll sought value (sought ++ rest) = value ++ replaceAll sought value rest := by
  cases sought with
  | nil => exact absurd rfl hsought
  | cons first more =>
      have hstart : (first :: more).isPrefixOf (first :: (more ++ rest)) = true := by
        rw [List.isPrefixOf_iff_prefix]
        exact ⟨rest, rfl⟩
      unfold replaceAll
      rw [List.cons_append, replaceAll.go, hstart, if_pos rfl, List.length_cons, Nat.add_sub_cancel,
        replaceAll_skip, replaceAll_written]
      simp

theorem replaceAll_cons
    {char : Char} {rest : List Char}
    (hstart : ¬ sought <+: char :: rest) :
    replaceAll sought value (char :: rest) = char :: replaceAll sought value rest := by
  have hfalse : sought.isPrefixOf (char :: rest) = false := by
    rw [← Bool.not_eq_true, List.isPrefixOf_iff_prefix]
    exact hstart
  unfold replaceAll
  rw [replaceAll.go, hfalse, if_neg (by decide), replaceAll_written]
  rfl

/-- No occurrence begins at characters other than the first of the sought text. -/
theorem replaceAll_plain
    {first : Char} {more plain : List Char}
    (hplain : first ∉ plain) (rest : List Char) :
    replaceAll (first :: more) value (plain ++ rest) =
      plain ++ replaceAll (first :: more) value rest := by
  induction plain with
  | nil => rfl
  | cons char plain ih =>
      have hstart : ¬ first :: more <+: char :: (plain ++ rest) := by
        intro hprefix
        obtain ⟨rfl, -⟩ := List.cons_prefix_cons.mp hprefix
        exact hplain (by simp)
      rw [List.cons_append, replaceAll_cons hstart, ih fun h => hplain (List.mem_cons_of_mem char h),
        List.cons_append]

/-- A text that goes on otherwise after its first character is passed over. -/
theorem replaceAll_other
    {first second other : Char} {more plain : List Char}
    (hsecond : second ≠ other) (hplain : first ∉ other :: plain) (rest : List Char) :
    replaceAll (first :: second :: more) value (first :: other :: plain ++ rest) =
      first :: other :: plain ++ replaceAll (first :: second :: more) value rest := by
  have hstart : ¬ first :: second :: more <+: first :: (other :: plain ++ rest) := by
    intro hprefix
    obtain ⟨-, hrest⟩ := List.cons_prefix_cons.mp hprefix
    exact hsecond (List.cons_prefix_cons.mp hrest).1
  rw [List.cons_append, replaceAll_cons hstart, replaceAll_plain hplain]
  rfl

end Replace
end Text

namespace Marker

/-- What follows the dollar sign that a marker begins with. -/
def tail (marker : Marker) : List Char :=
  marker.text.toList.tail

theorem text_eq (marker : Marker) : marker.text.toList = '$' :: marker.tail := by
  cases marker <;> rfl

/-- Markers differ in what follows the dollar sign, and in all but one of them there is no other dollar sign. -/
theorem tail_cases (marker : Marker) :
    ∃ second more, marker.tail = second :: more ∧
      (marker ≠ .shortcut → '$' ∉ second :: more) ∧
      ∀ other : Marker, other ≠ marker → other.tail.head? ≠ some second := by
  cases marker
  all_goals
    refine ⟨_, _, rfl, by decide, ?_⟩
    intro other hother
    cases other <;> first | exact absurd rfl hother | decide

end Marker

namespace Template

/-- A piece of the text of a template. -/
inductive Piece where
  | literal (text : List Char)
  | marker (kind : Marker)
  deriving DecidableEq, Repr

namespace Piece

/-- A piece as it is written. -/
def text : Piece → List Char
  | .literal text => text
  | .marker kind => kind.text.toList

/-- What becomes of a piece when markers have values. -/
def filled (value : Marker → List Char) : Piece → List Char
  | .literal text => text
  | .marker kind => value kind

/-- What becomes of a piece when one marker gets its value. -/
def fill (sought : Marker) (value : List Char) : Piece → Piece
  | .literal text => .literal text
  | .marker kind => if kind = sought then .literal value else .marker kind

end Piece

/-- The text that is written with pieces. -/
def written (pieces : List Piece) : List Char :=
  pieces.flatMap Piece.text

/-- No literal among pieces holds a dollar sign. -/
def Plain (pieces : List Piece) : Prop :=
  ∀ text, Piece.literal text ∈ pieces → '$' ∉ text

theorem plain_map_fill
    {pieces : List Piece} (h : Plain pieces)
    (sought : Marker) {value : List Char} (hvalue : '$' ∉ value) :
    Plain (pieces.map (Piece.fill sought value)) := by
  intro text htext
  obtain ⟨piece, hpiece, hfill⟩ := List.mem_map.mp htext
  cases piece with
  | literal other =>
      obtain rfl := Piece.literal.inj hfill
      exact h _ hpiece
  | marker marker =>
      by_cases hsame : marker = sought
      · rw [Piece.fill, if_pos hsame] at hfill
        obtain rfl := Piece.literal.inj hfill
        exact hvalue
      · rw [Piece.fill, if_neg hsame] at hfill
        cases hfill

/-- A pass replaces the pieces of its marker and no others, unless two dollar signs are left from before. -/
theorem replaceAll_written
    {pieces : List Piece} (hplain : Plain pieces)
    {sought : Marker} (hfirst : .marker .shortcut ∈ pieces → sought = .shortcut)
    (value : List Char) :
    Text.replaceAll sought.text.toList value (written pieces) =
      written (pieces.map (Piece.fill sought value)) := by
  induction pieces with
  | nil => rfl
  | cons piece rest ih =>
      have hrest := ih (fun text htext => hplain text (List.mem_cons_of_mem piece htext))
        fun hshortcut => hfirst (List.mem_cons_of_mem piece hshortcut)
      have hwritten : written (piece :: rest) = piece.text ++ written rest := rfl
      rw [hwritten, List.map_cons]
      change _ = (piece.fill sought value).text ++ written (rest.map _)
      rw [← hrest]
      cases piece with
      | literal text =>
          have hopen : '$' ∉ text := hplain text (by simp)
          rw [sought.text_eq]
          exact Text.replaceAll_plain hopen (written rest)
      | marker marker =>
          by_cases hsame : marker = sought
          · subst hsame
            have hnotNil : marker.text.toList ≠ [] := by simp [marker.text_eq]
            rw [Piece.fill, if_pos rfl]
            exact Text.replaceAll_append hnotNil _
          · -- Both begin with a dollar sign, so what tells them apart is the character after it.
            obtain ⟨second, more, htail, -, hdiffers⟩ := sought.tail_cases
            obtain ⟨other, plain, hother, hopen, -⟩ := marker.tail_cases
            have hsecond : second ≠ other := by
              rintro rfl
              exact hdiffers marker hsame (by rw [hother]; rfl)
            -- In the shortcut a second dollar sign would begin an occurrence, but it is gone by now.
            have hnamed : marker ≠ .shortcut := by
              rintro rfl
              exact hsame (hfirst (by simp)).symm
            rw [Piece.fill, if_neg hsame]
            change Text.replaceAll _ value (marker.text.toList ++ _) = marker.text.toList ++ _
            rw [marker.text_eq, sought.text_eq, hother, htail]
            exact Text.replaceAll_other hsecond (hopen hnamed) _

theorem flatMap_filled_map_fill
    (pieces : List Piece) (value : Marker → List Char) (sought : Marker) :
    (pieces.map (Piece.fill sought (value sought))).flatMap (Piece.filled value) =
      pieces.flatMap (Piece.filled value) := by
  rw [List.flatMap_map]
  refine List.flatMap_congr fun piece _ => ?_
  cases piece with
  | literal text => rfl
  | marker kind => by_cases hsame : kind = sought <;> simp [Piece.fill, Piece.filled, hsame]

theorem marker_mem_map_fill
    {pieces : List Piece} {sought marker : Marker} {value : List Char}
    (h : .marker marker ∈ pieces.map (Piece.fill sought value)) :
    .marker marker ∈ pieces ∧ marker ≠ sought := by
  obtain ⟨piece, hpiece, hfill⟩ := List.mem_map.mp h
  cases piece with
  | literal text => cases hfill
  | marker other =>
      by_cases hsame : other = sought
      · rw [Piece.fill, if_pos hsame] at hfill
        cases hfill
      · rw [Piece.fill, if_neg hsame] at hfill
        obtain rfl := Piece.marker.inj hfill
        exact ⟨hpiece, hsame⟩

/-- Passes replace all the markers that they are made for. -/
theorem foldl_apply_written
    {package : Package} {value : Marker → List Char}
    (hvalue : ∀ marker : Marker, marker.value? package = some (value marker))
    (hplainValue : ∀ marker, '$' ∉ value marker)
    {markers : List Marker} {pieces : List Piece} (hplain : Plain pieces)
    (hcovered : ∀ marker, .marker marker ∈ pieces → marker ∈ markers)
    (hfirst : .marker .shortcut ∈ pieces → markers.head? = some .shortcut) :
    markers.foldl (Marker.apply package) (written pieces) = pieces.flatMap (Piece.filled value) := by
  induction markers generalizing pieces with
  | nil =>
      have hliteral : ∀ piece ∈ pieces, piece.text = piece.filled value := by
        intro piece hpiece
        cases piece with
        | literal text => rfl
        | marker marker => cases hcovered marker hpiece
      simp only [List.foldl_nil, written, List.flatMap_def]
      rw [List.map_congr_left hliteral]
  | cons sought later ih =>
      have hpass : sought.apply package (written pieces) =
          written (pieces.map (Piece.fill sought (value sought))) := by
        unfold Marker.apply
        rw [hvalue]
        exact replaceAll_written hplain (fun h => by simpa using hfirst h) _
      -- If the shortcut is there at all, this is its pass: none of the later ones meets it.
      have hgone : .marker .shortcut ∉ pieces.map (Piece.fill sought (value sought)) := by
        intro hmem
        obtain ⟨hbefore, hother⟩ := marker_mem_map_fill hmem
        exact hother (by simpa using (hfirst hbefore).symm)
      have hleft : ∀ marker, .marker marker ∈ pieces.map (Piece.fill sought (value sought)) →
          marker ∈ later := by
        intro marker hmem
        obtain ⟨hbefore, hother⟩ := marker_mem_map_fill hmem
        exact (List.mem_cons.mp (hcovered marker hbefore)).resolve_left hother
      rw [List.foldl_cons, hpass,
        ih (plain_map_fill hplain sought (hplainValue sought)) hleft (fun h => absurd h hgone),
        flatMap_filled_map_fill]

end Template

namespace Marker

/-- What a marker stands for in a package of at least two names. -/
def meaning (first second : List Char) (rest : List (List Char)) : Marker → List Char
  | .shortcut | .customExtension => second
  | .wholePackage => Text.join ['.'] (first :: second :: rest)
  | .parentPackage =>
      Text.join ['.'] (if rest = [] then [first, second] else (first :: second :: rest).dropLast)
  | .rootPackage => first ++ '.' :: second

theorem value?_of_names
    {first second : List Char} {rest : List (List Char)}
    (hnames : ∀ name ∈ first :: second :: rest, IsDirectoryName name) (marker : Marker) :
    marker.value? ⟨Text.join ['.'] (first :: second :: rest)⟩ =
      some (marker.meaning first second rest) := by
  have hsegments := Package.segments_of_names hnames
  cases marker with
  | shortcut => simp [value?, Package.segment?, hsegments, meaning]
  | customExtension => simp [value?, Package.segment?, hsegments, meaning]
  | wholePackage => rfl
  | parentPackage =>
      simp only [value?, Package.parent, hsegments, meaning]
      cases rest with
      | nil => simp
      | cons third rest => simp
  | rootPackage =>
      simp only [value?, Package.leading?, hsegments, meaning]
      simp [Text.join]

theorem dollar_notMem_meaning
    {first second : List Char} {rest : List (List Char)}
    (hnames : ∀ name ∈ first :: second :: rest, IsDirectoryName name) (marker : Marker) :
    '$' ∉ marker.meaning first second rest := by
  have hjoin {names : List (List Char)} (hsub : ∀ name ∈ names, name ∈ first :: second :: rest) :
      '$' ∉ Text.join ['.'] names := by
    intro hmem
    rcases Text.mem_of_mem_join hmem with hdot | ⟨name, hname, hmem⟩
    · exact absurd hdot (by decide)
    · exact (hnames name (hsub name hname)).no_dollar hmem
  cases marker with
  | shortcut => exact (hnames second (by simp)).no_dollar
  | customExtension => exact (hnames second (by simp)).no_dollar
  | wholePackage => exact hjoin fun name hname => hname
  | parentPackage =>
      refine hjoin fun name hname => ?_
      split at hname
      · next hrest => simpa [hrest] using hname
      · exact List.mem_of_mem_dropLast hname
  | rootPackage =>
      have htwo : '$' ∉ Text.join ['.'] [first, second] := hjoin (by simp)
      simpa [Text.join, meaning] using htwo

end Marker

namespace Template

/-- **The five passes are one replacement.**  In the text of a template, each marker becomes what it stands for in the
package that the directories make, and everything else stays, however the root is spelled. -/
theorem substitute_written
    {other root : Path} (hroot : other.Respells root)
    {first second file : List Char} {rest : List (List Char)}
    (hnames : ∀ name ∈ first :: second :: rest, IsDirectoryName name) (hfile : IsFileName file)
    {pieces : List Piece} (hplain : Plain pieces) :
    substitute other ((root.below (first :: second :: rest)).join ⟨String.ofList file⟩)
        (written pieces) =
      pieces.flatMap (Piece.filled (Marker.meaning first second rest)) := by
  unfold substitute
  rw [Package.derive_below hroot hnames hfile]
  exact foldl_apply_written (Marker.value?_of_names hnames) (Marker.dollar_notMem_meaning hnames) hplain
    (fun marker _ => by cases marker <;> simp [Marker.all]) fun _ => rfl

/-- Three dollar signs are a shortcut and the beginning of the marker after it, and the root is spelled otherwise. -/
theorem substitute_written_adjacent :
    Path.Respells ⟨"/CM/Home//"⟩ ⟨"/cm/home"⟩ ∧
    substitute ⟨"/CM/Home//"⟩ ⟨"/cm/home/a/b/c/x.cmx"⟩ "$$$dynamicPackageName$$ $parentPackageName".toList =
      "ba.b.cb a.b".toList := by
  have hroot : Path.Respells ⟨"/CM/Home//"⟩ ⟨"/cm/home"⟩ := ⟨2, by decide⟩
  have hnames : ∀ name ∈ [['a'], ['b'], ['c']], IsDirectoryName name := by
    intro name hname
    have hcases : name = ['a'] ∨ name = ['b'] ∨ name = ['c'] := by simpa using hname
    rcases hcases with rfl | rfl | rfl <;> constructor <;> decide
  have hfile : IsFileName "x.cmx".toList := by constructor <;> decide
  have hplain : Plain [.marker .shortcut, .marker .wholePackage, .marker .shortcut, .literal [' '],
      .marker .parentPackage] := by
    intro text htext
    obtain rfl : text = [' '] := by simpa using htext
    decide
  have hplace : (Path.below ⟨"/cm/home"⟩ [['a'], ['b'], ['c']]).join ⟨String.ofList "x.cmx".toList⟩ =
      ⟨"/cm/home/a/b/c/x.cmx"⟩ := by decide +kernel
  have htext : "$$$dynamicPackageName$$ $parentPackageName".toList =
      written [.marker .shortcut, .marker .wholePackage, .marker .shortcut, .literal [' '],
        .marker .parentPackage] := by decide +kernel
  refine ⟨hroot, ?_⟩
  rw [htext, ← hplace, substitute_written hroot hnames hfile hplain]
  decide +kernel

end Template
end CompilerRelay
