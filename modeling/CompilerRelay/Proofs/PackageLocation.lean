import CompilerRelay.Package
import Mathlib.Tactic

/-!
# Packages by their place

The package of a file is told by the directories on the way from the root of the project to the file.

**Input.**  A root, the names of directories below it, and the name of a file in the last of them.  The root may be
spelled with other slashes at its end, and with other cases of its ASCII letters, than in the path of the file.

**Algorithm.**  The path of the file is cut at its slashes.  Whatever the root looks like, the directory of the file
is the text of the root, a slash unless there is one, and the names with slashes between them.

**Results.**
* `Text.namesIn_join_of_parts`: names are what a text of names is cut into.
* `Path.parent?_of_parts`, `Path.parent?_join`: a file stands in the directory that its name was appended to.
* `Package.derive_of_names`, `Package.derive_below`: the package is the names with dots between them.
-/

namespace CompilerRelay
namespace Text

variable {α : Type} [DecidableEq α]

/-- Names without the separator are what their text is cut into. -/
theorem splitOn_join
    {separator : α} {name : List α} {names : List (List α)}
    (hopen : ∀ other ∈ name :: names, separator ∉ other) :
    splitOn separator (join [separator] (name :: names)) = name :: names := by
  induction names generalizing name with
  | nil => simpa [join] using splitOn_of_notMem (hopen name (by simp))
  | cons second rest ih =>
      have hname : splitOn separator name = [name] := splitOn_of_notMem (hopen name (by simp))
      have hrest := ih fun other hother => hopen other (List.mem_cons_of_mem name hother)
      rw [join_cons_cons, List.singleton_append, splitOn_append_cons, hname, hrest]
      rfl

omit [DecidableEq α] in
theorem mem_of_mem_join
    {separator char : α} {pieces : List (List α)}
    (h : char ∈ join [separator] pieces) :
    char = separator ∨ ∃ piece ∈ pieces, char ∈ piece := by
  induction pieces with
  | nil => simp [join] at h
  | cons piece rest ih =>
      cases rest with
      | nil => exact Or.inr ⟨piece, by simp, by simpa [join] using h⟩
      | cons second rest =>
          rw [join_cons_cons, List.mem_append, List.mem_append, List.mem_singleton] at h
          rcases h with hpiece | hseparator | hrest
          · exact Or.inr ⟨piece, by simp, hpiece⟩
          · exact Or.inl hseparator
          · rcases ih hrest with hseparator | ⟨other, hother, hchar⟩
            · exact Or.inl hseparator
            · exact Or.inr ⟨other, List.mem_cons_of_mem piece hother, hchar⟩

/-- The names in a text of names: its pieces but for the empty ones. -/
def namesIn (separator : α) (text : List α) : List (List α) :=
  (splitOn separator text).filter (· ≠ [])

@[simp] theorem namesIn_nil (separator : α) : namesIn separator [] = [] := rfl

theorem namesIn_append_cons (separator : α) (first second : List α) :
    namesIn separator (first ++ separator :: second) = namesIn separator first ++ namesIn separator second := by
  simp [namesIn, splitOn_append_cons]

theorem namesIn_cons (separator : α) (text : List α) :
    namesIn separator (separator :: text) = namesIn separator text :=
  namesIn_append_cons separator [] text

theorem namesIn_replicate (separator : α) (count : Nat) (text : List α) :
    namesIn separator (List.replicate count separator ++ text) = namesIn separator text := by
  induction count with
  | zero => rfl
  | succ count ih => rw [List.replicate_succ, List.cons_append, namesIn_cons, ih]

/-- The names in names that were joined. -/
theorem namesIn_join (separator : α) (pieces : List (List α)) :
    namesIn separator (join [separator] pieces) = pieces.flatMap (namesIn separator) := by
  induction pieces with
  | nil => rfl
  | cons piece rest ih =>
      cases rest with
      | nil => simp [join]
      | cons second rest =>
          rw [join_cons_cons, List.singleton_append, namesIn_append_cons, ih]
          rfl

/-- A name of a part: it is not empty and holds no separator. -/
structure IsPart (separator : α) (name : List α) : Prop where
  ne_nil : name ≠ []
  separator_notMem : separator ∉ name

theorem IsPart.namesIn_eq
    {separator : α} {name : List α} (h : IsPart separator name) :
    namesIn separator name = [name] := by
  simp [namesIn, splitOn_of_notMem h.separator_notMem, h.ne_nil]

/-- Names are what a text of names is cut into. -/
theorem namesIn_join_of_parts
    {separator : α} {names : List (List α)} (hparts : ∀ name ∈ names, IsPart separator name) :
    namesIn separator (join [separator] names) = names := by
  rw [namesIn_join]
  induction names with
  | nil => rfl
  | cons name rest ih =>
      obtain ⟨hname, hrest⟩ := List.forall_mem_cons.mp hparts
      rw [List.flatMap_cons, hname.namesIn_eq, ih hrest]
      rfl

/-- A text with a slash for every backslash. -/
def slashed (text : List Char) : List Char :=
  text.map fun char => if char = '\\' then '/' else char

theorem slashed_append (first second : List Char) : slashed (first ++ second) = slashed first ++ slashed second :=
  List.map_append

theorem slashed_join (pieces : List (List Char)) :
    slashed (join ['/'] pieces) = join ['/'] (pieces.map slashed) := by
  induction pieces with
  | nil => rfl
  | cons piece rest ih =>
      cases rest with
      | nil => simp [join]
      | cons second rest =>
          rw [join_cons_cons, slashed_append, slashed_append, ih]
          exact (join_cons_cons ['/'] (slashed piece) (slashed second) (rest.map slashed)).symm

theorem slashed_eq_self
    {text : List Char} (h : '\\' ∉ text) :
    slashed text = text := by
  refine (List.map_congr_left fun char hchar => if_neg ?_).trans (List.map_id text)
  rintro rfl
  exact h hchar

end Text

namespace Path

theorem eq_of_toList
    {first second : Path} (h : first.text.toList = second.text.toList) :
    first = second := by
  cases first
  cases second
  exact congrArg mk (String.toList_injective h)

/-! ## Appending names -/

/-- The path that leads from a directory down through directories with names. -/
def below (root : Path) (names : List (List Char)) : Path :=
  names.foldl (fun path name => path.join ⟨String.ofList name⟩) root

theorem below_append_singleton (root : Path) (names : List (List Char)) (name : List Char) :
    root.below (names ++ [name]) = (root.below names).join ⟨String.ofList name⟩ := by
  simp [below]

/-- What stands between a path and a name that is appended to it. -/
def gap (path : Path) : List Char :=
  match path.text.toList.getLast? with
  | none | some '/' => []
  | some _ => ['/']

theorem join_name
    (path : Path) {name : List Char}
    (hname : Text.IsPart '/' name) :
    (path.join ⟨String.ofList name⟩).text.toList = path.text.toList ++ path.gap ++ name := by
  have hrelative : isAbsolute ⟨String.ofList name⟩ = false := by
    obtain ⟨hne, hopen⟩ := hname
    cases name with
    | nil => exact absurd rfl hne
    | cons char rest =>
        have hchar : char ≠ '/' := fun h => hopen (by simp [h])
        simpa [isAbsolute] using hchar
  unfold join gap
  rw [hrelative, if_neg (by decide)]
  cases hlast : path.text.toList.getLast? with
  | none => simp
  | some last => by_cases hslash : last = '/' <;> simp [hslash]

theorem gap_join
    (path : Path) {name : List Char}
    (hname : Text.IsPart '/' name) :
    (path.join ⟨String.ofList name⟩).gap = ['/'] := by
  obtain ⟨hne, hopen⟩ := hname
  have hlast : (path.join ⟨String.ofList name⟩).text.toList.getLast? = some (name.getLast hne) := by
    rw [join_name path ⟨hne, hopen⟩, List.getLast?_append, List.getLast?_eq_some_getLast hne]
    rfl
  have hslash : name.getLast hne ≠ '/' := fun h => hopen (h ▸ List.getLast_mem hne)
  unfold gap
  rw [hlast]
  split
  · next h => cases h
  · next h => exact absurd (Option.some.inj h) hslash
  · rfl

/-- Below a directory, names have slashes between them. -/
theorem below_text
    (root : Path) {name : List Char} {names : List (List Char)}
    (hparts : ∀ other ∈ name :: names, Text.IsPart '/' other) :
    (root.below (name :: names)).text.toList =
      root.text.toList ++ root.gap ++ Text.join ['/'] (name :: names) := by
  induction names generalizing root name with
  | nil => simpa [below, Text.join] using join_name root (hparts name (by simp))
  | cons second rest ih =>
      have hname := hparts name (by simp)
      have hrest := ih (root.join ⟨String.ofList name⟩)
        fun other hother => hparts other (List.mem_cons_of_mem name hother)
      calc (root.below (name :: second :: rest)).text.toList
          = ((root.join ⟨String.ofList name⟩).below (second :: rest)).text.toList := rfl
        _ = root.text.toList ++ root.gap ++ name ++ ['/'] ++ Text.join ['/'] (second :: rest) := by
            rw [hrest, gap_join root hname, join_name root hname]
        _ = _ := by
            rw [Text.join_cons_cons]
            simp

/-! ## The directory of a file -/

/-- The text of a path is put together again from the parts that it was cut into. -/
theorem ofShape_ofParts
    {parts : List (List Char)}
    (hparts : parts ≠ []) :
    ofShape (Shape.ofParts parts) = ⟨String.ofList (Text.join ['/'] parts)⟩ := by
  unfold Shape.ofParts
  split
  · simp [ofShape, Text.join]
  · next rest =>
      cases rest with
      | nil => rfl
      | cons part rest => simp [ofShape, Text.join]
  · rfl

/-- The anchor is read off the first part, and a name that is no filler is never an anchor. -/
theorem ofParts_append (parts : List (List Char)) :
    ∃ anchor body, ∀ name rest, isFiller name = false →
      Shape.ofParts (parts ++ name :: rest) = ⟨anchor, body ++ name :: rest⟩ := by
  cases parts with
  | nil =>
      refine ⟨.nothing, [], fun name rest hname => ?_⟩
      have hne : name ≠ [] ∧ name ≠ ['.'] := by simpa [isFiller] using hname
      simp only [List.nil_append]
      unfold Shape.ofParts
      split
      · exact absurd (by simp_all) hne.1
      · exact absurd (by simp_all) hne.2
      · rfl
  | cons part parts =>
      by_cases hroot : part = []
      · subst hroot
        refine ⟨.root, parts, fun name rest _ => ?_⟩
        cases parts <;> rfl
      · by_cases hcurrent : part = ['.']
        · subst hcurrent
          exact ⟨.current, parts, fun name rest _ => rfl⟩
        · refine ⟨.nothing, part :: parts, fun name rest _ => ?_⟩
          simp only [List.cons_append]
          unfold Shape.ofParts
          split
          · exact absurd (by simp_all) hroot
          · exact absurd (by simp_all) hcurrent
          · rfl

/-- What stands after the last name is trimmed. -/
theorem trimFillers_append_fillers
    (body : List (List Char)) {name : List Char} (hname : isFiller name = false) {fillers : List (List Char)}
    (hfillers : ∀ part ∈ fillers, isFiller part = true) :
    trimFillers (body ++ name :: fillers) = body ++ [name] := by
  have hdropped : (fillers.reverse ++ (name :: body.reverse)).dropWhile isFiller = name :: body.reverse := by
    rw [List.dropWhile_append_of_pos fun part hpart => hfillers part (List.mem_reverse.mp hpart)]
    simp [hname]
  have hreverse : (body ++ name :: fillers).reverse = fillers.reverse ++ (name :: body.reverse) := by simp
  rw [trimFillers, hreverse, hdropped]
  simp

/-- The parent of a path ends with the last name before that of the path, whatever fillers stand after either. -/
theorem parent?_of_parts
    {path : Path} {parts fillers ends : List (List Char)} {name last : List Char}
    (hparts : Text.splitOn '/' path.text.toList = parts ++ name :: (fillers ++ last :: ends))
    (hname : isFiller name = false) (hlast : isFiller last = false)
    (hfillers : ∀ part ∈ fillers, isFiller part = true) (hends : ∀ part ∈ ends, isFiller part = true) :
    path.parent? = some ⟨String.ofList (Text.join ['/'] (parts ++ [name]))⟩ := by
  obtain ⟨anchor, body, hshape⟩ := ofParts_append parts
  have hbody : path.shape = ⟨anchor, (body ++ name :: fillers) ++ last :: ends⟩ := by
    rw [shape, hparts, hshape name _ hname]
    simp
  have hparent : path.parent? = some (ofShape ⟨anchor, body ++ [name]⟩) := by
    unfold parent?
    rw [hbody]
    simp only [trimFillers_append_fillers (body ++ name :: fillers) hlast hends]
    split
    · next h => simp at h
    · next h _ => simp at h
    · rw [List.dropLast_concat, trimFillers_append_fillers body hname hfillers]
  rw [hparent, ← hshape name [] hname, ofShape_ofParts (by simp)]

/-- A path with a name appended is cut into its own parts and the name. -/
theorem splitOn_join_name
    (path : Path) {name : List Char}
    (hname : Text.IsPart '/' name) :
    ∃ parts, Text.splitOn '/' (path.join ⟨String.ofList name⟩).text.toList = parts ++ [name] := by
  have hcut : Text.splitOn '/' name = [name] := Text.splitOn_of_notMem hname.separator_notMem
  rw [join_name path hname]
  unfold gap
  split
  · next h =>
      rw [List.getLast?_eq_none_iff.mp h]
      exact ⟨[], by simpa using hcut⟩
  · next h =>
      obtain ⟨front, hfront⟩ := List.getLast?_eq_some_iff.mp h
      refine ⟨Text.splitOn '/' front, ?_⟩
      rw [hfront, List.append_nil, List.append_assoc, List.singleton_append,
        Text.splitOn_append_cons, hcut]
  · refine ⟨Text.splitOn '/' path.text.toList, ?_⟩
    rw [List.append_assoc, List.singleton_append, Text.splitOn_append_cons, hcut]

/-- A file stands in the directory that its name was appended to. -/
theorem parent?_join
    (path : Path) {name file : List Char}
    (hname : Text.IsPart '/' name) (hnamed : name ≠ ['.'])
    (hfile : Text.IsPart '/' file) (hfiled : file ≠ ['.']) :
    ((path.join ⟨String.ofList name⟩).join ⟨String.ofList file⟩).parent? =
      some (path.join ⟨String.ofList name⟩) := by
  obtain ⟨parts, hparts⟩ := splitOn_join_name path hname
  have hnameFiller : isFiller name = false := by simp [isFiller, hname.ne_nil, hnamed]
  have hfileFiller : isFiller file = false := by simp [isFiller, hfile.ne_nil, hfiled]
  have hcut : Text.splitOn '/'
      ((path.join ⟨String.ofList name⟩).join ⟨String.ofList file⟩).text.toList =
        parts ++ [name, file] := by
    rw [join_name _ hfile, gap_join path hname, List.append_assoc, List.singleton_append,
      Text.splitOn_append_cons, hparts, Text.splitOn_of_notMem hfile.separator_notMem]
    simp
  have hparent : ((path.join ⟨String.ofList name⟩).join ⟨String.ofList file⟩).parent? =
      some ⟨String.ofList (Text.join ['/'] (parts ++ [name]))⟩ :=
    parent?_of_parts hcut hnameFiller hfileFiller (List.forall_mem_nil _) (List.forall_mem_nil _)
  rw [hparent, ← hparts, Text.join_splitOn, String.ofList_toList]

/-! ## Spellings of the root -/

/-- A path that is spelled like another, but for more slashes at its end and the case of ASCII letters. -/
def Respells (other root : Path) : Prop :=
  ∃ slashes, other.text.toList.map Char.toLower =
    (root.text.toList ++ List.replicate slashes '/').map Char.toLower

/-- A letter in upper case becomes one in lower case, and no other character changes. -/
theorem toLower_cases (char : Char) :
    char.toLower = char ∨
      (65 ≤ char.toNat ∧ char.toNat ≤ 90) ∧ 97 ≤ char.toLower.toNat ∧ char.toLower.toNat ≤ 122 := by
  by_cases hupper : char.val ≥ 'A'.val ∧ char.val ≤ 'Z'.val
  · right
    have hleast : 65 ≤ char.val.toNat := UInt32.le_iff_toNat_le.mp hupper.1
    have hmost : char.val.toNat ≤ 90 := UInt32.le_iff_toNat_le.mp hupper.2
    have hlower : char.toLower.val.toNat = char.val.toNat + 32 := by
      have hvalue : char.toLower.val = char.val + 32 := congrArg Char.val (dif_pos hupper)
      rw [hvalue, UInt32.toNat_add]
      exact Nat.mod_eq_of_lt (show char.val.toNat + 32 < 4294967296 by omega)
    change (65 ≤ char.val.toNat ∧ char.val.toNat ≤ 90) ∧
      97 ≤ char.toLower.val.toNat ∧ char.toLower.val.toNat ≤ 122
    omega
  · exact Or.inl (dif_neg hupper)

theorem toLower_eq_iff
    (char : Char) {sign : Char}
    (hupper : ¬ (65 ≤ sign.toNat ∧ sign.toNat ≤ 90)) (hlower : ¬ (97 ≤ sign.toNat ∧ sign.toNat ≤ 122)) :
    char.toLower = sign ↔ char = sign := by
  rcases toLower_cases char with hsame | ⟨hletter, hlowered⟩
  · rw [hsame]
  · constructor
    · rintro rfl
      exact absurd hlowered hlower
    · rintro rfl
      exact absurd hletter hupper

theorem toLower_eq_slash (char : Char) : char.toLower = '/' ↔ char = '/' :=
  toLower_eq_iff char (by decide) (by decide)

theorem toLower_eq_backslash (char : Char) : char.toLower = '\\' ↔ char = '\\' :=
  toLower_eq_iff char (by decide) (by decide)

theorem map_toLower_slashed (path : Path) :
    path.slashed.map Char.toLower =
      (path.text.toList.map Char.toLower).map fun char => if char = '\\' then '/' else char := by
  simp only [slashed, List.map_map, List.map_inj_left, Function.comp_apply, toLower_eq_backslash]
  intro char _
  by_cases hback : char = '\\' <;> simp [hback]

theorem Respells.slashed
    {other root : Path}
    (h : other.Respells root) :
    ∃ slashes, other.slashed.map Char.toLower =
      (root.slashed ++ List.replicate slashes '/').map Char.toLower := by
  obtain ⟨slashes, hslashes⟩ := h
  refine ⟨slashes, ?_⟩
  rw [map_toLower_slashed, hslashes, List.map_append, List.map_append, List.map_append,
    ← map_toLower_slashed]
  simp

/-- A text without the slashes at its end. -/
def bare (text : List Char) : List Char :=
  (text.reverse.dropWhile (· = '/')).reverse

theorem bare_append_replicate (text : List Char) (count : Nat) :
    bare (text ++ List.replicate count '/') = bare text := by
  unfold bare
  rw [List.reverse_append, List.reverse_replicate, List.dropWhile_append_of_pos]
  intro char hchar
  simpa using List.eq_of_mem_replicate hchar

theorem exists_eq_bare (text : List Char) :
    ∃ count, text = bare text ++ List.replicate count '/' := by
  have hslashes : text.reverse.takeWhile (· = '/') =
      List.replicate (text.reverse.takeWhile (· = '/')).length '/' := by
    rw [List.eq_replicate_iff]
    exact ⟨rfl, fun char hchar => by simpa using List.all_eq_true.mp List.all_takeWhile char hchar⟩
  refine ⟨(text.reverse.takeWhile (· = '/')).length, ?_⟩
  have hsplit := congrArg List.reverse (List.takeWhile_append_dropWhile (p := (· = '/')) (l := text.reverse))
  rw [List.reverse_append, List.reverse_reverse, hslashes, List.reverse_replicate] at hsplit
  exact hsplit.symm

theorem map_toLower_bare (text : List Char) :
    (bare text).map Char.toLower = bare (text.map Char.toLower) := by
  unfold bare
  rw [← List.map_reverse, List.dropWhile_map, ← List.map_reverse]
  simp only [Function.comp_def, toLower_eq_slash]

/-- However the root is spelled, what is left without slashes at its end is the same but for the case. -/
theorem Respells.bareSlashed
    {other root : Path}
    (h : other.Respells root) :
    other.bareSlashed.map Char.toLower = root.bareSlashed.map Char.toLower := by
  obtain ⟨slashes, hslashes⟩ := h.slashed
  calc other.bareSlashed.map Char.toLower
      = bare (other.slashed.map Char.toLower) := map_toLower_bare other.slashed
    _ = bare ((root.slashed ++ List.replicate slashes '/').map Char.toLower) := by rw [hslashes]
    _ = (bare (root.slashed ++ List.replicate slashes '/')).map Char.toLower :=
        (map_toLower_bare _).symm
    _ = root.bareSlashed.map Char.toLower := by
        rw [bare_append_replicate]
        rfl

/-- With what stands between it and a name, a root is itself without slashes at its end, and slashes. -/
theorem slashed_append_gap (root : Path) :
    ∃ count, root.slashed ++ root.gap = root.bareSlashed ++ List.replicate count '/' ∧
      (root.bareSlashed = [] ∨ count ≠ 0) := by
  unfold gap
  split
  · next hempty =>
      have htext : root.text.toList = [] := List.getLast?_eq_none_iff.mp hempty
      exact ⟨0, by simp [Path.bareSlashed, Path.slashed, htext]⟩
  · next hslash =>
      obtain ⟨front, hfront⟩ := List.getLast?_eq_some_iff.mp hslash
      let slashedFront := front.map fun char => if char = '\\' then '/' else char
      have hslashed : root.slashed = slashedFront ++ List.replicate 1 '/' := by
        simp [Path.slashed, hfront, slashedFront]
      obtain ⟨count, hcount⟩ := exists_eq_bare slashedFront
      have hbare : root.bareSlashed = bare slashedFront := by
        rw [← bare_append_replicate slashedFront 1, ← hslashed]
        rfl
      refine ⟨count + 1, ?_, Or.inr (by omega)⟩
      rw [List.append_nil, hbare, hslashed, List.replicate_add, ← List.append_assoc, ← hcount]
  · obtain ⟨count, hcount⟩ := exists_eq_bare root.slashed
    refine ⟨count + 1, ?_, Or.inr (by omega)⟩
    rw [List.replicate_add, ← List.append_assoc]
    exact congrArg (· ++ ['/']) hcount

end Path

/-! ## The package -/

/-- The name of a directory that packages are made of. -/
structure IsDirectoryName (name : List Char) : Prop where
  ne_nil : name ≠ []
  no_slash : '/' ∉ name
  no_backslash : '\\' ∉ name
  no_dot : '.' ∉ name
  no_dollar : '$' ∉ name

/-- The name of a file. -/
structure IsFileName (name : List Char) : Prop where
  ne_nil : name ≠ []
  no_slash : '/' ∉ name
  ne_current : name ≠ ['.']
  ne_parent : name ≠ ['.', '.']

instance (name : List Char) : Decidable (IsFileName name) :=
  decidable_of_iff (name ≠ [] ∧ '/' ∉ name ∧ name ≠ ['.'] ∧ name ≠ ['.', '.'])
    ⟨fun ⟨hnil, hslash, hcurrent, hparent⟩ => ⟨hnil, hslash, hcurrent, hparent⟩,
      fun h => ⟨h.ne_nil, h.no_slash, h.ne_current, h.ne_parent⟩⟩

namespace IsDirectoryName

theorem isPart
    {name : List Char}
    (h : IsDirectoryName name) :
    Text.IsPart '/' name :=
  ⟨h.ne_nil, h.no_slash⟩

theorem isSegment
    {name : List Char}
    (h : IsDirectoryName name) :
    Text.IsPart '.' name :=
  ⟨h.ne_nil, h.no_dot⟩

theorem ne_current
    {name : List Char}
    (h : IsDirectoryName name) :
    name ≠ ['.'] := by
  rintro rfl
  exact h.no_dot (by simp)

end IsDirectoryName

theorem Path.slashed_below
    {root : Path} {name : List Char} {names : List (List Char)}
    (hparts : ∀ part ∈ name :: names, Text.IsPart '/' part) :
    (root.below (name :: names)).slashed =
      root.slashed ++ root.gap ++ Text.slashed (Text.join ['/'] (name :: names)) := by
  have hgap : Text.slashed root.gap = root.gap := by
    unfold Path.gap
    split <;> rfl
  change Text.slashed (root.below (name :: names)).text.toList = Text.slashed root.text.toList ++ _ ++ _
  rw [Path.below_text _ hparts, Text.slashed_append, Text.slashed_append, hgap]

namespace Package

/-- A start is found in a text that is spelled like it but for the case. -/
theorem stripStartCaseless?_append
    {start text : List Char}
    (h : start.map Char.toLower = text.map Char.toLower) (rest : List Char) :
    stripStartCaseless? start (text ++ rest) = some rest := by
  induction start generalizing text with
  | nil =>
      obtain rfl : text = [] := by simpa using h.symm
      rfl
  | cons expected start ih =>
      cases text with
      | nil => cases h
      | cons char text =>
          obtain ⟨hchar, hrest⟩ := List.cons.inj h
          rw [List.cons_append, stripStartCaseless?, if_pos hchar, ih hrest]

/-- The package of the directories with names, in which a backslash stands for a slash. -/
def ofNames (names : List (List Char)) : Package :=
  ⟨Text.join ['.'] (names.flatMap fun name => Text.namesIn '/' (Text.slashed name))⟩

theorem derive_eq (root file : Path) :
    derive root file =
      ⟨Text.join ['.'] (Text.namesIn '/' (relativeTo root.bareSlashed ((file.parent?.map Path.slashed).getD [])))⟩ :=
  rfl

/-- The root is taken off a directory that it is spelled in, whatever slashes follow and however it is spelled. -/
theorem namesIn_relativeTo
    {other root : Path} (h : other.Respells root) {count : Nat} {rest : List Char}
    (hbelow : root.bareSlashed = [] ∨ count ≠ 0) :
    Text.namesIn '/' (relativeTo other.bareSlashed (root.bareSlashed ++ (List.replicate count '/' ++ rest))) =
      Text.namesIn '/' rest := by
  unfold relativeTo
  rw [stripStartCaseless?_append h.bareSlashed, ← Text.namesIn_replicate '/' count rest]
  rcases hbelow with hroot | hcount
  · simp [hroot]
  · obtain ⟨more, rfl⟩ := Nat.exists_eq_succ_of_ne_zero hcount
    simp [isBelow, List.replicate_succ]

/-- The package of a file is that of the directories that lead to it. -/
theorem derive_of_names
    {other root : Path} (h : other.Respells root) {name file : List Char} {names : List (List Char)}
    (hparts : ∀ part ∈ name :: names, Text.IsPart '/' part) (hnamed : ∀ part ∈ name :: names, part ≠ ['.'])
    (hfile : IsFileName file) :
    derive other ((root.below (name :: names)).join ⟨String.ofList file⟩) = ofNames (name :: names) := by
  have hparent : ((root.below (name :: names)).join ⟨String.ofList file⟩).parent? =
      some (root.below (name :: names)) := by
    -- The induction of `below_text` goes from the root down; the parent needs the last name instead.
    obtain ⟨front, last, hsplit⟩ := List.eq_nil_or_concat' (name :: names) |>.resolve_left (by simp)
    have hmem : last ∈ name :: names := by simp [hsplit]
    rw [hsplit, Path.below_append_singleton]
    exact Path.parent?_join _ (hparts last hmem) (hnamed last hmem) ⟨hfile.ne_nil, hfile.no_slash⟩ hfile.ne_current
  obtain ⟨count, hcount, hbelow⟩ := Path.slashed_append_gap root
  rw [derive_eq, hparent, Option.map_some, Option.getD_some, Path.slashed_below hparts, hcount, List.append_assoc,
    namesIn_relativeTo h hbelow, Text.slashed_join, Text.namesIn_join, List.flatMap_map]
  rfl

/-- The package of a file is the names of the directories that lead to it, with dots between them. -/
theorem derive_below
    {other root : Path} (h : other.Respells root)
    {name file : List Char} {names : List (List Char)}
    (hnames : ∀ part ∈ name :: names, IsDirectoryName part) (hfile : IsFileName file) :
    derive other ((root.below (name :: names)).join ⟨String.ofList file⟩) =
      ⟨Text.join ['.'] (name :: names)⟩ := by
  rw [derive_of_names h (fun part hpart => (hnames part hpart).isPart)
    (fun part hpart => (hnames part hpart).ne_current) hfile, ofNames]
  have hplain : (name :: names).flatMap (fun part => Text.namesIn '/' (Text.slashed part)) =
      (name :: names).flatMap (Text.namesIn '/') :=
    List.flatMap_congr fun part hpart => by rw [Text.slashed_eq_self (hnames part hpart).no_backslash]
  rw [hplain, ← Text.namesIn_join, Text.namesIn_join_of_parts fun part hpart => (hnames part hpart).isPart]

/-- The segments of a package of names are the names. -/
theorem segments_of_names
    {name : List Char} {names : List (List Char)}
    (hnames : ∀ part ∈ name :: names, IsDirectoryName part) :
    (Package.mk (Text.join ['.'] (name :: names))).segments = name :: names :=
  Text.namesIn_join_of_parts fun part hpart => (hnames part hpart).isSegment

end Package
end CompilerRelay
