import CompilerRelay.Proofs.PathExtension

/-!
# Spellings of paths

What the package of a file owes to the way in which its path and the root are spelled.

**Input.**  Roots and files, each spelled in several ways that name the same place.

**Form.**  `Path.IsPlain`: nothing that counts for nothing stands before the last component.  `Path.IsDotless`: no part
after the beginning is a single dot.  `Route`: the parts of a path below a directory, as they are spelled.

**Algorithm.**  The root is taken off the text of the directory of a file, and of the parts that are left the empty ones
are dropped.  So slashes at the end of the root and repeated slashes below it do not matter, nor does what stands after
the name of the file or between it and its directory; but a dot among the parts is taken for the name of a directory,
and a root that is spelled otherwise than in the path of the file is not found there.

**Results.**
* `Path.IsPlain.parent?_eq`, `Path.IsPlain.bareSlashed_eq`: paths that are spelled plainly differ at their ends only.
* `Route.derive_spell_eq_iff`: below the root, another spelling yields the same package unless a part is a single dot.
* `Package.spelling_law`: which spellings do not matter for the package and for what is substituted.
-/

namespace CompilerRelay
namespace Path

/-- Nothing that counts for nothing stands before the last component. -/
def IsPlain (path : Path) : Prop :=
  ∀ part ∈ trimFillers path.shape.body, isFiller part = false

/-- No part after the beginning is a single dot. -/
def IsDotless (path : Path) : Prop :=
  ['.'] ∉ path.shape.body

instance (path : Path) : Decidable path.IsPlain :=
  inferInstanceAs (Decidable (∀ part ∈ trimFillers path.shape.body, isFiller part = false))

instance (path : Path) : Decidable path.IsDotless :=
  inferInstanceAs (Decidable (['.'] ∉ path.shape.body))

/-! ## Components and shapes -/

theorem exists_fillers (body : List (List Char)) :
    ∃ fillers, body = trimFillers body ++ fillers ∧ ∀ part ∈ fillers, isFiller part = true := by
  refine ⟨(body.reverse.takeWhile isFiller).reverse, ?_, fun part hpart => ?_⟩
  · rw [trimFillers, ← List.reverse_append, List.takeWhile_append_dropWhile, List.reverse_reverse]
  · exact List.all_eq_true.mp List.all_takeWhile part (List.mem_reverse.mp hpart)

theorem filter_fillers
    {fillers : List (List Char)} (hfillers : ∀ part ∈ fillers, isFiller part = true) :
    fillers.filter (!isFiller ·) = [] :=
  List.filter_eq_nil_iff.mpr fun part hpart => by simp [hfillers part hpart]

/-- What counts for nothing at the end of a path adds no component. -/
theorem components_eq_trimFillers (path : Path) :
    path.components =
      path.shape.anchor.components ++ ((trimFillers path.shape.body).filter (!isFiller ·)).map Component.ofPart := by
  obtain ⟨fillers, hbody, hfillers⟩ := exists_fillers path.shape.body
  rw [components]
  conv_lhs => rw [hbody, List.filter_append, filter_fillers hfillers, List.append_nil]

theorem Component.ofPart_injective : Function.Injective ofPart := by
  intro first second h
  unfold ofPart at h
  split at h <;> split at h <;> simp_all

theorem Component.ofPart_ne (part : List Char) : ofPart part ≠ .root ∧ ofPart part ≠ .current := by
  unfold ofPart
  split <;> simp

/-- The beginning of a path and its names can be told from its components. -/
theorem eq_of_components_eq
    {first second : Anchor} {names others : List (List Char)}
    (h : first.components ++ names.map Component.ofPart = second.components ++ others.map Component.ofPart) :
    first = second ∧ names = others := by
  -- No name is a component that a path may begin with.
  have hhead (component : Component) (hbegins : component = .root ∨ component = .current)
      (parts rest : List (List Char)) (more : List Component)
      (hsame : component :: more = parts.map Component.ofPart) : False := by
    cases parts with
    | nil => cases hsame
    | cons part parts =>
        obtain ⟨hroot, hcurrent⟩ := Component.ofPart_ne part
        have hpart := (List.cons.inj hsame).1
        rcases hbegins with rfl | rfl
        · exact hroot hpart.symm
        · exact hcurrent hpart.symm
  have hnames := List.map_injective_iff.mpr Component.ofPart_injective
  cases first <;> cases second <;> simp only [Anchor.components, List.cons_append, List.nil_append] at h
  case root.root => exact ⟨rfl, hnames (List.cons.inj h).2⟩
  case current.current => exact ⟨rfl, hnames (List.cons.inj h).2⟩
  case nothing.nothing => exact ⟨rfl, hnames h⟩
  case root.current => cases (List.cons.inj h).1
  case current.root => cases (List.cons.inj h).1
  case root.nothing => exact (hhead _ (Or.inl rfl) _ [] _ h).elim
  case current.nothing => exact (hhead _ (Or.inr rfl) _ [] _ h).elim
  case nothing.root => exact (hhead _ (Or.inl rfl) _ [] _ h.symm).elim
  case nothing.current => exact (hhead _ (Or.inr rfl) _ [] _ h.symm).elim

namespace IsPlain

variable {first second path : Path}

theorem components_eq (h : path.IsPlain) :
    path.components =
      path.shape.anchor.components ++ (trimFillers path.shape.body).map Component.ofPart := by
  rw [components_eq_trimFillers, List.filter_eq_self.mpr fun part hpart => by simp [h part hpart]]

/-- Plain spellings of one place are the same up to what stands after the last component. -/
theorem shape_eq
    (hfirst : first.IsPlain) (hsecond : second.IsPlain) (hsame : first.same second = true) :
    first.shape.anchor = second.shape.anchor ∧ trimFillers first.shape.body = trimFillers second.shape.body := by
  rw [same_iff, hfirst.components_eq, hsecond.components_eq] at hsame
  exact eq_of_components_eq hsame

/-- So they have the same parent. -/
theorem parent?_eq
    (hfirst : first.IsPlain) (hsecond : second.IsPlain) (hsame : first.same second = true) :
    first.parent? = second.parent? := by
  obtain ⟨hanchor, hbody⟩ := hfirst.shape_eq hsecond hsame
  simp only [parent?, hanchor, hbody]

end IsPlain

/-- The parts that a path is cut into at its slashes. -/
def Shape.parts : Shape → List (List Char)
  | ⟨.root, body⟩ => [] :: body
  | ⟨.current, body⟩ => ['.'] :: body
  | ⟨.nothing, body⟩ => body

theorem Shape.parts_ofParts (parts : List (List Char)) : (ofParts parts).parts = parts := by
  unfold ofParts
  split <;> rfl

theorem Shape.parts_append (anchor : Anchor) (body more : List (List Char)) :
    (Shape.mk anchor (body ++ more)).parts = (Shape.mk anchor body).parts ++ more := by
  cases anchor <;> rfl

/-- Slashes at the end are not counted. -/
theorem bare_slashed_join_replicate (parts : List (List Char)) (count : Nat) :
    bare (Text.slashed (Text.join ['/'] (parts ++ List.replicate count []))) =
      bare (Text.slashed (Text.join ['/'] parts)) := by
  induction count with
  | zero => simp
  | succ count ih =>
      rw [List.replicate_succ', ← List.append_assoc, ← ih]
      by_cases hempty : parts ++ List.replicate count [] = []
      · rw [hempty]
        rfl
      · rw [Text.join_append_singleton _ hempty, List.append_nil, Text.slashed_append]
        exact bare_append_replicate _ 1

theorem bareSlashed_of_isDotless
    {path : Path} (h : path.IsDotless) :
    path.bareSlashed =
      bare (Text.slashed (Text.join ['/'] (Shape.mk path.shape.anchor (trimFillers path.shape.body)).parts)) := by
  obtain ⟨fillers, hbody, hfillers⟩ := exists_fillers path.shape.body
  have hempty : fillers = List.replicate fillers.length [] := by
    refine List.eq_replicate_iff.mpr ⟨rfl, fun part hpart => ?_⟩
    have hfiller := hfillers part hpart
    have hdot : part ≠ ['.'] := by
      rintro rfl
      exact h (hbody ▸ List.mem_append_right _ hpart)
    simpa [isFiller, hdot] using hfiller
  have hparts : Text.splitOn '/' path.text.toList =
      (Shape.mk path.shape.anchor (trimFillers path.shape.body)).parts ++ List.replicate fillers.length [] := by
    rw [← hempty, ← Shape.parts_append, ← hbody, ← Shape.parts_ofParts (Text.splitOn '/' path.text.toList)]
    rfl
  change bare (Text.slashed path.text.toList) = _
  rw [← Text.join_splitOn '/' path.text.toList, hparts, bare_slashed_join_replicate]

/-- Plain spellings of a root are the same text without the slashes at the end. -/
theorem IsPlain.bareSlashed_eq
    {first second : Path} (hfirst : first.IsPlain) (hsecond : second.IsPlain) (hdotless : first.IsDotless)
    (hdotlessToo : second.IsDotless) (hsame : first.same second = true) :
    first.bareSlashed = second.bareSlashed := by
  obtain ⟨hanchor, hbody⟩ := hfirst.shape_eq hsecond hsame
  rw [bareSlashed_of_isDotless hdotless, bareSlashed_of_isDotless hdotlessToo, hanchor, hbody]

theorem Respells.refl (root : Path) : root.Respells root :=
  ⟨0, by simp⟩

/-- The text of parts with a slash before each. -/
def spread (parts : List (List Char)) : List Char :=
  parts.flatMap ('/' :: ·)

theorem spread_eq
    {parts : List (List Char)} (hparts : parts ≠ []) :
    spread parts = '/' :: Text.join ['/'] parts := by
  induction parts with
  | nil => exact absurd rfl hparts
  | cons part rest ih =>
      rw [spread, List.flatMap_cons, ← spread]
      cases rest with
      | nil => simp [spread, Text.join]
      | cons second rest => rw [ih (by simp), Text.join_cons_cons]; rfl

/-- Parts with slashes before them are what the text is cut into after what stood there. -/
theorem splitOn_append_spread
    (text : List Char) {parts : List (List Char)} (hparts : ∀ part ∈ parts, '/' ∉ part) :
    Text.splitOn '/' (text ++ spread parts) = Text.splitOn '/' text ++ parts := by
  induction parts generalizing text with
  | nil => simp [spread]
  | cons part rest ih =>
      obtain ⟨hpart, hrest⟩ := List.forall_mem_cons.mp hparts
      have hwhole : text ++ spread (part :: rest) = (text ++ '/' :: part) ++ spread rest := by simp [spread]
      rw [hwhole, ih _ hrest, Text.splitOn_append_cons, Text.splitOn_of_notMem hpart, List.append_assoc]
      rfl

/-! ## Parts that are appended to a path -/

theorem exists_ofParts_append
    {parts : List (List Char)} (hparts : parts ≠ []) :
    ∃ anchor body, (∀ more, more ≠ [] → Shape.ofParts (parts ++ more) = ⟨anchor, body ++ more⟩) ∧
      (parts ≠ [[]] → Shape.ofParts parts = ⟨anchor, body⟩) := by
  obtain ⟨first, rest, rfl⟩ := List.exists_cons_of_ne_nil hparts
  by_cases hroot : first = []
  · subst hroot
    refine ⟨.root, rest, fun more hmore => ?_, fun hnonempty => ?_⟩
    · obtain ⟨second, others, hwhole⟩ := List.exists_cons_of_ne_nil (by simp [hmore] : rest ++ more ≠ [])
      rw [List.cons_append, hwhole]
      rfl
    · have hrest : rest ≠ [] := fun hrest => hnonempty (by rw [hrest])
      obtain ⟨second, others, rfl⟩ := List.exists_cons_of_ne_nil hrest
      rfl
  by_cases hcurrent : first = ['.']
  · subst hcurrent
    exact ⟨.current, rest, fun _ _ => rfl, fun _ => rfl⟩
  · have hnothing (others : List (List Char)) : Shape.ofParts (first :: others) = ⟨.nothing, first :: others⟩ := by
      unfold Shape.ofParts
      split <;> simp_all
    exact ⟨.nothing, first :: rest, fun more _ => hnothing (rest ++ more), fun _ => hnothing rest⟩

theorem components_of_shape
    {path : Path} {anchor : Anchor} {body : List (List Char)} (h : path.shape = ⟨anchor, body⟩) :
    path.components = anchor.components ++ (body.filter (!isFiller ·)).map Component.ofPart := by
  rw [components, h]

/-- What is appended with slashes stands at the end of the shape. -/
theorem exists_shape_append_spread (text : List Char) :
    ∃ anchor body,
      (∀ parts, parts ≠ [] → (∀ part ∈ parts, '/' ∉ part) →
        shape ⟨String.ofList (text ++ spread parts)⟩ = ⟨anchor, body ++ parts⟩) ∧
      (text ≠ [] → shape ⟨String.ofList text⟩ = ⟨anchor, body⟩) := by
  obtain ⟨anchor, body, hmore, hown⟩ := exists_ofParts_append (Text.splitOn_ne_nil '/' text)
  refine ⟨anchor, body, fun parts hne hopen => ?_, fun hne => ?_⟩
  · rw [shape, String.toList_ofList, splitOn_append_spread text hopen]
    exact hmore parts hne
  · rw [shape, String.toList_ofList]
    refine hown fun hempty => hne ?_
    rw [← Text.join_splitOn '/' text, hempty]
    rfl

/-- The components of parts with slashes before them stand after those of the text that stood there. -/
theorem components_append_spread
    (text : List Char) {parts : List (List Char)} (hne : parts ≠ []) (hparts : ∀ part ∈ parts, '/' ∉ part) :
    components ⟨String.ofList (text ++ spread parts)⟩ =
      components ⟨String.ofList (text ++ spread [[]])⟩ ++ (parts.filter (!isFiller ·)).map Component.ofPart := by
  obtain ⟨anchor, body, hmore, -⟩ := exists_shape_append_spread text
  have hslash := components_of_shape (hmore [[]] (by simp) (by simp))
  rw [components_of_shape (hmore parts hne hparts), hslash]
  simp [isFiller]

theorem components_append_slash
    {text : List Char} (hne : text ≠ []) :
    components ⟨String.ofList (text ++ spread [[]])⟩ = components ⟨String.ofList text⟩ := by
  obtain ⟨anchor, body, hmore, hown⟩ := exists_shape_append_spread text
  rw [components_of_shape (hmore [[]] (by simp) (by simp)), components_of_shape (hown hne)]
  simp [isFiller]

/-- So do those of names that are appended to a path. -/
theorem components_below
    {root : Path} (hroot : root.text.toList ≠ []) {name : List Char} {names : List (List Char)}
    (hparts : ∀ part ∈ name :: names, Text.IsPart '/' part) :
    (root.below (name :: names)).components =
      root.components ++ ((name :: names).filter (!isFiller ·)).map Component.ofPart := by
  have hopen : ∀ part ∈ name :: names, '/' ∉ part := fun part hpart => (hparts part hpart).separator_notMem
  obtain ⟨text, hown, htext⟩ : ∃ text, components ⟨String.ofList (text ++ spread [[]])⟩ = root.components ∧
      root.text.toList ++ root.gap = text ++ ['/'] := by
    unfold gap
    split
    · next hlast => exact absurd (List.getLast?_eq_none_iff.mp hlast) hroot
    · next hlast =>
        obtain ⟨front, hfront⟩ := List.getLast?_eq_some_iff.mp hlast
        refine ⟨front, congrArg components (eq_of_toList ?_), by rw [hfront, List.append_nil]⟩
        rw [String.toList_ofList, hfront]
        rfl
    · refine ⟨root.text.toList, ?_, rfl⟩
      rw [components_append_slash hroot, String.ofList_toList]
  have hpath : root.below (name :: names) = ⟨String.ofList (text ++ spread (name :: names))⟩ := by
    refine eq_of_toList ?_
    rw [below_text root hparts, htext, spread_eq (List.cons_ne_nil name names)]
    simp
  rw [hpath, components_append_spread text (List.cons_ne_nil name names) hopen, hown]

end Path

/-! ## Files below a directory -/

/-- The parts of a path below a directory, as they are spelled.  There are the parts down to the last directory, fillers
among them, then the name of the file, and more fillers before and after it. -/
structure Route where
  front : List (List Char)
  directory : List Char
  between : List (List Char)
  file : List Char
  ends : List (List Char)
  slash_notMem_front : ∀ part ∈ front, '/' ∉ part
  isPart_directory : Text.IsPart '/' directory
  directory_ne_dot : directory ≠ ['.']
  isFiller_between : ∀ part ∈ between, Path.isFiller part = true
  isFileName_file : IsFileName file
  isFiller_ends : ∀ part ∈ ends, Path.isFiller part = true

namespace Route

variable (route : Route) {other root : Path}

/-- All parts of the path, in order. -/
def parts : List (List Char) :=
  route.front ++ route.directory :: (route.between ++ route.file :: route.ends)

/-- The names of the directories. -/
def names : List (List Char) :=
  route.front.filter (!Path.isFiller ·) ++ [route.directory]

/-- The path of the file as it is spelled below a root. -/
def spell (root : Path) : Path :=
  ⟨String.ofList (root.text.toList ++ Path.spread route.parts)⟩

/-- The path of the file that names are appended to one by one, as a walk from the root does it. -/
def walked (root : Path) : Path :=
  (root.below route.names).join ⟨String.ofList route.file⟩

theorem isFiller_directory : Path.isFiller route.directory = false := by
  simp [Path.isFiller, route.isPart_directory.ne_nil, route.directory_ne_dot]

theorem isFiller_file : Path.isFiller route.file = false := by
  simp [Path.isFiller, route.isFileName_file.ne_nil, route.isFileName_file.ne_current]

theorem slash_notMem_parts : ∀ part ∈ route.parts, '/' ∉ part := by
  have hfiller (part : List Char) (h : Path.isFiller part = true) : '/' ∉ part := by
    have hcases : part = [] ∨ part = ['.'] := by simpa [Path.isFiller] using h
    rcases hcases with rfl | rfl <;> decide
  intro part hpart
  simp only [parts, List.mem_append, List.mem_cons] at hpart
  rcases hpart with hfront | rfl | hbetween | rfl | hends
  · exact route.slash_notMem_front part hfront
  · exact route.isPart_directory.separator_notMem
  · exact hfiller part (route.isFiller_between part hbetween)
  · exact route.isFileName_file.no_slash
  · exact hfiller part (route.isFiller_ends part hends)

theorem isPart_names : ∀ name ∈ route.names, Text.IsPart '/' name ∧ name ≠ ['.'] := by
  intro name hname
  rcases List.mem_append.mp hname with hfront | hlast
  · obtain ⟨hmem, hfiller⟩ := List.mem_filter.mp hfront
    have hne : name ≠ [] ∧ name ≠ ['.'] := by simpa [Path.isFiller] using hfiller
    exact ⟨⟨hne.1, route.slash_notMem_front name hmem⟩, hne.2⟩
  · obtain rfl := List.mem_singleton.mp hlast
    exact ⟨route.isPart_directory, route.directory_ne_dot⟩

theorem filter_parts : route.parts.filter (!Path.isFiller ·) = route.names ++ [route.file] := by
  have hbetween : route.between.filter (!Path.isFiller ·) = [] :=
    List.filter_eq_nil_iff.mpr fun part hpart => by simp [route.isFiller_between part hpart]
  have hends : route.ends.filter (!Path.isFiller ·) = [] :=
    List.filter_eq_nil_iff.mpr fun part hpart => by simp [route.isFiller_ends part hpart]
  simp [parts, names, hbetween, hends, route.isFiller_directory, route.isFiller_file]

/-- Both spellings name the same place. -/
theorem same_spell_walked (hroot : root.text.toList ≠ []) :
    (route.spell root).same (route.walked root) = true := by
  have hne : route.names ++ [route.file] ≠ [] := by simp
  obtain ⟨name, rest, hwhole⟩ := List.exists_cons_of_ne_nil hne
  have hparts : ∀ part ∈ name :: rest, Text.IsPart '/' part := by
    rw [← hwhole]
    refine List.forall_mem_append.mpr ⟨fun part hpart => (route.isPart_names part hpart).1,
      List.forall_mem_singleton.mpr ⟨route.isFileName_file.ne_nil, route.isFileName_file.no_slash⟩⟩
  have hfilter : (name :: rest).filter (!Path.isFiller ·) = route.parts.filter (!Path.isFiller ·) := by
    rw [← hwhole, ← route.filter_parts, List.filter_filter]
    simp
  rw [Path.same_iff, walked, ← Path.below_append_singleton, hwhole, Path.components_below hroot hparts, hfilter, spell,
    Path.components_append_spread _ (by simp [parts]) route.slash_notMem_parts, Path.components_append_slash hroot,
    String.ofList_toList]

/-! ## Their packages -/

/-- The directory of the file is spelled like the path up to its last name. -/
theorem parent?_spell (root : Path) :
    (route.spell root).parent? =
      some ⟨String.ofList (root.text.toList ++ Path.spread (route.front ++ [route.directory]))⟩ := by
  have hcut : Text.splitOn '/' (route.spell root).text.toList =
      (Text.splitOn '/' root.text.toList ++ route.front) ++
        route.directory :: (route.between ++ route.file :: route.ends) := by
    rw [spell, String.toList_ofList, Path.splitOn_append_spread _ route.slash_notMem_parts, parts, List.append_assoc]
  have hopen : ∀ part ∈ route.front ++ [route.directory], '/' ∉ part :=
    List.forall_mem_append.mpr
      ⟨route.slash_notMem_front, List.forall_mem_singleton.mpr route.isPart_directory.separator_notMem⟩
  rw [Path.parent?_of_parts hcut route.isFiller_directory route.isFiller_file route.isFiller_between
    route.isFiller_ends, List.append_assoc, ← Path.splitOn_append_spread _ hopen, Text.join_splitOn]

/-- The package is that of the parts down to the last directory, fillers among them. -/
theorem derive_spell (h : other.Respells root) :
    Package.derive other (route.spell root) = Package.ofNames (route.front ++ [route.directory]) := by
  have hne : route.front ++ [route.directory] ≠ [] := by simp
  obtain ⟨count, hcount⟩ := Path.exists_eq_bare root.slashed
  have hslashed : Path.slashed ⟨String.ofList (root.text.toList ++ Path.spread (route.front ++ [route.directory]))⟩ =
      root.bareSlashed ++ (List.replicate (count + 1) '/' ++
        Text.slashed (Text.join ['/'] (route.front ++ [route.directory]))) := by
    change Text.slashed (String.ofList (_ ++ _)).toList = _
    rw [String.toList_ofList, Path.spread_eq hne, Text.slashed_append, List.replicate_succ', List.append_assoc,
      ← List.append_assoc]
    exact congrArg (· ++ _) hcount
  rw [Package.derive_eq, route.parent?_spell, Option.map_some, Option.getD_some, hslashed,
    Package.namesIn_relativeTo h (Or.inr (Nat.succ_ne_zero count)), Text.slashed_join, Text.namesIn_join,
    List.flatMap_map]
  rfl

theorem derive_walked (h : other.Respells root) :
    Package.derive other (route.walked root) = Package.ofNames route.names := by
  obtain ⟨name, rest, hwhole⟩ := List.exists_cons_of_ne_nil (by simp [names] : route.names ≠ [])
  have hnames := route.isPart_names
  rw [walked]
  rw [hwhole] at hnames ⊢
  exact Package.derive_of_names h (fun part hpart => (hnames part hpart).1) (fun part hpart => (hnames part hpart).2)
    route.isFileName_file

end Route

theorem Text.length_join (separator : Char) (pieces : List (List Char)) :
    (join [separator] pieces).length = (pieces.map (·.length + 1)).sum - 1 := by
  induction pieces with
  | nil => rfl
  | cons piece rest ih =>
      cases rest with
      | nil => simp [join]
      | cons second rest =>
          rw [join_cons_cons, List.length_append, List.length_append, ih]
          simp only [List.map_cons, List.sum_cons, List.length_singleton]
          omega

namespace Package

/-- What a filler is taken for. -/
theorem namesIn_filler {part : List Char} (h : Path.isFiller part = true) :
    Text.namesIn '/' (Text.slashed part) = if part = ['.'] then [['.']] else [] := by
  have hcases : part = [] ∨ part = ['.'] := by simpa [Path.isFiller] using h
  rcases hcases with rfl | rfl <;> rfl

/-- A single dot counts as a name, and the other fillers do not count. -/
theorem sum_lengths (parts : List (List Char)) :
    ((parts.flatMap fun part => Text.namesIn '/' (Text.slashed part)).map (·.length + 1)).sum =
      (((parts.filter (!Path.isFiller ·)).flatMap fun part => Text.namesIn '/' (Text.slashed part)).map
        (·.length + 1)).sum + 2 * parts.count ['.'] := by
  induction parts with
  | nil => rfl
  | cons part rest ih =>
      rw [List.flatMap_cons, List.map_append, List.sum_append, ih, List.count_cons]
      cases hfiller : Path.isFiller part with
      | true =>
          rw [namesIn_filler hfiller, List.filter_cons_of_neg (by simp [hfiller])]
          by_cases hdot : part = ['.']
          · simp [hdot]
            omega
          · simp [hdot]
      | false =>
          have hdot : (part == ['.']) = false := beq_eq_false_iff_ne.mpr fun hdot => by
            rw [hdot] at hfiller
            cases hfiller
          rw [List.filter_cons_of_pos (by simp [hfiller]), List.flatMap_cons, List.map_append, List.sum_append, hdot,
            if_neg Bool.false_ne_true]
          omega

theorem flatMap_filter_of_dot_notMem
    {parts : List (List Char)} (h : ['.'] ∉ parts) :
    (parts.flatMap fun part => Text.namesIn '/' (Text.slashed part)) =
      (parts.filter (!Path.isFiller ·)).flatMap fun part => Text.namesIn '/' (Text.slashed part) := by
  induction parts with
  | nil => rfl
  | cons part rest ih =>
      have hpart : part ≠ ['.'] := fun hdot => h (hdot ▸ List.mem_cons_self)
      have hrest : ['.'] ∉ rest := fun hmem => h (List.mem_cons_of_mem part hmem)
      rw [List.flatMap_cons, ih hrest]
      cases hfiller : Path.isFiller part with
      | true =>
          rw [namesIn_filler hfiller, if_neg hpart, List.filter_cons_of_neg (by simp [hfiller])]
          rfl
      | false => rw [List.filter_cons_of_pos (by simp [hfiller]), List.flatMap_cons]

/-- Fillers among the directories do not count, but for a single dot. -/
theorem ofNames_filter_eq_iff (front : List (List Char)) (directory : List Char) :
    ofNames (front ++ [directory]) = ofNames (front.filter (!Path.isFiller ·) ++ [directory]) ↔ ['.'] ∉ front := by
  constructor
  · intro hsame
    have hlength := congrArg (fun package : Package => package.name.length) hsame
    simp only [ofNames, List.flatMap_append, Text.length_join, List.map_append, List.sum_append,
      sum_lengths front] at hlength
    exact List.count_eq_zero.mp (by omega)
  · intro hdot
    simp only [ofNames, List.flatMap_append, flatMap_filter_of_dot_notMem hdot]

end Package

namespace Route

/-- Below the root, another spelling yields the same package unless a part before the last directory is a single dot. -/
theorem derive_spell_eq_iff
    (route : Route) {configured root : Path} (h : configured.Respells root) :
    Package.derive configured (route.spell root) = Package.derive configured (route.walked configured) ↔
      ['.'] ∉ route.front := by
  rw [route.derive_spell h, route.derive_walked (Path.Respells.refl configured)]
  exact Package.ofNames_filter_eq_iff route.front route.directory

end Route

/-! ## The law -/

namespace Package

theorem derive_eq_of_plain
    {first second file other : Path} (hroots : first.same second = true) (hfiles : file.same other = true)
    (hfirst : first.IsPlain) (hsecond : second.IsPlain) (hdotless : first.IsDotless) (hdotlessToo : second.IsDotless)
    (hfile : file.IsPlain) (hother : other.IsPlain) :
    derive first file = derive second other := by
  rw [derive_eq, derive_eq, hfirst.bareSlashed_eq hsecond hdotless hdotlessToo hroots,
    hfile.parent?_eq hother hfiles]

theorem substitute_eq_of_derive
    {first second file other : Path} (h : derive first file = derive second other) (text : List Char) :
    Template.substitute first file text = Template.substitute second other text := by
  rw [Template.substitute, h, ← Template.substitute]

/-- **Spellings that do not matter.**  Two spellings of a root and two of a file yield the same package, and the same
text is substituted, if nothing that counts for nothing is spelled before the last component of any of them and the
roots end in slashes at most.  Below a root that is spelled like the configured one, but for slashes at its end and the
case of letters, a file has the package under which a walk from the configured root comes to it, whatever slashes are
repeated and whatever stands around its name, exactly if no part before the directory of the file is a single dot. -/
theorem spelling_law (configured root : Path) :
    (configured.same root = true → configured.IsPlain → root.IsPlain → configured.IsDotless → root.IsDotless →
      ∀ file other : Path, file.same other = true → file.IsPlain → other.IsPlain →
        derive configured file = derive root other ∧
          ∀ text, Template.substitute configured file text = Template.substitute root other text) ∧
    (configured.Respells root → ∀ route : Route,
      (root.text.toList ≠ [] → (route.spell root).same (route.walked root) = true) ∧
      (derive configured (route.spell root) = derive configured (route.walked configured) ↔ ['.'] ∉ route.front) ∧
      (['.'] ∉ route.front → ∀ text, Template.substitute configured (route.spell root) text =
        Template.substitute configured (route.walked configured) text)) := by
  refine ⟨fun hroots hconfigured hroot hdotless hdotlessToo file other hfiles hfile hother => ?_,
    fun h route => ⟨route.same_spell_walked, route.derive_spell_eq_iff h, fun hdot => ?_⟩⟩
  · have hderive := derive_eq_of_plain hroots hfiles hconfigured hroot hdotless hdotlessToo hfile hother
    exact ⟨hderive, substitute_eq_of_derive hderive⟩
  · exact substitute_eq_of_derive ((route.derive_spell_eq_iff h).mpr hdot)

/-! ## One file in several spellings -/

/-- A file two directories below the root, with slashes that are repeated. -/
def repeated : Route where
  front := [[], ['a'], [], []]
  directory := ['b']
  between := [[], ['.']]
  file := "f.cmx".toList
  ends := [[]]
  slash_notMem_front := by decide
  isPart_directory := ⟨by decide, by decide⟩
  directory_ne_dot := by decide
  isFiller_between := by decide
  isFileName_file := by decide
  isFiller_ends := by decide

theorem spelling_law_repeated :
    repeated.spell ⟨"/cm/home"⟩ = ⟨"/cm/home//a///b//./f.cmx/"⟩ ∧
      repeated.walked ⟨"/CM/Home/"⟩ = ⟨"/CM/Home/a/b/f.cmx"⟩ ∧ Path.Respells ⟨"/CM/Home/"⟩ ⟨"/cm/home"⟩ ∧
      derive ⟨"/CM/Home/"⟩ (repeated.spell ⟨"/cm/home"⟩) = derive ⟨"/CM/Home/"⟩ (repeated.walked ⟨"/CM/Home/"⟩) ∧
      derive ⟨"/cm/home//"⟩ ⟨"/cm/home/f.cmx/."⟩ = derive ⟨"/cm/home"⟩ ⟨"/cm/home/f.cmx"⟩ := by
  have hroot : Path.Respells ⟨"/CM/Home/"⟩ ⟨"/cm/home"⟩ := ⟨1, by decide⟩
  have hplain := (spelling_law ⟨"/cm/home//"⟩ ⟨"/cm/home"⟩).1
    (by decide) (by decide) (by decide) (by decide) (by decide)
    ⟨"/cm/home/f.cmx/."⟩ ⟨"/cm/home/f.cmx"⟩ (by decide) (by decide) (by decide)
  have hrepeated := ((spelling_law ⟨"/CM/Home/"⟩ ⟨"/cm/home"⟩).2 hroot repeated).2.1.mpr (by decide)
  exact ⟨by decide +kernel, by decide +kernel, hroot, hrepeated, hplain.1⟩

/-- The root and the path of the file have the same components in every spelling, but the packages differ. -/
theorem spelling_matters :
    Path.same ⟨"/cm//home"⟩ ⟨"/cm/home"⟩ = true ∧ Path.same ⟨"/cm/home/./a/f.cmx"⟩ ⟨"/cm/home/a/f.cmx"⟩ = true ∧
      derive ⟨"/cm/home"⟩ ⟨"/cm/home/a/f.cmx"⟩ = ⟨"a".toList⟩ ∧
      derive ⟨"/cm//home"⟩ ⟨"/cm/home/a/f.cmx"⟩ = ⟨"cm.home.a".toList⟩ ∧
      derive ⟨"/cm/home"⟩ ⟨"/cm/home/./a/f.cmx"⟩ = ⟨"..a".toList⟩ ∧
      Template.substitute ⟨"/cm/home"⟩ ⟨"/cm/home/a/f.cmx"⟩ "$dynamicPackageName".toList = "a".toList ∧
      Template.substitute ⟨"/cm//home"⟩ ⟨"/cm/home/a/f.cmx"⟩ "$dynamicPackageName".toList = "cm.home.a".toList := by
  refine ⟨by decide, by decide, by decide +kernel, by decide +kernel, by decide +kernel, by decide +kernel,
    by decide +kernel⟩

end Package
end CompilerRelay
