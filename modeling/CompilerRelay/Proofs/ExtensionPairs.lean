import CompilerRelay.Proofs.PathExtension
import CompilerRelay.Proofs.PathSpelling

/-!
# Places of templates and of generated files

Another extension is set on the text of a path, but two paths name one place if their components are the same.

**Input.**  A path with an extension, and whatever slashes and dots stand after its name.

**Algorithm.**  As much of the text as the old extension is long is taken off its end.  Where slashes stand there, some
of these go and the name keeps the beginning of its extension; all that is left of either goes when the new one is set.
Where the text ends with two dots and the extension, the dots are left, which are no name, and nothing is set.

**Results.**
* `Path.fileName?_eq_some_iff`, `Path.extension?_eq_some_iff`: the name and the extension, told by the last component.
* `Path.splitOn_withExtension_of_name`: what the parts of a path are when another extension is set.
* `Path.components_withExtension`: the same for the components.
* `Path.extension?_withExtension`, `Path.cutExtension_of_withExtension`: which extension a path has after one was set.
* `Path.same_withExtension_iff`: when two paths with one extension are the same with another.
* `Path.template?_injective`: generated files with one template are one file.
-/

namespace CompilerRelay
namespace Path

variable {path first second : Path} {front : List Component} {parts fillers : List (List Char)}
variable {name stem extension other : List Char}

/-! ## Slashes and dots after the name -/

/-- What a prefix of slashes and dots is put together of. -/
theorem exists_spread_of_prefix
    {taken : List Char} (hfillers : ∀ part ∈ fillers, isFiller part = true) (htaken : taken <+: spread fillers) :
    ∃ left, taken = spread left ∧ ∀ part ∈ left, isFiller part = true := by
  induction fillers generalizing taken with
  | nil => exact ⟨[], List.prefix_nil.mp htaken, by simp⟩
  | cons filler rest ih =>
      obtain ⟨hfiller, hrest⟩ := List.forall_mem_cons.mp hfillers
      cases taken with
      | nil => exact ⟨[], rfl, by simp⟩
      | cons char taken =>
          have hspread : spread (filler :: rest) = '/' :: (filler ++ spread rest) := by simp [spread]
          rw [hspread, List.cons_prefix_cons] at htaken
          obtain ⟨rfl, htaken⟩ := htaken
          rcases List.prefix_or_prefix_of_prefix htaken (List.prefix_append filler _) with hpart | ⟨more, rfl⟩
          · refine ⟨[taken], by simp [spread], ?_⟩
            have hcases : filler = [] ∨ filler = ['.'] := by simpa [isFiller] using hfiller
            rcases hcases with rfl | rfl
            · simp [List.prefix_nil.mp hpart, isFiller]
            · rcases List.prefix_cons_iff.mp hpart with rfl | ⟨left, rfl, hleft⟩
              · simp [isFiller]
              · simp [List.prefix_nil.mp hleft, isFiller]
          · obtain ⟨left, rfl, hleft⟩ := ih hrest ((List.prefix_append_right_inj filler).mp htaken)
            exact ⟨filler :: left, by simp [spread], List.forall_mem_cons.mpr ⟨hfiller, hleft⟩⟩

theorem slash_notMem_of_isFiller {part : List Char} (h : isFiller part = true) : '/' ∉ part := by
  have hcases : part = [] ∨ part = ['.'] := by simpa [isFiller] using h
  rcases hcases with rfl | rfl <;> decide

/-- A name and what is put after it with slashes are cut off again from the parts before them. -/
theorem exists_front
    (hparts : ∀ part ∈ parts, '/' ∉ part) :
    ∃ front, ∀ last left, '/' ∉ last → (∀ part ∈ left, '/' ∉ part) →
      Text.splitOn '/' (front ++ last ++ spread left) = parts ++ last :: left := by
  obtain ⟨front, hfront⟩ := Text.exists_join_append ['/'] parts
  refine ⟨front, fun last left hlast hleft => ?_⟩
  have hopen : ∀ piece ∈ parts ++ [last], '/' ∉ piece :=
    List.forall_mem_append.mpr ⟨hparts, by simpa using hlast⟩
  obtain ⟨first, rest, hpieces⟩ := List.exists_cons_of_ne_nil (by simp : parts ++ [last] ≠ [])
  rw [splitOn_append_spread _ hleft, ← hfront, hpieces, Text.splitOn_join (hpieces ▸ hopen), ← hpieces]
  simp

/-- Where slashes stand after a name, a part of its extension is left when as much is taken off the end. -/
theorem exists_take_of_fillers
    (hne : fillers ≠ []) (hfillers : ∀ part ∈ fillers, isFiller part = true) (hextension : extension ≠ []) :
    ∃ rest left, (extension ++ spread fillers).take (spread fillers).length = rest ++ spread left ∧
      rest ≠ [] ∧ rest <+: extension ∧ ∀ part ∈ left, isFiller part = true := by
  rw [List.take_append]
  obtain ⟨left, hleft, hopen⟩ := exists_spread_of_prefix hfillers
    (List.take_prefix ((spread fillers).length - extension.length) (spread fillers))
  refine ⟨extension.take (spread fillers).length, left, by rw [hleft], fun hnil => ?_, List.take_prefix _ _, hopen⟩
  rcases List.take_eq_nil_iff.mp hnil with hzero | hempty
  · rw [spread_eq hne] at hzero
    simp at hzero
  · exact hextension hempty

/-- A path with a name is cut into what is before it, the name, and what counts for nothing. -/
theorem exists_parts_of_fileName?
    (hname : path.fileName? = some name) :
    ∃ parts fillers, Text.splitOn '/' path.text.toList = parts ++ name :: fillers ∧
      isFiller name = false ∧ name ≠ ['.', '.'] ∧ ∀ part ∈ fillers, isFiller part = true := by
  obtain ⟨hlast, hupwards⟩ := getLast?_of_fileName? hname
  obtain ⟨fillers, hbody, hfillers⟩ := exists_fillers path.shape.body
  obtain ⟨front, hfront⟩ := List.getLast?_eq_some_iff.mp hlast
  refine ⟨(Shape.mk path.shape.anchor front).parts, fillers, ?_, isFiller_of_getLast? hlast, hupwards, hfillers⟩
  have hwhole : path.shape.body = front ++ name :: fillers :=
    hbody.trans (by rw [hfront, List.append_assoc, List.singleton_append])
  calc Text.splitOn '/' path.text.toList
      = (Shape.mk path.shape.anchor path.shape.body).parts := (Shape.parts_ofParts _).symm
    _ = _ := by rw [hwhole, Shape.parts_append]

/-- The name of a path with an extension is a stem, a dot and the extension. -/
theorem exists_parts_of_extension?
    (hextension : path.extension? = some extension) :
    ∃ parts stem fillers, Text.splitOn '/' path.text.toList = parts ++ (stem ++ '.' :: extension) :: fillers ∧
      stem ≠ [] ∧ '.' ∉ extension ∧ ∀ part ∈ fillers, isFiller part = true := by
  obtain ⟨name, hname, hcut⟩ := Option.bind_eq_some_iff.mp hextension
  obtain ⟨stem, hstem, hdot, rfl⟩ := exists_stem_of_cutExtension hcut
  obtain ⟨parts, fillers, hparts, -, -, hfillers⟩ := exists_parts_of_fileName? hname
  exact ⟨parts, stem, fillers, hparts, hstem, hdot, hfillers⟩

/-- What another extension is set on where slashes stand after the name. -/
theorem exists_kept_of_fillers
    (hparts : Text.splitOn '/' path.text.toList = parts ++ (stem ++ '.' :: extension) :: fillers)
    (hstem : stem ≠ []) (hdot : '.' ∉ extension) (hne : extension ≠ [])
    (hslashes : fillers ≠ []) (hfillers : ∀ part ∈ fillers, isFiller part = true) :
    ∃ (kept : Path) (rest : List Char) (left : List (List Char)),
      Text.splitOn '/' kept.text.toList = parts ++ (stem ++ '.' :: rest) :: left ∧
      rest ≠ [] ∧ rest <+: extension ∧ (∀ part ∈ left, isFiller part = true) ∧
      ∀ other, path.withExtension other = kept.setExtension other := by
  obtain ⟨rest, left, htaken, hrest, hbegins, hleft⟩ := exists_take_of_fillers hslashes hfillers hne
  have hopen : ∀ piece ∈ parts ++ (stem ++ '.' :: extension) :: fillers, '/' ∉ piece := fun piece hpiece =>
    Text.separator_notMem_of_mem_splitOn (hparts ▸ hpiece)
  obtain ⟨front, hfront⟩ := exists_front fun part hpart => hopen part (List.mem_append_left _ hpart)
  have hname : '/' ∉ stem ++ '.' :: extension := hopen _ (by simp)
  -- The text ends with the extension and the slashes after it.
  have htext : path.text.toList = front ++ (stem ++ ['.']) ++ (extension ++ spread fillers) := by
    rw [← Text.join_splitOn '/' path.text.toList, hparts,
      ← hfront _ fillers hname fun part hpart => slash_notMem_of_isFiller (hfillers part hpart), Text.join_splitOn]
    simp
  have hlength : path.text.toList.length - extension.length =
      (front ++ (stem ++ ['.'])).length + (spread fillers).length := by
    rw [htext]
    simp only [List.length_append]
    omega
  have hdropped : path.text.toList.take (path.text.toList.length - extension.length) =
      front ++ (stem ++ '.' :: rest) ++ spread left := by
    rw [hlength, htext, List.take_length_add_append, htaken]
    simp
  have hstart : '/' ∉ stem ++ '.' :: rest := by
    simp only [List.mem_append, List.mem_cons, not_or] at hname ⊢
    exact ⟨hname.1, hname.2.1, fun hmem => hname.2.2 (hbegins.subset hmem)⟩
  have hprevious := extension?_of_stem hparts hstem hdot hne hfillers
  refine ⟨⟨String.ofList (front ++ (stem ++ '.' :: rest) ++ spread left)⟩, rest, left, ?_, hrest, hbegins, hleft,
    fun other => ?_⟩
  · rw [String.toList_ofList]
    exact hfront _ left hstart fun part hpart => slash_notMem_of_isFiller (hleft part hpart)
  · simp only [withExtension, hprevious, hdropped]

/-- Another extension is set in place of the old one; two dots and the extension, with nothing after them, are left as a
step upwards. -/
theorem splitOn_withExtension_of_fillers
    (hparts : Text.splitOn '/' path.text.toList = parts ++ (stem ++ '.' :: extension) :: fillers)
    (hstem : stem ≠ []) (hdot : '.' ∉ extension) (hne : extension ≠ [])
    (hfillers : ∀ part ∈ fillers, isFiller part = true) (hslash : '/' ∉ other) :
    Text.splitOn '/' (path.withExtension other).text.toList =
      parts ++ [if fillers = [] ∧ stem = ['.'] then ['.', '.'] else stem ++ '.' :: other] := by
  by_cases hslashes : fillers = []
  · subst hslashes
    by_cases hdots : stem = ['.']
    · subst hdots
      rw [splitOn_withExtension_dots hparts hdot hne, if_pos ⟨rfl, rfl⟩]
    · rw [splitOn_withExtension hparts hstem hdots hdot hne hslash, if_neg fun h => hdots h.2]
  · obtain ⟨kept, rest, left, hkept, hrest, hbegins, hleft, hset⟩ :=
      exists_kept_of_fillers hparts hstem hdot hne hslashes hfillers
    obtain ⟨hfiller, hupwards⟩ := isFiller_stem hstem hrest
    rw [hset, splitOn_setExtension hkept hfiller hupwards hleft hslash,
      cutExtension_append hstem fun hmem => hdot (hbegins.subset hmem), if_neg fun h => hslashes h.1]

/-! ## Extensions that are set -/

/-- A text that is read back as an extension where it is set. -/
structure IsExtension (extension : List Char) : Prop where
  ne_nil : extension ≠ []
  dot_notMem : '.' ∉ extension
  slash_notMem : '/' ∉ extension

theorem isExtension_template : IsExtension "cmx".toList := ⟨by decide, by decide, by decide⟩

theorem isExtension_generated : IsExtension "cm".toList := ⟨by decide, by decide, by decide⟩


/-- Whether the text ends with two dots and the extension of the path, with nothing after them. -/
def endsInDots (path : Path) : Bool :=
  path.extension?.any fun extension =>
    !extension.isEmpty && (Text.splitOn '/' path.text.toList).getLast? == some ('.' :: '.' :: extension)

theorem append_eq_dots_iff : stem ++ '.' :: extension = '.' :: '.' :: extension ↔ stem = ['.'] :=
  (List.append_left_inj _ : stem ++ '.' :: extension = ['.'] ++ '.' :: extension ↔ stem = ['.'])

theorem endsInDots_eq
    (hparts : Text.splitOn '/' path.text.toList = parts ++ (stem ++ '.' :: extension) :: fillers)
    (hstem : stem ≠ []) (hdot : '.' ∉ extension) (hne : extension ≠ [])
    (hfillers : ∀ part ∈ fillers, isFiller part = true) :
    path.endsInDots = decide (fillers = [] ∧ stem = ['.']) := by
  rw [endsInDots, extension?_of_stem hparts hstem hdot hne hfillers, hparts, Option.any_some,
    List.isEmpty_eq_false_iff.mpr hne, Bool.not_false, Bool.true_and]
  rcases List.eq_nil_or_concat' fillers with rfl | ⟨rest, last, rfl⟩
  · simp [beq_eq_decide, append_eq_dots_iff]
  · -- What counts for nothing has one dot at most.
    have hlast : last = [] ∨ last = ['.'] := by simpa [isFiller] using hfillers last (by simp)
    rw [← List.cons_append, ← List.append_assoc, List.getLast?_append_of_ne_nil _ (by simp)]
    rcases hlast with rfl | rfl <;> simp

theorem endsInDots_of_no_extension
    (hextension : ∀ extension, path.extension? = some extension → extension = []) :
    path.endsInDots = false := by
  refine Bool.eq_false_iff.mpr fun hdots => ?_
  obtain ⟨extension, hown, hends⟩ := (Option.any_eq_true _ _).mp hdots
  simp [hextension extension hown] at hends

/-- Where there is no extension, nothing is taken off before another one is set. -/
theorem withExtension_of_no_extension
    (hextension : ∀ extension, path.extension? = some extension → extension = []) (other : List Char) :
    path.withExtension other = path.setExtension other := by
  unfold withExtension
  cases hown : path.extension? with
  | none => rfl
  | some extension =>
      obtain rfl := hextension extension hown
      simp

/-- Where there is no name, none is set. -/
theorem withExtension_of_no_name
    (hname : path.fileName? = none) (other : List Char) :
    path.withExtension other = path := by
  simp only [withExtension, extension?, hname, Option.bind_none, setExtension]

/-- What the parts of a path are when another extension is set, whether it had one or not. -/
theorem splitOn_withExtension_of_name
    (hparts : Text.splitOn '/' path.text.toList = parts ++ name :: fillers)
    (hname : isFiller name = false) (hupwards : name ≠ ['.', '.'])
    (hfillers : ∀ part ∈ fillers, isFiller part = true) (hslash : '/' ∉ other) :
    Text.splitOn '/' (path.withExtension other).text.toList =
      parts ++ [if path.endsInDots then ['.', '.'] else (cutExtension name).1 ++ '.' :: other] := by
  by_cases hextension : ∃ extension, path.extension? = some extension ∧ extension ≠ []
  · obtain ⟨extension, hextension, hne⟩ := hextension
    rw [extension?, fileName?_of_fillers hparts hname hfillers, if_neg hupwards, Option.bind_some] at hextension
    obtain ⟨stem, hstem, hdot, rfl⟩ := exists_stem_of_cutExtension hextension
    rw [splitOn_withExtension_of_fillers hparts hstem hdot hne hfillers hslash,
      endsInDots_eq hparts hstem hdot hne hfillers, cutExtension_append hstem hdot]
    simp only [decide_eq_true_eq]
  · have hnone : ∀ extension, path.extension? = some extension → extension = [] := by simpa using hextension
    rw [withExtension_of_no_extension hnone, endsInDots_of_no_extension hnone,
      splitOn_setExtension hparts hname hupwards hfillers hslash]
    rfl

/-! ## The components -/

/-- What stands before the name of a path is the same for every name. -/
theorem exists_components_of_parts (parts : List (List Char)) :
    ∃ front, ∀ (path : Path) (name : List Char) (fillers : List (List Char)),
      Text.splitOn '/' path.text.toList = parts ++ name :: fillers → isFiller name = false →
      (∀ part ∈ fillers, isFiller part = true) →
      path.components = front ++ [Component.ofPart name] := by
  obtain ⟨anchor, body, hshape⟩ := ofParts_append parts
  refine ⟨anchor.components ++ (body.filter (!isFiller ·)).map Component.ofPart,
    fun path name fillers hparts hname hfillers => ?_⟩
  have hown : path.shape = ⟨anchor, body ++ name :: fillers⟩ := by rw [shape, hparts, hshape name fillers hname]
  rw [components_of_shape hown, List.filter_append, List.filter_cons_of_pos (by simp [hname]), filter_fillers hfillers]
  simp

/-- The name that a path ends with is its last component. -/
theorem fileName?_eq_some_iff :
    path.fileName? = some name ↔ ∃ front, path.components = front ++ [.normal name] := by
  constructor
  · intro hname
    obtain ⟨parts, fillers, hparts, hfiller, hupwards, hfillers⟩ := exists_parts_of_fileName? hname
    obtain ⟨front, hfront⟩ := exists_components_of_parts parts
    exact ⟨front, (hfront path name fillers hparts hfiller hfillers).trans (by rw [Component.ofPart, if_neg hupwards])⟩
  · rintro ⟨front, hfront⟩
    rw [components_eq_trimFillers] at hfront
    rcases List.eq_nil_or_concat' (trimFillers path.shape.body) with hempty | ⟨body, last, hlast⟩
    · -- No beginning of a path is a name.
      rw [hempty] at hfront
      cases hanchor : path.shape.anchor <;> simp [hanchor, Anchor.components, List.singleton_eq_append_iff] at hfront
    · have hend := List.getLast?_eq_some_iff.mpr ⟨body, hlast⟩
      rw [hlast, List.filter_append, List.filter_cons_of_pos (by simp [isFiller_of_getLast? hend]), List.filter_nil,
        List.map_append, ← List.append_assoc] at hfront
      have hpart : Component.ofPart last = .normal name := (List.append_singleton_inj.mp hfront).2
      unfold Component.ofPart at hpart
      split at hpart
      · cases hpart
      · next hupwards =>
          obtain rfl := Component.normal.inj hpart
          simp only [fileName?, hend, if_neg hupwards]

/-- A step upwards is no name. -/
theorem fileName?_of_parent
    (hpath : path.components = front ++ [.parent]) :
    path.fileName? = none := by
  refine Option.eq_none_iff_forall_ne_some.mpr fun name hname => ?_
  obtain ⟨start, hstart⟩ := fileName?_eq_some_iff.mp hname
  simp [hpath] at hstart

/-- The extension of a path is what follows the last dot of its last component, if that is a name and has more before
the dot. -/
theorem extension?_eq_some_iff :
    path.extension? = some extension ↔
      ∃ front stem, path.components = front ++ [.normal (stem ++ '.' :: extension)] ∧ stem ≠ [] ∧ '.' ∉ extension := by
  rw [extension?, Option.bind_eq_some_iff]
  constructor
  · rintro ⟨name, hname, hcut⟩
    obtain ⟨front, hfront⟩ := fileName?_eq_some_iff.mp hname
    obtain ⟨stem, hstem, hdot, rfl⟩ := exists_stem_of_cutExtension hcut
    exact ⟨front, stem, hfront, hstem, hdot⟩
  · rintro ⟨front, stem, hfront, hstem, hdot⟩
    exact ⟨_, fileName?_eq_some_iff.mpr ⟨front, hfront⟩, by rw [cutExtension_append hstem hdot]⟩

/-- With another extension a path ends with its name and that one, or with a step upwards. -/
theorem components_withExtension
    (hpath : path.components = front ++ [.normal name]) (hother : other ≠ []) (hslash : '/' ∉ other) :
    (path.withExtension other).components =
      front ++ [if path.endsInDots then .parent else .normal ((cutExtension name).1 ++ '.' :: other)] := by
  obtain ⟨parts, fillers, hparts, hname, hupwards, hfillers⟩ :=
    exists_parts_of_fileName? (fileName?_eq_some_iff.mpr ⟨front, hpath⟩)
  obtain ⟨start, hstart⟩ := exists_components_of_parts parts
  obtain ⟨rfl, -⟩ := List.append_singleton_inj.mp ((hstart path name fillers hparts hname hfillers).symm.trans hpath)
  have hset := splitOn_withExtension_of_name hparts hname hupwards hfillers hslash
  split at hset
  · next hdots => rw [hstart _ _ [] hset (by decide) (by simp), if_pos hdots, Component.ofPart, if_pos rfl]
  · next hdots =>
      obtain ⟨hnew, hnamed⟩ := isFiller_stem (cutExtension_fst_ne_nil_of_isFiller hname) hother
      rw [hstart _ _ [] hset hnew (by simp), if_neg hdots, Component.ofPart, if_neg hnamed]

/-- A path has the extension that was set, unless a step upwards was left. -/
theorem extension?_withExtension
    (hname : path.fileName? = some name) (hother : IsExtension other) :
    (path.withExtension other).extension? = if path.endsInDots then none else some other := by
  obtain ⟨front, hpath⟩ := fileName?_eq_some_iff.mp hname
  obtain ⟨-, -, -, hfiller, -, -⟩ := exists_parts_of_fileName? hname
  have hset := components_withExtension hpath hother.ne_nil hother.slash_notMem
  split at hset
  · next hdots => rw [if_pos hdots, extension?, fileName?_of_parent hset, Option.bind_none]
  · next hdots =>
      rw [if_neg hdots]
      exact extension?_eq_some_iff.mpr
        ⟨front, _, hset, cutExtension_fst_ne_nil_of_isFiller hfiller, hother.dot_notMem⟩

/-- If the path has a name then, this has the extension. -/
theorem cutExtension_of_withExtension
    (hset : (path.withExtension extension).fileName? = some name) (hextension : IsExtension extension) :
    (cutExtension name).2 = some extension := by
  cases hname : path.fileName? with
  | none =>
      rw [withExtension_of_no_name hname, hname] at hset
      cases hset
  | some last =>
      obtain ⟨front, hpath⟩ := fileName?_eq_some_iff.mp hname
      have hown := extension?_withExtension hname hextension
      split at hown
      · next hdots =>
          have hparent := components_withExtension hpath hextension.ne_nil hextension.slash_notMem
          rw [if_pos hdots] at hparent
          rw [fileName?_of_parent hparent] at hset
          cases hset
      · rwa [extension?, hset] at hown

/-- A path with an extension ends with a name that has it, and with another extension it ends with that name and the
other; only two dots and the extension may be left as a step upwards. -/
theorem exists_components_of_extension?
    (hextension : path.extension? = some extension) (hne : extension ≠ []) :
    ∃ front stem, stem ≠ [] ∧ path.components = front ++ [.normal (stem ++ '.' :: extension)] ∧
      (path.endsInDots = true → stem = ['.']) ∧
      ∀ other, other ≠ [] → '/' ∉ other → (path.withExtension other).components =
        front ++ [if path.endsInDots then .parent else .normal (stem ++ '.' :: other)] := by
  obtain ⟨parts, stem, fillers, hparts, hstem, hdot, hfillers⟩ := exists_parts_of_extension? hextension
  obtain ⟨front, hfront⟩ := exists_components_of_parts parts
  obtain ⟨hfiller, hupwards⟩ := isFiller_stem hstem hne
  have hpath : path.components = front ++ [.normal (stem ++ '.' :: extension)] :=
    (hfront path _ fillers hparts hfiller hfillers).trans (by rw [Component.ofPart, if_neg hupwards])
  refine ⟨front, stem, hstem, hpath, fun hdots => ?_, fun other hother hslash => ?_⟩
  · rw [endsInDots_eq hparts hstem hdot hne hfillers, decide_eq_true_eq] at hdots
    exact hdots.2
  · rw [components_withExtension hpath hother hslash, cutExtension_append hstem hdot]

/-! ## Two paths with one extension -/

/-- With another extension paths are the same if they were the same before and both or neither end in dots. -/
theorem same_withExtension_iff
    (hfirst : first.extension? = some extension) (hsecond : second.extension? = some extension)
    (hextension : IsExtension extension) (hother : IsExtension other) :
    (first.withExtension other).same (second.withExtension other) = true ↔
      first.same second = true ∧ first.endsInDots = second.endsInDots := by
  obtain ⟨front, stem, -, hpath, hstem, hset⟩ := exists_components_of_extension? hfirst hextension.ne_nil
  obtain ⟨front', stem', -, hpath', hstem', hset'⟩ := exists_components_of_extension? hsecond hextension.ne_nil
  rw [same_iff, same_iff, hpath, hpath', hset other hother.ne_nil hother.slash_notMem,
    hset' other hother.ne_nil hother.slash_notMem, List.append_singleton_inj, List.append_singleton_inj,
    Component.normal.injEq, List.append_left_inj]
  -- A step upwards and a name are never one component, and both say what the stem is.
  cases hdots : first.endsInDots <;> cases hdots' : second.endsInDots
  · simp
  · simp
  · simp
  · simp [hstem hdots, hstem' hdots']

theorem template?_eq_some_iff (path template : Path) :
    path.template? = some template ↔
      path.extension? = some "cm".toList ∧ path.withExtension "cmx".toList = template := by
  simp [template?, isGenerated]

/-- Generated files with one template are one file. -/
theorem template?_injective
    {first second template other : Path} (hfirst : first.template? = some template)
    (hsecond : second.template? = some other) (hsame : template.same other = true) :
    first.same second = true := by
  obtain ⟨hextension, rfl⟩ := (template?_eq_some_iff _ _).mp hfirst
  obtain ⟨hextension', rfl⟩ := (template?_eq_some_iff _ _).mp hsecond
  exact ((same_withExtension_iff hextension hextension' isExtension_generated isExtension_template).mp hsame).1

end Path
end CompilerRelay
