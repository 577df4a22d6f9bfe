import CompilerRelay.FileTree.Locate
import CompilerRelay.Proofs.PackageLocation
import CompilerRelay.Template

/-!
# Paths with another extension

A template and the file generated from it stand in one directory and differ in the extension of their names.

**Input.**  A path that ends with a name, with or without slashes and dots after it.

**Algorithm.**  The extension is taken off the end of the text, which leaves the name with its last dot, and the new
one is set.  A name that is two dots and the extension is left as a step upwards, and no extension is set.

**Results.**
* `Path.splitOn_setExtension`: an extension is set on the name without its own, whatever stands after it.
* `Path.splitOn_withExtension`: another extension changes the last part and no other.
* `Path.sibling_cases`: what a path with an extension becomes with another.
-/

namespace CompilerRelay

theorem Text.join_append_singleton
    {α : Type} (separator : List α) {pieces : List (List α)} (hpieces : pieces ≠ []) (piece : List α) :
    join separator (pieces ++ [piece]) = join separator pieces ++ (separator ++ piece) := by
  induction pieces with
  | nil => exact absurd rfl hpieces
  | cons first rest ih =>
      cases rest with
      | nil => simp [join]
      | cons second rest =>
          rw [List.cons_append, List.cons_append, join_cons_cons, ← List.cons_append, ih (by simp), join_cons_cons]
          simp

/-- What is joined to pieces stands at the end of the text. -/
theorem Text.exists_join_append
    {α : Type} (separator : List α) (pieces : List (List α)) :
    ∃ front, ∀ piece, join separator (pieces ++ [piece]) = front ++ piece := by
  by_cases hpieces : pieces = []
  · subst hpieces
    exact ⟨[], fun piece => by simp [join]⟩
  · refine ⟨join separator pieces ++ separator, fun piece => ?_⟩
    rw [join_append_singleton separator hpieces, List.append_assoc]

namespace Path

/-! ## Names -/

theorem cutExtension_append
    {stem extension : List Char} (hstem : stem ≠ []) (hextension : '.' ∉ extension) :
    cutExtension (stem ++ '.' :: extension) = (stem, some extension) := by
  have hdots : ∀ char ∈ extension.reverse, decide (char ≠ '.') = true := by
    intro char hmem
    rw [List.mem_reverse] at hmem
    exact decide_eq_true fun hdot => hextension (hdot ▸ hmem)
  have hreverse : (stem ++ '.' :: extension).reverse = extension.reverse ++ '.' :: stem.reverse := by simp
  have htaken : (extension.reverse ++ '.' :: stem.reverse).takeWhile (· ≠ '.') = extension.reverse := by
    rw [List.takeWhile_append_of_pos hdots]
    simp
  have hdropped : (extension.reverse ++ '.' :: stem.reverse).dropWhile (· ≠ '.') = '.' :: stem.reverse := by
    rw [List.dropWhile_append_of_pos hdots]
    simp
  unfold cutExtension
  rw [hreverse, htaken, hdropped, List.reverse_reverse]
  split
  · next h => cases h
  · next h => simp at h; exact absurd h.2 hstem
  · next h =>
      obtain ⟨-, rfl⟩ := List.cons.inj h
      rw [List.reverse_reverse]

/-- A name with an extension is a stem, a dot and the extension. -/
theorem exists_stem_of_cutExtension
    {name extension : List Char} (h : (cutExtension name).2 = some extension) :
    ∃ stem, stem ≠ [] ∧ '.' ∉ extension ∧ name = stem ++ '.' :: extension := by
  have hsplit := List.takeWhile_append_dropWhile (p := (· ≠ '.')) (l := name.reverse)
  have hdot : '.' ∉ name.reverse.takeWhile (· ≠ '.') := fun hmem => by
    simpa using List.all_eq_true.mp List.all_takeWhile '.' hmem
  unfold cutExtension at h
  split at h
  · cases h
  · cases h
  · next first stem hne hdropped =>
      obtain rfl := Option.some.inj h
      -- What is dropped begins with the dot that ended the taking.
      have hfirst : first = '.' := by
        have hhead := List.head?_dropWhile_not (· ≠ '.') name.reverse
        rw [hdropped] at hhead
        simpa using hhead
      refine ⟨stem.reverse, by simpa using hne, by simpa using hdot, ?_⟩
      rw [hdropped, hfirst] at hsplit
      have hname := congrArg List.reverse hsplit
      rw [List.reverse_reverse, List.reverse_append, List.reverse_cons, List.append_assoc,
        List.singleton_append] at hname
      exact hname.symm

theorem cutExtension_fst_ne_nil {name : List Char} (hname : name ≠ []) : (cutExtension name).1 ≠ [] := by
  unfold cutExtension
  split
  · exact hname
  · exact hname
  · next first stem hne _ => simpa using hne

theorem mem_of_mem_cutExtension
    {name : List Char} {char : Char} (h : char ∈ (cutExtension name).1) :
    char ∈ name := by
  unfold cutExtension at h
  split at h
  · exact h
  · exact h
  · next first stem _ hdropped =>
      have hmem : char ∈ name.reverse.dropWhile (· ≠ '.') := hdropped ▸ List.mem_cons_of_mem _ (List.mem_reverse.mp h)
      exact List.mem_reverse.mp ((List.dropWhile_sublist _).subset hmem)

/-! ## Paths that end with a name -/

section Named

variable {path : Path} {parts fillers : List (List Char)} {name stem extension other : List Char}

theorem fileName?_of_fillers
    (hparts : Text.splitOn '/' path.text.toList = parts ++ name :: fillers) (hname : isFiller name = false)
    (hfillers : ∀ part ∈ fillers, isFiller part = true) :
    path.fileName? = if name = ['.', '.'] then none else some name := by
  obtain ⟨anchor, body, hshape⟩ := ofParts_append parts
  simp [fileName?, shape, hparts, hshape name fillers hname, trimFillers_append_fillers body hname hfillers]

theorem fileName?_of_parts
    (hparts : Text.splitOn '/' path.text.toList = parts ++ [name]) (hname : isFiller name = false) :
    path.fileName? = if name = ['.', '.'] then none else some name :=
  fileName?_of_fillers hparts hname (by simp)

/-- A stem and a dot make no filler. -/
theorem isFiller_append_dot
    (hstem : stem ≠ []) (extension : List Char) :
    isFiller (stem ++ '.' :: extension) = false := by
  obtain ⟨first, rest, rfl⟩ := List.exists_cons_of_ne_nil hstem
  cases rest <;> simp [isFiller]

/-- A name with an extension is no filler and no step upwards. -/
theorem isFiller_stem
    (hstem : stem ≠ []) (hextension : extension ≠ []) :
    isFiller (stem ++ '.' :: extension) = false ∧ stem ++ '.' :: extension ≠ ['.', '.'] := by
  refine ⟨isFiller_append_dot hstem extension, ?_⟩
  obtain ⟨first, rest, rfl⟩ := List.exists_cons_of_ne_nil hstem
  obtain ⟨second, others, rfl⟩ := List.exists_cons_of_ne_nil hextension
  cases rest <;> simp

theorem cutExtension_fst_ne_nil_of_isFiller (hname : isFiller name = false) : (cutExtension name).1 ≠ [] :=
  cutExtension_fst_ne_nil fun hempty => by simp [hempty, isFiller] at hname

theorem extension?_of_stem
    (hparts : Text.splitOn '/' path.text.toList = parts ++ (stem ++ '.' :: extension) :: fillers)
    (hstem : stem ≠ []) (hdot : '.' ∉ extension) (hextension : extension ≠ [])
    (hfillers : ∀ part ∈ fillers, isFiller part = true) :
    path.extension? = some extension := by
  obtain ⟨hfiller, hupwards⟩ := isFiller_stem hstem hextension
  rw [extension?, fileName?_of_fillers hparts hfiller hfillers, if_neg hupwards]
  exact congrArg Prod.snd (cutExtension_append hstem hdot)

theorem extension?_of_parts
    (hparts : Text.splitOn '/' path.text.toList = parts ++ [name]) (hname : isFiller name = false)
    (hextension : path.extension? = some extension) :
    ∃ stem, stem ≠ [] ∧ '.' ∉ extension ∧ name = stem ++ '.' :: extension := by
  rw [extension?, fileName?_of_parts hparts hname] at hextension
  split at hextension
  · cases hextension
  · exact exists_stem_of_cutExtension hextension

/-- Another last part is cut off again where it was put. -/
theorem splitOn_join_last
    {text : List Char} (hparts : Text.splitOn '/' text = parts ++ [name]) {last : List Char} (hlast : '/' ∉ last) :
    Text.splitOn '/' (Text.join ['/'] (parts ++ [last])) = parts ++ [last] := by
  have hopen : ∀ piece ∈ parts ++ [last], '/' ∉ piece := by
    intro piece hmem
    rcases List.mem_append.mp hmem with hpart | hend
    · exact Text.separator_notMem_of_mem_splitOn (hparts ▸ List.mem_append_left _ hpart)
    · exact List.mem_singleton.mp hend ▸ hlast
  cases hpieces : parts ++ [last] with
  | nil => simp at hpieces
  | cons first rest => exact Text.splitOn_join (hpieces ▸ hopen)

theorem slash_notMem_of_parts
    {text : List Char} (hparts : Text.splitOn '/' text = parts ++ [name]) :
    '/' ∉ name :=
  Text.separator_notMem_of_mem_splitOn (hparts ▸ List.mem_append_right _ (List.mem_singleton_self name))

/-- Taking the extension off the end of the text leaves the name with its last dot. -/
theorem splitOn_dropped
    (hparts : Text.splitOn '/' path.text.toList = parts ++ [stem ++ '.' :: extension]) :
    Text.splitOn '/' (path.text.toList.take (path.text.toList.length - extension.length)) =
      parts ++ [stem ++ ['.']] := by
  obtain ⟨front, hfront⟩ := Text.exists_join_append ['/'] parts
  have htext : path.text.toList = front ++ (stem ++ ['.']) ++ extension := by
    rw [← Text.join_splitOn '/' path.text.toList, hparts, hfront]
    simp
  have htaken : path.text.toList.take (path.text.toList.length - extension.length) = front ++ (stem ++ ['.']) := by
    rw [htext, List.length_append, Nat.add_sub_cancel, List.take_left]
  have hslash : '/' ∉ stem ++ ['.'] := by
    have hname := slash_notMem_of_parts hparts
    simp_all
  rw [htaken, ← hfront]
  exact splitOn_join_last hparts hslash

/-- What another extension is set on: the path whose name has lost the old one. -/
theorem exists_kept
    (hparts : Text.splitOn '/' path.text.toList = parts ++ [stem ++ '.' :: extension])
    (hstem : stem ≠ []) (hdot : '.' ∉ extension) (hextension : extension ≠ []) :
    ∃ kept : Path, Text.splitOn '/' kept.text.toList = parts ++ [stem ++ ['.']] ∧
      ∀ other, path.withExtension other = kept.setExtension other := by
  have hprevious := extension?_of_stem hparts hstem hdot hextension (by simp)
  refine ⟨⟨String.ofList (path.text.toList.take (path.text.toList.length - extension.length))⟩, ?_, fun other => ?_⟩
  · rw [String.toList_ofList]
    exact splitOn_dropped hparts
  · simp [withExtension, hprevious]

/-- An extension is set on the name without its own, whatever counts for nothing after it. -/
theorem splitOn_setExtension
    (hparts : Text.splitOn '/' path.text.toList = parts ++ name :: fillers)
    (hname : isFiller name = false) (hupwards : name ≠ ['.', '.'])
    (hfillers : ∀ part ∈ fillers, isFiller part = true) (hslash : '/' ∉ other) :
    Text.splitOn '/' (path.setExtension other).text.toList = parts ++ [(cutExtension name).1 ++ '.' :: other] := by
  obtain ⟨anchor, body, hshape⟩ := ofParts_append parts
  have hset : path.setExtension other = ofShape ⟨anchor, body ++ [(cutExtension name).1 ++ '.' :: other]⟩ := by
    rw [setExtension, fileName?_of_fillers hparts hname hfillers, if_neg hupwards, shape, hparts, hshape _ _ hname]
    simp only
    rw [trimFillers_append_fillers body hname hfillers, List.dropLast_concat]
  have hnew := isFiller_append_dot (cutExtension_fst_ne_nil_of_isFiller hname) other
  have hold : ∀ piece ∈ parts ++ name :: fillers, '/' ∉ piece := fun piece hpiece =>
    Text.separator_notMem_of_mem_splitOn (hparts ▸ hpiece)
  have hnamed : '/' ∉ (cutExtension name).1 := fun hmem => hold name (by simp) (mem_of_mem_cutExtension hmem)
  have hopen : ∀ piece ∈ parts ++ [(cutExtension name).1 ++ '.' :: other], '/' ∉ piece :=
    List.forall_mem_append.mpr ⟨fun piece hpiece => hold piece (List.mem_append_left _ hpiece),
      by simp [hnamed, hslash]⟩
  obtain ⟨first, rest, hpieces⟩ :=
    List.exists_cons_of_ne_nil (by simp : parts ++ [(cutExtension name).1 ++ '.' :: other] ≠ [])
  rw [hset, ← hshape _ [] hnew, ofShape_ofParts (by simp), String.toList_ofList, hpieces]
  rw [hpieces] at hopen
  exact Text.splitOn_join hopen

/-- Another extension changes the last part and no other. -/
theorem splitOn_withExtension
    (hparts : Text.splitOn '/' path.text.toList = parts ++ [stem ++ '.' :: extension])
    (hstem : stem ≠ []) (hnamed : stem ≠ ['.']) (hdot : '.' ∉ extension) (hextension : extension ≠ [])
    (hslash : '/' ∉ other) :
    Text.splitOn '/' (path.withExtension other).text.toList = parts ++ [stem ++ '.' :: other] := by
  obtain ⟨kept, hkept, hset⟩ := exists_kept hparts hstem hdot hextension
  -- What is left of the name is no step upwards, since the stem is not a dot.
  have hupwards : stem ++ ['.'] ≠ ['.', '.'] := fun h =>
    hnamed (List.append_cancel_right (h : stem ++ ['.'] = ['.'] ++ ['.']))
  rw [hset, splitOn_setExtension hkept (isFiller_append_dot hstem []) hupwards (by simp) hslash,
    cutExtension_append hstem List.not_mem_nil]

/-- A name that is two dots and the extension is left as a step upwards. -/
theorem splitOn_withExtension_dots
    (hparts : Text.splitOn '/' path.text.toList = parts ++ [['.'] ++ '.' :: extension])
    (hdot : '.' ∉ extension) (hextension : extension ≠ []) (other : List Char) :
    Text.splitOn '/' (path.withExtension other).text.toList = parts ++ [['.', '.']] := by
  obtain ⟨kept, hkept, hset⟩ := exists_kept hparts (by simp) hdot hextension
  have hname : kept.fileName? = none := (fileName?_of_parts hkept (by decide)).trans (if_pos rfl)
  rw [hset, setExtension, hname]
  exact hkept

/-- What a path with an extension becomes with another: its sibling, or a step upwards. -/
theorem sibling_cases
    (hparts : Text.splitOn '/' path.text.toList = parts ++ [name]) (hname : isFiller name = false)
    (hextension : path.extension? = some extension) (hne : extension ≠ [])
    (hslash : '/' ∉ other) :
    ∃ stem, stem ≠ [] ∧ name = stem ++ '.' :: extension ∧
      (Text.splitOn '/' (path.withExtension other).text.toList = parts ++ [stem ++ '.' :: other] ∨
        Text.splitOn '/' (path.withExtension other).text.toList = parts ++ [['.', '.']]) := by
  obtain ⟨stem, hstem, hdot, rfl⟩ := extension?_of_parts hparts hname hextension
  refine ⟨stem, hstem, rfl, ?_⟩
  by_cases hdots : stem = ['.']
  · subst hdots
    exact Or.inr (splitOn_withExtension_dots hparts hdot hne other)
  · exact Or.inl (splitOn_withExtension hparts hstem hdots hdot hne hslash)

end Named

/-! ## Slashes and dots after the name -/

/-- The last part that is followed is the name of the path, whatever slashes stand after it. -/
theorem fileName?_of_stepsOf
    {path : Path} {front : List Name} {name : Name} (h : FileTree.stepsOf path = front ++ [name])
    (hname : IsFileName name) :
    path.fileName? = some name := by
  obtain ⟨first, second, hparts, -, hsecond⟩ := List.filter_eq_append_iff.mp h
  obtain ⟨before, fillers, rfl, -, -, hrest⟩ := List.filter_eq_cons_iff.mp hsecond
  have hfillers : ∀ part ∈ fillers, isFiller part = true := fun part hpart => by
    have hempty := List.filter_eq_nil_iff.mp hrest part hpart
    simp_all [isFiller]
  have hfiller : isFiller name = false := by simp [isFiller, hname.ne_nil, hname.ne_current]
  rw [← List.append_assoc] at hparts
  exact (fileName?_of_fillers hparts hfiller hfillers).trans (if_neg hname.ne_parent)

theorem isFiller_of_getLast?
    {body : List (List Char)} {last : List Char} (h : (trimFillers body).getLast? = some last) :
    isFiller last = false := by
  rw [trimFillers, List.getLast?_reverse] at h
  have hhead := List.head?_dropWhile_not isFiller body.reverse
  rw [h] at hhead
  simpa using hhead

/-- The name of a path is its last part that counts. -/
theorem getLast?_of_fileName?
    {path : Path} {name : List Char} (hname : path.fileName? = some name) :
    (trimFillers path.shape.body).getLast? = some name ∧ name ≠ ['.', '.'] := by
  unfold fileName? at hname
  split at hname
  · cases hname
  · next last hlast =>
      split at hname
      · cases hname
      · next hupwards =>
          obtain rfl := Option.some.inj hname
          exact ⟨hlast, hupwards⟩

end Path
end CompilerRelay
