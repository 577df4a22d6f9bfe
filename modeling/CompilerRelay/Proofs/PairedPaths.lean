import CompilerRelay.Proofs.ExtensionPairs

/-!
# Pairs of templates and generated files

The path of a template tells that of the file generated from it, and the other way round.

**Input.**  Any path, with whatever slashes and dots after its name, and with any dots in the name.

**Form.**  `Path.IsPair`: a template and a generated file, each of which is told by the other.

**Algorithm.**  One extension is set in place of the other, and then the first one again.  Both times the name keeps its
stem, unless that is a single dot: a name that is two dots and the extension is left as a step upwards, the first time
where nothing stands after it, or else the second time.

**Results.**
* `Path.same_withExtension_back_iff`: when setting the first extension again leads back.
* `Path.isPair_generated_iff`, `Path.isPair_template_iff`: when a path and the one that it tells are a pair.
* `Path.pairing_law`: which templates and generated files are paired, and that none are confused.
-/

namespace CompilerRelay
namespace Path

variable {path template : Path} {front : List Component} {name extension other : List Char}

/-- A template and a generated file, each of which is told by the other. -/
structure IsPair (template generated : Path) : Prop where
  isTemplate : template.isTemplate = true
  isGenerated : generated.isGenerated = true
  generated_same : template.generated.same generated = true
  template?_same : ∃ other, generated.template? = some other ∧ other.same template = true

/-! ## There and back -/

/-- Where the first extension is set again, the path is what it was, unless its name is two dots and the extension. -/
theorem same_withExtension_back_iff
    (hextension : path.extension? = some extension) (hown : IsExtension extension) (hother : IsExtension other) :
    ((path.withExtension other).withExtension extension).same path = true ↔
      path.fileName? ≠ some ('.' :: '.' :: extension) := by
  obtain ⟨parts, stem, fillers, hparts, hstem, hend, hfillers⟩ := exists_parts_of_extension? hextension
  obtain ⟨front, hfront⟩ := exists_components_of_parts parts
  obtain ⟨hfiller, hupwards⟩ := isFiller_stem hstem hown.ne_nil
  have hback : Text.splitOn '/' ((path.withExtension other).withExtension extension).text.toList =
      parts ++ [if stem = ['.'] then ['.', '.'] else stem ++ '.' :: extension] := by
    have hset := splitOn_withExtension_of_fillers hparts hstem hend hown.ne_nil hfillers hother.slash_notMem
    split at hset
    · next hdots =>
        have hnone : (path.withExtension other).fileName? = none :=
          (fileName?_of_parts hset (by decide)).trans (if_pos rfl)
        rw [withExtension_of_no_name hnone, hset, if_pos hdots.2]
    · -- Nothing stands after the name any more, so only its stem matters now.
      rw [splitOn_withExtension_of_fillers hset hstem hother.dot_notMem hother.ne_nil (by simp) hown.slash_notMem]
      simp
  have hname : path.fileName? = some (stem ++ '.' :: extension) :=
    (fileName?_of_fillers hparts hfiller hfillers).trans (if_neg hupwards)
  rw [same_iff, hname, ne_eq, Option.some.injEq, append_eq_dots_iff, hfront path _ fillers hparts hfiller hfillers]
  by_cases hdots : stem = ['.']
  · rw [if_pos hdots] at hback
    rw [hfront _ _ [] hback (by decide) (by simp)]
    simp [hdots, Component.ofPart, hown.ne_nil]
  · rw [if_neg hdots] at hback
    rw [hfront _ _ [] hback hfiller (by simp)]
    simp [hdots]

/-- Only a path whose name is two dots and the extension ends with them. -/
theorem endsInDots_of_name_ne
    (hextension : path.extension? = some extension) (hown : IsExtension extension)
    (hname : path.fileName? ≠ some ('.' :: '.' :: extension)) :
    path.endsInDots = false := by
  obtain ⟨front, stem, -, hpath, hstem, -⟩ := exists_components_of_extension? hextension hown.ne_nil
  refine Bool.eq_false_iff.mpr fun hdots => hname ?_
  rw [hstem hdots] at hpath
  exact fileName?_eq_some_iff.mpr ⟨front, hpath⟩

/-! ## Templates and generated files -/

theorem isTemplate_iff : path.isTemplate = true ↔ path.extension? = some "cmx".toList := beq_iff_eq

theorem isGenerated_iff : path.isGenerated = true ↔ path.extension? = some "cm".toList := beq_iff_eq

theorem isGenerated_generated
    (htemplate : path.isTemplate = true) :
    path.generated.isGenerated = !path.endsInDots := by
  obtain ⟨name, hname, -⟩ := Option.bind_eq_some_iff.mp (isTemplate_iff.mp htemplate)
  rw [generated, if_pos htemplate, isGenerated, extension?_withExtension hname isExtension_generated]
  cases path.endsInDots <;> rfl

theorem isTemplate_template
    (hgenerated : path.template? = some template) :
    template.isTemplate = !path.endsInDots := by
  obtain ⟨hextension, rfl⟩ := (template?_eq_some_iff _ _).mp hgenerated
  obtain ⟨name, hname, -⟩ := Option.bind_eq_some_iff.mp hextension
  rw [isTemplate, extension?_withExtension hname isExtension_template]
  cases path.endsInDots <;> rfl

/-- A template and what is generated from it are a pair, unless its name is two dots and the extension. -/
theorem isPair_generated_iff
    (htemplate : path.isTemplate = true) :
    IsPair path path.generated ↔ path.fileName? ≠ some "..cmx".toList := by
  have hextension := isTemplate_iff.mp htemplate
  have hback : (path.generated.withExtension "cmx".toList).same path = true ↔ path.fileName? ≠ some "..cmx".toList := by
    rw [generated, if_pos htemplate]
    exact same_withExtension_back_iff hextension isExtension_template isExtension_generated
  constructor
  · intro hpair
    obtain ⟨other, hother, hsame⟩ := hpair.template?_same
    obtain ⟨-, rfl⟩ := (template?_eq_some_iff _ _).mp hother
    exact hback.mp hsame
  · intro hname
    have hdots : path.endsInDots = false := endsInDots_of_name_ne hextension isExtension_template hname
    have hgenerated : path.generated.isGenerated = true := by
      rw [isGenerated_generated htemplate, hdots, Bool.not_false]
    exact {
      isTemplate := htemplate
      isGenerated := hgenerated
      generated_same := same_refl _
      template?_same := ⟨_, (template?_eq_some_iff _ _).mpr ⟨isGenerated_iff.mp hgenerated, rfl⟩, hback.mpr hname⟩ }

/-- So are a generated file and its template. -/
theorem isPair_template_iff
    (hgenerated : path.template? = some template) :
    IsPair template path ↔ path.fileName? ≠ some "..cm".toList := by
  obtain ⟨hextension, htemplate⟩ := (template?_eq_some_iff _ _).mp hgenerated
  have hback : (template.withExtension "cm".toList).same path = true ↔ path.fileName? ≠ some "..cm".toList := by
    rw [← htemplate]
    exact same_withExtension_back_iff hextension isExtension_generated isExtension_template
  constructor
  · intro hpair
    have hsame := hpair.generated_same
    rw [generated, if_pos hpair.isTemplate] at hsame
    exact hback.mp hsame
  · intro hname
    have hdots : path.endsInDots = false := endsInDots_of_name_ne hextension isExtension_generated hname
    have hown : template.isTemplate = true := by rw [isTemplate_template hgenerated, hdots, Bool.not_false]
    exact {
      isTemplate := hown
      isGenerated := isGenerated_iff.mpr hextension
      generated_same := by rw [generated, if_pos hown]; exact hback.mpr hname
      template?_same := ⟨template, hgenerated, same_refl _⟩ }

/-- Cut at its last dot, a name is its stem, and the extension after it if there is one. -/
theorem cutExtension_cases (name : List Char) :
    (cutExtension name).2 = none ∧ name = (cutExtension name).1 ∨
      ∃ extension, (cutExtension name).2 = some extension ∧ name = (cutExtension name).1 ++ '.' :: extension := by
  cases hcut : (cutExtension name).2 with
  | none =>
      refine Or.inl ⟨rfl, ?_⟩
      unfold cutExtension at hcut ⊢
      split at hcut
      · rfl
      · rfl
      · cases hcut
  | some extension =>
      obtain ⟨stem, hstem, hdot, rfl⟩ := exists_stem_of_cutExtension hcut
      exact Or.inr ⟨extension, rfl, by rw [cutExtension_append hstem hdot]⟩

/-! ## The law -/

/-- **Pairs of paths.**  No path is that of a template and of a generated file.  A template and what is generated from
it are a pair, and so are a generated file and its template, exactly if the name of the path is not two dots and the
extension.  Two templates have one generated file, and two generated files one template, exactly if they are the same
and the text of both or of neither ends with two dots and the extension.  A path has an extension if that follows the
last dot of its last component and more stands before it, and with another one it ends with the same stem and that;
but if its text ends with two dots and the extension, it ends with a step upwards. -/
theorem pairing_law (path : Path) :
    ¬ (path.isTemplate = true ∧ path.isGenerated = true) ∧
    (path.isTemplate = true →
      path.generated.isGenerated = !path.endsInDots ∧
      (IsPair path path.generated ↔ path.fileName? ≠ some "..cmx".toList) ∧
      ∀ other : Path, other.isTemplate = true →
        (path.generated.same other.generated = true ↔
          path.same other = true ∧ path.endsInDots = other.endsInDots)) ∧
    (path.isGenerated = true → ∃ template, path.template? = some template ∧
      template.isTemplate = !path.endsInDots ∧
      (IsPair template path ↔ path.fileName? ≠ some "..cm".toList) ∧
      ∀ other source : Path, other.template? = some source →
        (template.same source = true ↔ path.same other = true ∧ path.endsInDots = other.endsInDots)) ∧
    (∀ extension, path.extension? = some extension ↔
      ∃ front stem, path.components = front ++ [.normal (stem ++ '.' :: extension)] ∧ stem ≠ [] ∧ '.' ∉ extension) ∧
    ∀ other, other ≠ [] → '/' ∉ other →
      ((∀ front name, path.components ≠ front ++ [.normal name]) → path.withExtension other = path) ∧
      ∀ front name, path.components = front ++ [.normal name] →
        ∃ stem, (path.extension? = none ∧ name = stem ∨
            ∃ extension, path.extension? = some extension ∧ name = stem ++ '.' :: extension) ∧
          (path.withExtension other).components =
            front ++ [if path.endsInDots then .parent else .normal (stem ++ '.' :: other)] := by
  refine ⟨?_, fun htemplate => ⟨isGenerated_generated htemplate, isPair_generated_iff htemplate,
    fun other hother => ?_⟩, fun hgenerated => ?_, fun _ => extension?_eq_some_iff,
    fun other hother hslash => ⟨fun hnamed => ?_, ?_⟩⟩
  · rintro ⟨htemplate, hgenerated⟩
    rw [isTemplate_iff] at htemplate
    rw [isGenerated_iff, htemplate] at hgenerated
    exact absurd hgenerated (by decide)
  · rw [generated, generated, if_pos htemplate, if_pos hother]
    exact same_withExtension_iff (isTemplate_iff.mp htemplate) (isTemplate_iff.mp hother) isExtension_template
      isExtension_generated
  · have hextension := isGenerated_iff.mp hgenerated
    have htemplate := (template?_eq_some_iff path _).mpr ⟨hextension, rfl⟩
    refine ⟨_, htemplate, isTemplate_template htemplate, isPair_template_iff htemplate, fun other source hsource => ?_⟩
    obtain ⟨hother, rfl⟩ := (template?_eq_some_iff _ _).mp hsource
    exact same_withExtension_iff hextension hother isExtension_generated isExtension_template
  · refine withExtension_of_no_name (Option.eq_none_iff_forall_ne_some.mpr fun name hname => ?_) other
    obtain ⟨front, hfront⟩ := fileName?_eq_some_iff.mp hname
    exact hnamed front name hfront
  · intro front name hpath
    have hname : path.extension? = (cutExtension name).2 := by
      rw [extension?, fileName?_eq_some_iff.mpr ⟨front, hpath⟩, Option.bind_some]
    exact ⟨(cutExtension name).1, hname ▸ cutExtension_cases name, components_withExtension hpath hother hslash⟩

/-! ## Dots and slashes around the name -/

/-- Names with several dots, in paths with slashes and dots around them, are paired; a step upwards has no extension to
be changed, and a name that is a dot and the extension has none yet. -/
theorem pairing_law_hidden :
    isTemplate ⟨"./custom//a.b/.w.x.cmx/."⟩ = true ∧
      IsPair ⟨"./custom//a.b/.w.x.cmx/."⟩ ⟨"./custom//a.b/.w.x.cm"⟩ ∧
      Path.same (generated ⟨"./custom//a.b/.w.x.cmx/."⟩) (generated ⟨"./custom/a.b/.w.x.cmx"⟩) = true ∧
      isGenerated ⟨"/..w.cm//"⟩ = true ∧ IsPair ⟨"/..w.cmx"⟩ ⟨"/..w.cm//"⟩ ∧
      Path.same ⟨"/..w.cmx"⟩ ⟨"/./..w.cmx"⟩ = true ∧
      withExtension ⟨"a/../"⟩ "cm".toList = ⟨"a/../"⟩ ∧
      (withExtension ⟨"a/.cmx/"⟩ "cm".toList).components = [.normal ['a'], .normal ".cmx.cm".toList] := by
  have htemplate : isTemplate ⟨"./custom//a.b/.w.x.cmx/."⟩ = true := by decide +kernel
  have hgenerated : isGenerated ⟨"/..w.cm//"⟩ = true := by decide +kernel
  obtain ⟨-, hpair, hone⟩ := (pairing_law ⟨"./custom//a.b/.w.x.cmx/."⟩).2.1 htemplate
  obtain ⟨template, htold, -, hback, honly⟩ := (pairing_law ⟨"/..w.cm//"⟩).2.2.1 hgenerated
  have hwritten : template? ⟨"/..w.cm//"⟩ = some ⟨"/..w.cmx"⟩ := by decide +kernel
  obtain rfl := Option.some.inj (hwritten.symm.trans htold)
  have hupwards : components ⟨"a/../"⟩ = [.normal ['a']] ++ [.parent] := by decide +kernel
  have hkept := ((pairing_law ⟨"a/../"⟩).2.2.2.2 "cm".toList (by decide) (by decide)).1 fun front name hpath => by
    cases (List.append_singleton_inj.mp (hupwards.symm.trans hpath)).2
  have hset : (withExtension ⟨"a/.cmx/"⟩ "cm".toList).components = [.normal ['a'], .normal ".cmx.cm".toList] := by
    obtain ⟨stem, ⟨-, rfl⟩ | ⟨extension, hextension, -⟩, hcomponents⟩ :=
      ((pairing_law ⟨"a/.cmx/"⟩).2.2.2.2 "cm".toList (by decide) (by decide)).2 [.normal ['a']] ".cmx".toList
        (by decide +kernel)
    · exact hcomponents.trans (by decide +kernel)
    · have hnone : extension? ⟨"a/.cmx/"⟩ = none := by decide +kernel
      rw [hnone] at hextension
      cases hextension
  exact ⟨htemplate, hpair.mpr (by decide +kernel),
    (hone ⟨"./custom/a.b/.w.x.cmx"⟩ (by decide +kernel)).mpr (by decide +kernel), hgenerated,
    hback.mpr (by decide +kernel), (honly ⟨"/./..w.cm"⟩ ⟨"/./..w.cmx"⟩ (by decide +kernel)).mpr (by decide +kernel),
    hkept, hset⟩

/-- A name that is two dots and the extension is left as a step upwards, which is neither generated nor a template. -/
theorem two_dots_unpaired :
    isTemplate ⟨"..cmx"⟩ = true ∧ generated ⟨"..cmx"⟩ = ⟨".."⟩ ∧ isGenerated ⟨".."⟩ = false ∧
      template? (generated ⟨"..cmx"⟩) = none ∧
      isGenerated ⟨"..cm"⟩ = true ∧ template? ⟨"..cm"⟩ = some ⟨".."⟩ ∧ isTemplate ⟨".."⟩ = false ∧
      isTemplate ⟨"..cmx/"⟩ = true ∧ generated ⟨"..cmx/"⟩ = ⟨"..cm"⟩ := by
  decide +kernel

end Path
end CompilerRelay
