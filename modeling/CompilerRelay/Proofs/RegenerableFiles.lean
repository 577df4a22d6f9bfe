import CompilerRelay.Proofs.TemplateRemoval

/-!
# Files that can be generated again

What becomes of a file that cleaning removed when all files are generated afterwards.

**Input.**  A tree in order in which every entry is listed once.  There may be links, also among the templates.

**Form.**  `Template.Returns`: the file is made again.  `Template.Stays`: it is not.

**Algorithm.**  Cleaning follows the path of a template, so that a link to a file will do.  The walk of the generation
looks at the entries, of which only those are templates that are files themselves.

**Results.**
* `Template.regeneration_law`: a file that cleaning removed is made again exactly if its template is no link.
* `Template.Linked.clean_loses_source`: a file is lost whose template is a link.
-/

namespace CompilerRelay
namespace Template

open FileTree

variable {tree cleaned built : FileTree} {root : Path} {place : Place} {item : Stem} {removed generated : List Path}

/-- The file of a stem is made again, of a template that is a file. -/
structure Returns (root : Path) (place : Place) (tree built : FileTree) (generated : List Path) (item : Stem) :
    Prop where
  mem : (customDirectory root).below item.generated ∈ generated
  product : ∃ id content executable number, tree.find? (place ++ item.template) = some (.file id content executable) ∧
    built.find? (place ++ item.generated) =
      (product? root ((customDirectory root).below item.template) content).map fun bytes => .file number bytes false

/-- The file of a stem stays away, since the template is a link. -/
structure Stays (root : Path) (place : Place) (tree built : FileTree) (generated : List Path) (item : Stem) :
    Prop where
  link : ∃ target, tree.find? (place ++ item.template) = some (.link target)
  notMem : (customDirectory root).below item.generated ∉ generated
  gone : built.find? (place ++ item.generated) = none

/-- What cleaning returns are files of stems with a template, which are gone afterwards. -/
theorem exists_chosen_of_clean
    (hproper : tree.Proper) (hpackages : IsPackages root tree place)
    (hclean : clean root tree = (.ok removed, cleaned)) :
    ∃ chosen, chosen ⊆ stems "cm".toList tree place ∧ cleaned = without place tree chosen ∧
      removed = chosen.map (fun item => (customDirectory root).below item.generated) ∧
      ∀ item ∈ chosen, tree.leadsToFile (place ++ item.directories) (templateName item.base) = true := by
  obtain ⟨hopens, -⟩ := (clean_eq_ok_iff hproper.toSound hpackages).mp hclean
  obtain ⟨chosen, hsublist, hremoved, hleads, -⟩ := clean_eq hproper hpackages hopens
  obtain ⟨hresult, rfl⟩ := Prod.mk.inj (hclean.symm.trans hremoved)
  exact ⟨chosen, hsublist.subset, rfl, Except.ok.inj hresult, hleads⟩

section Afterwards

variable {chosen : List Stem}

/-- A template that is a file is still there, and the walk of the generation comes to it. -/
theorem returns_of_isFile
    (hcleaned : (without place tree chosen).Sound)
    (hgenerated : generated = (stems "cmx".toList (without place tree chosen) place).map fun item =>
      (customDirectory root).below item.generated)
    (hmakes : Makes root place (without place tree chosen) built (stems "cmx".toList (without place tree chosen) place))
    (hbase : item.base ≠ []) (htemplate : (tree.find? (place ++ item.template)).any Node.isFile = true) :
    Returns root place tree built generated item := by
  obtain ⟨id, content, executable, hnode⟩ := any_isFile_iff.mp htemplate
  rw [← find?_template_without place tree chosen] at htemplate
  have hmem : item ∈ stems "cmx".toList (without place tree chosen) place :=
    (mem_stems hcleaned (by decide)).mpr ⟨hbase, htemplate⟩
  obtain ⟨number, hproduct⟩ := (hmakes.made item hmem).product id content executable (by rwa [find?_template_without])
  refine ⟨?_, id, content, executable, number, hnode, hproduct⟩
  rw [hgenerated]
  exact List.mem_map_of_mem hmem

/-- A link is no template for the walk, and no other template is made into the file. -/
theorem stays_of_link
    (hsound : tree.Sound) (hcleaned : (without place tree chosen).Sound)
    (hgenerated : generated = (stems "cmx".toList (without place tree chosen) place).map fun item =>
      (customDirectory root).below item.generated)
    (hmakes : Makes root place (without place tree chosen) built (stems "cmx".toList (without place tree chosen) place))
    (hitem : item ∈ stems "cm".toList tree place) (hchosen : item ∈ chosen) {target : Path}
    (hlink : tree.find? (place ++ item.template) = some (.link target)) :
    Stays root place tree built generated item := by
  have hother (other : Stem) (hmem : other ∈ stems "cmx".toList (without place tree chosen) place) : item ≠ other := by
    rintro rfl
    obtain ⟨-, hfound⟩ := (mem_stems hcleaned (by decide)).mp hmem
    rw [← Stem.template, find?_template_without, hlink] at hfound
    cases hfound
  refine ⟨⟨target, hlink⟩, fun hmem => ?_, ?_⟩
  · rw [hgenerated] at hmem
    obtain ⟨other, hmem, hsame⟩ := List.mem_map.mp hmem
    exact hother other hmem (eq_of_below_generated (isFileName_of_mem_generated hsound (by decide) hitem)
      (isFileName_of_mem_generated hcleaned (by decide) hmem) hsame.symm)
  · rw [hmakes.same _ fun other hmem hplace => hother other hmem (Stem.eq_of_generated hplace), find?_without,
      if_pos (List.mem_map_of_mem hchosen)]

end Afterwards

/-- A file that cleaning removed is made again exactly if its template is no link. -/
theorem regeneration_law
    (hproper : tree.Proper) (hclean : clean root tree = (.ok removed, cleaned))
    (hbuilt : generateAll root cleaned = (.ok generated, built)) :
    ∀ file ∈ removed, ∃ place item, IsPackages root tree place ∧
      file = (customDirectory root).below item.generated ∧
      (tree.find? (place ++ item.generated)).any Node.isFile = true ∧
      cleaned.find? (place ++ item.generated) = none ∧
      tree.leadsToFile (place ++ item.directories) (templateName item.base) = true ∧
      (Returns root place tree built generated item ∨ Stays root place tree built generated item) := by
  intro file hfile
  obtain ⟨place, hpackages⟩ : ∃ place, IsPackages root tree place := by
    by_contra hnone
    obtain ⟨hresult, -⟩ := Prod.mk.inj ((clean_of_no_packages hnone).symm.trans hclean)
    obtain rfl := Except.ok.inj hresult
    cases hfile
  obtain ⟨chosen, hchosen, rfl, rfl, hleads⟩ := exists_chosen_of_clean hproper hpackages hclean
  obtain ⟨item, hitem, rfl⟩ := List.mem_map.mp hfile
  have hcleaned := clean_sound hproper.toSound root
  rw [hclean] at hcleaned
  have hlisted (other : Stem) (hother : other ∈ chosen) :=
    (mem_stems hproper.toSound (by decide)).mp (hchosen hother)
  -- The directory is found where it was, since only files were removed.
  have hways : tree.SameWays (without place tree chosen) :=
    sameWays_without fun other hother => (hlisted other hother).2
  obtain ⟨hgenerated, hmakes⟩ := makes_of_generateAll hcleaned (hpackages.of_sameWays hways) hbuilt
  refine ⟨place, item, hpackages, rfl, (hlisted item hitem).2, ?_, hleads item hitem, ?_⟩
  · rw [find?_without, if_pos (List.mem_map_of_mem hitem)]
  · rcases template_cases (hleads item hitem) with htemplate | ⟨target, hlink⟩
    · exact Or.inl (returns_of_isFile hcleaned hgenerated hmakes (hlisted item hitem).1 htemplate)
    · exact Or.inr (stays_of_link hproper.toSound hcleaned hgenerated hmakes (hchosen hitem) hitem hlink)

/-! ## A template that is a link -/

namespace Linked

/-- A package, and a directory beside the packages. -/
def beside : FileTree :=
  onePackage.insert ["real".toList] .directory

/-- A template in that directory. -/
def shared : FileTree :=
  beside.putFile (["real".toList] ++ [templateName ['x']]) (Utf8.encode "$$") false

/-- A link to it in the package. -/
def linked : FileTree :=
  shared.insert (Handwritten.package ++ [templateName ['w']]) (.link ⟨"/real/x.cmx"⟩)

/-- The file that was made of it. -/
def files : FileTree :=
  linked.putFile Handwritten.source (Utf8.encode "a") false

theorem files_proper : files.Proper := by
  have hreal : IsValidName "real".toList := by decide +kernel
  have htemplate : IsValidName (templateName ['x']) := by decide +kernel
  have hlink : IsValidName (templateName ['w']) := by decide +kernel
  have hsource : IsValidName (generatedName ['w']) := by decide +kernel
  have hbeside : (onePackage.insert ([] ++ ["real".toList]) .directory).Sound :=
    onePackage_sound.insert rfl hreal (by decide) _
  have hshared : shared.Sound := Sound.putFile hbeside (by decide) htemplate (by decide) _ _
  have hlinked : linked.Sound := hshared.insert (by decide +kernel) hlink (by decide +kernel) _
  have hsound : files.Sound := hlinked.putFile (by decide +kernel) hsource (by decide +kernel) _ _
  exact { hsound with distinct := by decide +kernel }

theorem customFiles_files : customFiles ⟨"/"⟩ files = .ok [⟨"/custom/a/w.cm"⟩] := by
  have hsorted : files.sortedChildren Handwritten.package = [generatedName ['w'], templateName ['w']] := by cbv
  refine customFiles_of_package (by decide +kernel) (by decide) (by cbv)
    ((filesAt_succ_eq_ok_iff (by decide +kernel)).mpr ⟨by decide +kernel, [[⟨"/custom/a/w.cm"⟩], []], ?_, rfl⟩)
  rw [hsorted]
  decide +kernel

theorem clean_files : clean ⟨"/"⟩ files = (.ok [⟨"/custom/a/w.cm"⟩], files.erase Handwritten.source) := by
  rw [clean, customFiles_files]
  decide +kernel

theorem generateAll_cleaned :
    generateAll ⟨"/"⟩ (files.erase Handwritten.source) = (.ok [], files.erase Handwritten.source) := by
  decide +kernel

theorem regeneration_law_files :
    files.Proper ∧ ∃ place item, IsPackages ⟨"/"⟩ files place ∧
      ⟨"/custom/a/w.cm"⟩ = (customDirectory ⟨"/"⟩).below item.generated ∧
      (files.find? (place ++ item.generated)).any Node.isFile = true ∧
      (files.erase Handwritten.source).find? (place ++ item.generated) = none ∧
      files.leadsToFile (place ++ item.directories) (templateName item.base) = true ∧
      (Returns ⟨"/"⟩ place files (files.erase Handwritten.source) [] item ∨
        Stays ⟨"/"⟩ place files (files.erase Handwritten.source) [] item) :=
  ⟨files_proper, regeneration_law files_proper clean_files generateAll_cleaned ⟨"/custom/a/w.cm"⟩
    (List.mem_singleton_self _)⟩

/-- The file is lost, although its template is not without text. -/
theorem clean_loses_source :
    files.Proper ∧ clean ⟨"/"⟩ files = (.ok [⟨"/custom/a/w.cm"⟩], files.erase Handwritten.source) ∧
      generateAll ⟨"/"⟩ (files.erase Handwritten.source) = (.ok [], files.erase Handwritten.source) ∧
      (files.erase Handwritten.source).readText ⟨"/custom/a/w.cmx"⟩ = .ok "$$" ∧
      substitute ⟨"/"⟩ ⟨"/custom/a/w.cmx"⟩ "$$".toList = "a".toList ∧
      (files.erase Handwritten.source).find? Handwritten.source = none :=
  ⟨files_proper, clean_files, generateAll_cleaned, by decide +kernel, by decide +kernel, by decide +kernel⟩

end Linked
end Template
end CompilerRelay
