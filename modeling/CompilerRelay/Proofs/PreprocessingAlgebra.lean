import CompilerRelay.Proofs.TemplateRemoval

/-!
# The algebra of preprocessing

Generating all files and cleaning, one after the other.

**Input.**  A tree in order in which every entry is listed once, without links below the custom packages, in which all
files can be generated.

**Form.**  `Template.Linkless`: such a tree, as seen from the custom packages.  `Template.Algebra`: the equations
between both kinds of work.  `Template.Generation`, `Template.Removal`: what each of them returns and changes.

**Algorithm.**  Both kinds of work change nothing but generated files.  So the directories and the templates stay as
they are, the walks come to the same templates, and the product of a template is the same each time.

**Results.**
* `Template.Linkless.clean_eq`: cleaning removes the files whose template is a file, and no others.
* `Template.Makes.sameEntries`: the same templates are made into the same files.
* `Template.preprocessing_law`: the equations and the listings.
-/

namespace CompilerRelay

/-- A node without the number of the file. -/
def Node.unnumbered : Node → Node
  | .file _ content executable => .file 0 content executable
  | node => node

namespace FileTree

/-- The entries are the same, but for the numbers of files: a file that is written anew is another file. -/
structure SameEntries (before after : FileTree) : Prop where
  current_eq : after.current = before.current
  entry_eq : ∀ place, (after.find? place).map Node.unnumbered = (before.find? place).map Node.unnumbered

/-- The entries are the same, but for devices that have vanished. -/
structure SameFiles (before after : FileTree) : Prop where
  current_eq : after.current = before.current
  entry : ∀ place, after.find? place = before.find? place ∨
    after.find? place = none ∧ ∃ device, before.find? place = some (.device device)

theorem mem_of_find?
    {tree : FileTree} {place : Place} {node : Node} (hnode : node ≠ .directory) (h : tree.find? place = some node) :
    node ∈ tree.nodes.map Prod.snd := by
  have hlisted {nodes : List (Place × Node)} (hfound : nodeAt place nodes = some node) : node ∈ nodes.map Prod.snd := by
    induction nodes with
    | nil => cases hfound
    | cons entry rest ih =>
        rw [nodeAt] at hfound
        split at hfound
        · exact Option.some.inj hfound ▸ List.mem_cons_self
        · exact List.mem_cons_of_mem _ (ih hfound)
  unfold find? at h
  split at h
  · exact absurd (Option.some.inj h).symm hnode
  · exact hlisted h

end FileTree

namespace Template

open FileTree

variable {tree after built : FileTree} {root : Path} {place : Place} {item : Stem}

/-! ## Trees without links among the custom packages -/

/-- A tree without links below the custom packages, in which all templates can be found. -/
structure Linkless (root : Path) (tree : FileTree) (place : Place) : Prop where
  proper : tree.Proper
  packages : IsPackages root tree place
  opens : Opens root tree place
  unlinked : ∀ names target, tree.find? (place ++ names) ≠ some (.link target)
  found : ∀ item ∈ stems "cmx".toList tree place, item.base ≠ ['.'] ∧
    tree.locate true ((customDirectory root).below item.template) = .ok ⟨place ++ item.template, false, false⟩

theorem mem_templates
    (hsound : tree.Sound) :
    item ∈ stems "cmx".toList tree place ↔
      item.base ≠ [] ∧ (tree.find? (place ++ item.template)).any Node.isFile = true :=
  mem_stems hsound (by decide)

/-- The stems of the generated files whose template is a file. -/
def regenerable (tree : FileTree) (place : Place) : List Stem :=
  (stems "cm".toList tree place).filter fun item => (tree.find? (place ++ item.template)).any Node.isFile

theorem mem_regenerable
    (hsound : tree.Sound) :
    item ∈ regenerable tree place ↔
      (item.base ≠ [] ∧ (tree.find? (place ++ item.generated)).any Node.isFile = true) ∧
        (tree.find? (place ++ item.template)).any Node.isFile = true := by
  rw [regenerable, List.mem_filter, mem_stems hsound (by decide)]
  rfl

theorem templates_eq
    (htree : tree.Proper) (hafter : after.Proper)
    (htemplate : ∀ item : Stem, after.find? (place ++ item.template) = tree.find? (place ++ item.template)) :
    stems "cmx".toList after place = stems "cmx".toList tree place :=
  stems_eq htree hafter (by decide) fun item => congrArg (·.any Node.isFile) (htemplate item)

namespace Linkless

theorem of_sameWays
    (h : Linkless root tree place) (hways : tree.SameWays after) (hproper : after.Proper)
    (htemplate : ∀ item : Stem, after.find? (place ++ item.template) = tree.find? (place ++ item.template)) :
    Linkless root after place := by
  have hstems := templates_eq h.proper hproper htemplate
  exact {
    proper := hproper
    packages := h.packages.of_sameWays hways
    opens := fun names hnode => h.opens names ((hways.find?_eq rfl).mp hnode)
    unlinked := fun names target hnode => h.unlinked names target ((hways.find?_eq rfl).mp hnode)
    found := fun item hitem => by
      obtain ⟨hdot, hlocate⟩ := h.found item (hstems ▸ hitem)
      exact ⟨hdot, hways.locate_eq_ok_iff.mpr hlocate⟩ }

/-- Without links, a template that leads to a file is one. -/
theorem isFile_of_leadsToFile
    (h : Linkless root tree place)
    (hleads : tree.leadsToFile (place ++ item.directories) (templateName item.base) = true) :
    (tree.find? (place ++ item.template)).any Node.isFile = true :=
  (template_cases hleads).resolve_right fun ⟨target, hlink⟩ => h.unlinked item.template target hlink

/-- Cleaning removes the files whose template is a file. -/
theorem clean_eq
    (h : Linkless root tree place) :
    clean root tree = (.ok ((regenerable tree place).map fun item => (customDirectory root).below item.generated),
      without place tree (regenerable tree place)) := by
  obtain ⟨chosen, hsublist, hclean, hleads, hall⟩ := Template.clean_eq h.proper h.packages h.opens
  have hlisted := pairwise_stems h.proper (by decide : '.' ∉ "cm".toList) place
  have hmem (item : Stem) : item ∈ chosen ↔ item ∈ regenerable tree place := by
    rw [regenerable, List.mem_filter]
    constructor
    · intro hitem
      exact ⟨hsublist.subset hitem, h.isFile_of_leadsToFile (hleads item hitem)⟩
    · rintro ⟨hitem, hfile⟩
      obtain ⟨hbase, -⟩ := (mem_stems h.proper.toSound (by decide)).mp hitem
      obtain ⟨hdot, hlocate⟩ := h.found item ((mem_templates h.proper.toSound).mpr ⟨hbase, hfile⟩)
      exact hall item hitem hdot hlocate hfile
  obtain rfl : chosen = regenerable tree place := by
    refine (Stem.names_injective "cm".toList).list_map (eq_of_pairwise_comesBefore (hlisted.sublist (hsublist.map _))
      (hlisted.sublist (List.filter_sublist.map _)) fun names => ?_)
    simp only [List.mem_map, hmem]
  exact hclean

/-- Cleaning leaves such a tree. -/
theorem cleaned
    (h : Linkless root tree place) :
    Linkless root (without place tree (regenerable tree place)) place := by
  have hsound := clean_sound h.proper.toSound root
  rw [h.clean_eq] at hsound
  have hways : tree.SameWays (without place tree (regenerable tree place)) :=
    sameWays_without fun item hitem => ((mem_regenerable h.proper.toSound).mp hitem).1.2
  exact h.of_sameWays hways { hsound with distinct := distinct_without h.proper.distinct place _ }
    (find?_template_without place tree _)

/-- Where the file of a template was made, there was neither a directory nor a link. -/
theorem isWay_eq_false
    (h : Linkless root tree place) (hmade : Made root place tree built item) :
    (tree.find? (place ++ item.generated)).any Node.isWay = false := by
  cases hbefore : tree.find? (place ++ item.generated) with
  | none => rfl
  | some node =>
      cases node with
      | file | device => rfl
      | directory => exact absurd hbefore hmade.leaf
      | link target => exact absurd hbefore (h.unlinked item.generated target)

/-- Generating all files leaves such a tree. -/
theorem made
    (h : Linkless root tree place) (hmakes : Makes root place tree after (stems "cmx".toList tree place))
    (hproper : after.Proper) :
    Linkless root after place := by
  refine h.of_sameWays (.of_leaves hmakes.narrows.current_eq fun other => ?_) hproper hmakes.find?_template
  rcases Stem.generated_cases place (stems "cmx".toList tree place) other with ⟨item, hitem, rfl⟩ | hother
  · have hmade := hmakes.made item hitem
    obtain ⟨number, written?, hafter⟩ := hmade.exists_written ((mem_templates h.proper.toSound).mp hitem).2
    refine Or.inr ⟨?_, h.isWay_eq_false hmade⟩
    rw [hafter]
    cases written? <;> rfl
  · exact Or.inl (hmakes.same other hother)

end Linkless

/-- What is left of a tree without links in which all files were generated. -/
theorem exists_makes_of_generateAll
    (hproper : tree.Proper) (hpackages : IsPackages root tree place)
    (hunlinked : ∀ names target, tree.find? (place ++ names) ≠ some (.link target)) {generated : List Path}
    (h : generateAll root tree = (.ok generated, built)) :
    Linkless root tree place ∧ built.Proper ∧ Makes root place tree built (stems "cmx".toList tree place) ∧
      generated = (stems "cmx".toList tree place).map fun item => (customDirectory root).below item.generated := by
  obtain ⟨hopens, -⟩ := (generateAll_eq_ok_iff hproper.toSound hpackages).mp h
  obtain ⟨hgenerated, hmakes⟩ := makes_of_generateAll hproper.toSound hpackages h
  refine ⟨?_, proper_of_generateAll hproper h, hmakes, hgenerated⟩
  exact {
    proper := hproper
    packages := hpackages
    opens := hopens
    unlinked := hunlinked
    found := fun item hitem => ⟨(hmakes.made item hitem).ne_dot, (hmakes.made item hitem).locate⟩ }

/-- The same templates are made into the same files. -/
theorem Makes.sameEntries
    {second renewed : FileTree} (hsound : tree.Sound)
    (h : Makes root place tree built (stems "cmx".toList tree place))
    (hsecond : Makes root place second renewed (stems "cmx".toList tree place))
    (hcurrent : second.current = tree.current)
    (htemplate : ∀ item : Stem, second.find? (place ++ item.template) = tree.find? (place ++ item.template))
    (hsame : ∀ other, (∀ item ∈ stems "cmx".toList tree place, other ≠ place ++ item.generated) →
      second.find? other = tree.find? other) :
    built.SameEntries renewed := by
  refine ⟨?_, fun other => ?_⟩
  · rw [hsecond.narrows.current_eq, hcurrent, h.narrows.current_eq]
  · rcases Stem.generated_cases place (stems "cmx".toList tree place) other with ⟨item, hitem, rfl⟩ | hother
    · obtain ⟨id, content, executable, hnode⟩ := any_isFile_iff.mp ((mem_templates hsound).mp hitem).2
      obtain ⟨number, hproduct⟩ := (h.made item hitem).product id content executable hnode
      obtain ⟨other, hrenewed⟩ := (hsecond.made item hitem).product id content executable ((htemplate item).trans hnode)
      rw [hproduct, hrenewed]
      cases product? root ((customDirectory root).below item.template) content <;> rfl
    · rw [hsecond.same other hother, hsame other hother, h.same other hother]

/-! ## Files after cleaning -/

/-- No file is left where the file of a template belongs. -/
theorem find?_cleaned_of_template
    (hsound : tree.Sound) (hitem : item ∈ stems "cmx".toList tree place) :
    (without place tree (regenerable tree place)).find? (place ++ item.generated) =
      (tree.find? (place ++ item.generated)).filter (!·.isFile) := by
  obtain ⟨hbase, htemplate⟩ := (mem_templates hsound).mp hitem
  rw [find?_without]
  cases hfile : (tree.find? (place ++ item.generated)).any Node.isFile with
  | true =>
      have hmem : item ∈ regenerable tree place := (mem_regenerable hsound).mpr ⟨⟨hbase, hfile⟩, htemplate⟩
      obtain ⟨id, content, executable, hnode⟩ := any_isFile_iff.mp hfile
      rw [if_pos (List.mem_map_of_mem hmem), hnode]
      rfl
  | false =>
      rw [if_neg]
      · cases hnode : tree.find? (place ++ item.generated) with
        | none => rfl
        | some node => simp_all [Option.filter]
      · intro hmem
        obtain ⟨other, hother, hplace⟩ := List.mem_map.mp hmem
        obtain ⟨⟨-, hplain⟩, -⟩ := (mem_regenerable hsound).mp hother
        rw [hplace, hfile] at hplain
        cases hplain

/-- Elsewhere nothing is removed. -/
theorem find?_cleaned_of_ne
    (hsound : tree.Sound) {other : Place}
    (hother : ∀ item ∈ stems "cmx".toList tree place, other ≠ place ++ item.generated) :
    (without place tree (regenerable tree place)).find? other = tree.find? other := by
  rw [find?_without, if_neg]
  intro hmem
  obtain ⟨item, hitem, hplace⟩ := List.mem_map.mp hmem
  obtain ⟨⟨hbase, -⟩, htemplate⟩ := (mem_regenerable hsound).mp hitem
  exact hother item ((mem_templates hsound).mpr ⟨hbase, htemplate⟩) hplace.symm

/-- After cleaning, there is nothing to be removed. -/
theorem regenerable_cleaned
    (hsound : tree.Sound) (hcleaned : (without place tree (regenerable tree place)).Sound) :
    regenerable (without place tree (regenerable tree place)) place = [] := by
  refine List.eq_nil_iff_forall_not_mem.mpr fun item hitem => ?_
  obtain ⟨⟨hbase, hfile⟩, hfound⟩ := (mem_regenerable hcleaned).mp hitem
  rw [find?_template_without] at hfound
  rw [find?_cleaned_of_template hsound ((mem_templates hsound).mpr ⟨hbase, hfound⟩)] at hfile
  obtain ⟨node, hnode, hplain⟩ := (Option.any_eq_true _ _).mp hfile
  simpa [hplain] using (Option.filter_eq_some_iff.mp hnode).2

/-- Cleaning leaves the same files whether all files were generated before or not. -/
theorem Linkless.sameFiles
    (h : Linkless root tree place) (hmakes : Makes root place tree built (stems "cmx".toList tree place))
    (hproper : built.Proper) :
    (without place tree (regenerable tree place)).SameFiles (without place built (regenerable built place)) := by
  have hstems := templates_eq h.proper hproper hmakes.find?_template
  refine ⟨?_, fun other => ?_⟩
  · rw [current_without, current_without, hmakes.narrows.current_eq]
  · rcases Stem.generated_cases place (stems "cmx".toList tree place) other with ⟨item, hitem, rfl⟩ | hother
    · have hmade := hmakes.made item hitem
      have hleaf := h.isWay_eq_false hmade
      obtain ⟨number, written?, hwritten⟩ := hmade.exists_written ((mem_templates h.proper.toSound).mp hitem).2
      have hnone : (without place built (regenerable built place)).find? (place ++ item.generated) = none := by
        rw [find?_cleaned_of_template hproper.toSound (hstems ▸ hitem), hwritten]
        cases written? <;> rfl
      rw [hnone, find?_cleaned_of_template h.proper.toSound hitem]
      rcases hbefore : tree.find? (place ++ item.generated) with _ | node
      · exact Or.inl rfl
      · cases node with
        | file => exact Or.inl rfl
        | device device => exact Or.inr ⟨rfl, device, rfl⟩
        | directory | link => rw [hbefore] at hleaf; cases hleaf
    · rw [find?_cleaned_of_ne h.proper.toSound hother, find?_cleaned_of_ne hproper.toSound (hstems ▸ hother),
        hmakes.same other hother]
      exact Or.inl rfl

/-! ## Both kinds of work -/

/-- A file stands below the custom packages, by the names down to it. -/
def IsCustomFile (root : Path) (tree : FileTree) (names : List Name) : Prop :=
  ∃ place, IsPackages root tree place ∧ (tree.find? (place ++ names)).any Node.isFile = true

/-- The equations between both kinds of work, for the trees that they leave of one tree.  Cleaning leaves devices alone,
and generating files does not, so that they are excepted where the one comes after the other. -/
structure Algebra (root : Path) (built cleaned : FileTree) (generated : List Path) : Prop where
  generateAll_generateAll : ∀ again rebuilt, generateAll root built = (.ok again, rebuilt) →
    again = generated ∧ built.SameEntries rebuilt
  clean_clean : clean root cleaned = (.ok [], cleaned)
  clean_generateAll : ∃ dropped emptied, clean root built = (.ok dropped, emptied) ∧ cleaned.SameFiles emptied
  generateAll_clean : ∀ again renewed, generateAll root cleaned = (.ok again, renewed) →
    again = generated ∧ built.SameEntries renewed

/-- What generating all files returns and changes: the stems of the templates, in the order of a walk.  A name that
begins with its only dot has no extension, so that it is none of a template. -/
structure Generation (root : Path) (tree built : FileTree) (generated : List Path) (templates : List Stem) : Prop where
  ordered : (templates.map Stem.template).Pairwise ComesBefore
  mem_iff : ∀ item, item ∈ templates ↔ item.base ≠ [] ∧ IsCustomFile root tree item.template
  generated_eq : generated = templates.map fun item => (customDirectory root).below item.generated
  nodup : generated.Nodup
  same : ∀ other, (∀ place, IsPackages root tree place → ∀ item ∈ templates, other ≠ place ++ item.generated) →
    built.find? other = tree.find? other

/-- What cleaning returns and removes: the stems of generated files with a template, in the order of a walk. -/
structure Removal (root : Path) (tree cleaned : FileTree) (removed : List Path) (outputs : List Stem) : Prop where
  ordered : (outputs.map Stem.generated).Pairwise ComesBefore
  mem_iff : ∀ item, item ∈ outputs ↔
    item.base ≠ [] ∧ IsCustomFile root tree item.generated ∧ IsCustomFile root tree item.template
  removed_eq : removed = outputs.map fun item => (customDirectory root).below item.generated
  gone : ∀ place, IsPackages root tree place → ∀ item ∈ outputs, cleaned.find? (place ++ item.generated) = none
  same : ∀ other, (∀ place, IsPackages root tree place → ∀ item ∈ outputs, other ≠ place ++ item.generated) →
    cleaned.find? other = tree.find? other

section Laws

variable {generated : List Path}

theorem Linkless.algebra
    (h : Linkless root tree place) (hmakes : Makes root place tree built (stems "cmx".toList tree place))
    (hproper : built.Proper)
    (hgenerated : generated = (stems "cmx".toList tree place).map fun item =>
      (customDirectory root).below item.generated) :
    Algebra root built (without place tree (regenerable tree place)) generated := by
  have hbuilt := h.made hmakes hproper
  have hcleaned := h.cleaned
  -- All three trees have the same templates.
  have hbuiltStems := templates_eq h.proper hproper hmakes.find?_template
  have hcleanedStems :=
    templates_eq h.proper hcleaned.proper (find?_template_without place tree (regenerable tree place))
  exact {
    generateAll_generateAll := fun again rebuilt hagain => by
      obtain ⟨-, -, hrebuilt, rfl⟩ := exists_makes_of_generateAll hproper hbuilt.packages hbuilt.unlinked hagain
      rw [hbuiltStems] at hrebuilt
      exact ⟨by rw [hbuiltStems, hgenerated], hmakes.sameEntries h.proper.toSound hrebuilt hmakes.narrows.current_eq
        hmakes.find?_template hmakes.same⟩
    clean_clean := by
      rw [hcleaned.clean_eq, regenerable_cleaned h.proper.toSound hcleaned.proper.toSound]
      rfl
    clean_generateAll := ⟨_, _, hbuilt.clean_eq, h.sameFiles hmakes hproper⟩
    generateAll_clean := fun again renewed hagain => by
      obtain ⟨-, -, hrenewed, rfl⟩ :=
        exists_makes_of_generateAll hcleaned.proper hcleaned.packages hcleaned.unlinked hagain
      rw [hcleanedStems] at hrenewed
      refine ⟨by rw [hcleanedStems, hgenerated], ?_⟩
      exact hmakes.sameEntries h.proper.toSound hrenewed (current_without place tree _)
        (find?_template_without place tree _) fun other hother =>
          find?_cleaned_of_ne h.proper.toSound hother }

theorem Linkless.generation
    (h : Linkless root tree place) (hmakes : Makes root place tree built (stems "cmx".toList tree place))
    (hgenerated : generated = (stems "cmx".toList tree place).map fun item =>
      (customDirectory root).below item.generated) :
    Generation root tree built generated (stems "cmx".toList tree place) where
  ordered := pairwise_stems h.proper (by decide) place
  mem_iff := fun item => by
    rw [mem_templates h.proper.toSound]
    refine and_congr_right fun _ => ⟨fun hfile => ⟨place, h.packages, hfile⟩, ?_⟩
    rintro ⟨other, hother, hfile⟩
    rwa [h.packages.unique hother] at hfile
  generated_eq := hgenerated
  nodup := by
    rw [hgenerated]
    refine (nodup_stems h.proper (by decide) place).map_on fun first hfirst second hsecond hsame => ?_
    exact eq_of_below_generated (isFileName_of_mem_generated h.proper.toSound (by decide) hfirst)
      (isFileName_of_mem_generated h.proper.toSound (by decide) hsecond) hsame
  same := fun other hother => hmakes.same other (hother place h.packages)

theorem Linkless.removal
    (h : Linkless root tree place) :
    Removal root tree (without place tree (regenerable tree place))
      ((regenerable tree place).map fun item => (customDirectory root).below item.generated)
      (regenerable tree place) where
  ordered := (pairwise_stems h.proper (by decide) place).sublist (List.filter_sublist.map _)
  mem_iff := fun item => by
    rw [mem_regenerable h.proper.toSound, and_assoc]
    refine and_congr_right fun _ => ⟨?_, ?_⟩
    · rintro ⟨hfile, htemplate⟩
      exact ⟨⟨place, h.packages, hfile⟩, place, h.packages, htemplate⟩
    · rintro ⟨⟨one, hone, hfile⟩, two, htwo, htemplate⟩
      rw [h.packages.unique hone] at hfile
      rw [h.packages.unique htwo] at htemplate
      exact ⟨hfile, htemplate⟩
  removed_eq := rfl
  gone := fun other hother item hitem => by
    rw [h.packages.unique hother, find?_without, if_pos (List.mem_map_of_mem hitem)]
  same := fun other hother => by
    rw [find?_without, if_neg]
    intro hmem
    obtain ⟨item, hitem, hplace⟩ := List.mem_map.mp hmem
    exact hother place h.packages item hitem hplace.symm

theorem Algebra.of_no_packages
    (h : ¬ ∃ place, IsPackages root tree place) :
    Algebra root tree tree [] := by
  have hagain {again : List Path} {rebuilt : FileTree} (hgenerate : generateAll root tree = (.ok again, rebuilt)) :
      again = [] ∧ tree.SameEntries rebuilt := by
    obtain ⟨hnone, rfl⟩ := Prod.mk.inj ((generateAll_of_no_packages h).symm.trans hgenerate)
    exact ⟨(Except.ok.inj hnone).symm, ⟨rfl, fun _ => rfl⟩⟩
  exact {
    generateAll_generateAll := fun _ _ => hagain
    clean_clean := clean_of_no_packages h
    clean_generateAll := ⟨[], tree, clean_of_no_packages h, ⟨rfl, fun _ => Or.inl rfl⟩⟩
    generateAll_clean := fun _ _ => hagain }

theorem not_isCustomFile
    (h : ¬ ∃ place, IsPackages root tree place) (names : List Name) :
    ¬ IsCustomFile root tree names :=
  fun ⟨place, hplace, _⟩ => h ⟨place, hplace⟩

theorem Generation.of_no_packages
    (h : ¬ ∃ place, IsPackages root tree place) :
    Generation root tree tree [] [] where
  ordered := .nil
  mem_iff := fun item => by simp [not_isCustomFile h]
  generated_eq := rfl
  nodup := .nil
  same := fun _ _ => rfl

theorem Removal.of_no_packages
    (h : ¬ ∃ place, IsPackages root tree place) :
    Removal root tree tree [] [] where
  ordered := .nil
  mem_iff := fun item => by simp [not_isCustomFile h]
  removed_eq := rfl
  gone := fun _ _ _ hitem => by cases hitem
  same := fun _ _ => rfl

/-- **Preprocessing.**  The equations between both kinds of work, and what each of them returns and changes.  Cleaning what
was generated leaves the files, directories and links that cleaning alone leaves (`Algebra.clean_generateAll`); a device
with the name of a generated file has given way to the file, as it is no file that cleaning removes. -/
theorem preprocessing_law
    (hproper : tree.Proper)
    (hunlinked : ∀ place, IsPackages root tree place →
      ∀ names target, tree.find? (place ++ names) ≠ some (.link target))
    (hbuilt : generateAll root tree = (.ok generated, built)) :
    ∃ removed cleaned templates outputs, clean root tree = (.ok removed, cleaned) ∧
      Algebra root built cleaned generated ∧ Generation root tree built generated templates ∧
      Removal root tree cleaned removed outputs := by
  by_cases hdirectory : ∃ place, IsPackages root tree place
  · obtain ⟨place, hpackages⟩ := hdirectory
    obtain ⟨hplain, hafter, hmakes, hgenerated⟩ :=
      exists_makes_of_generateAll hproper hpackages (hunlinked place hpackages) hbuilt
    exact ⟨_, _, _, _, hplain.clean_eq, hplain.algebra hmakes hafter hgenerated, hplain.generation hmakes hgenerated,
      hplain.removal⟩
  · -- Without the directory, there is nothing to be done.
    obtain ⟨hgenerated, rfl⟩ := Prod.mk.inj ((generateAll_of_no_packages hdirectory).symm.trans hbuilt)
    obtain rfl := Except.ok.inj hgenerated
    exact ⟨[], tree, [], [], clean_of_no_packages hdirectory, .of_no_packages hdirectory, .of_no_packages hdirectory,
      .of_no_packages hdirectory⟩

end Laws

/-! ## A package with one template -/

namespace Prepared

/-- A package with a template. -/
def written : FileTree :=
  onePackage.putFile (Handwritten.package ++ [templateName ['w']]) (Utf8.encode "$$") false

/-- A package with a template and the file that was made of it before. -/
def files : FileTree :=
  written.putFile Handwritten.source (Utf8.encode "stale") false

theorem written_sound : written.Sound := by
  have htemplate : IsValidName (templateName ['w']) := by decide +kernel
  exact onePackage_sound.putFile (by decide) htemplate (by decide) _ _

theorem files_proper : files.Proper := by
  have hsource : IsValidName (generatedName ['w']) := by decide +kernel
  have hsound : files.Sound := written_sound.putFile (by decide) hsource (by decide +kernel) _ _
  exact { hsound with distinct := by decide +kernel }

theorem files_unlinked (place : Place) (target : Path) : files.find? place ≠ some (.link target) := by
  have hnodes : files.nodes.map Prod.snd =
      [.directory, .directory, .file 1 (Utf8.encode "$$") false, .file 2 (Utf8.encode "stale") false] := by
    decide +kernel
  intro h
  have hmem := mem_of_find? (by simp) h
  rw [hnodes] at hmem
  simp at hmem

theorem customFiles_files : customFiles ⟨"/"⟩ files = .ok [⟨"/custom/a/w.cm"⟩, ⟨"/custom/a/w.cmx"⟩] := by
  have hsorted : files.sortedChildren Handwritten.package = [generatedName ['w'], templateName ['w']] := by cbv
  refine customFiles_of_package (by decide +kernel) (by decide) (by cbv)
    ((filesAt_succ_eq_ok_iff (by decide +kernel)).mpr
      ⟨by decide +kernel, [[⟨"/custom/a/w.cm"⟩], [⟨"/custom/a/w.cmx"⟩]], ?_, rfl⟩)
  rw [hsorted]
  decide +kernel

theorem generateAll_files : (generateAll ⟨"/"⟩ files).1 = .ok [⟨"/custom/a/w.cm"⟩] := by
  rw [generateAll, customFiles_files]
  decide +kernel

theorem preprocessing_law_files :
    ∃ removed cleaned templates outputs, clean ⟨"/"⟩ files = (.ok removed, cleaned) ∧
      Algebra ⟨"/"⟩ (generateAll ⟨"/"⟩ files).2 cleaned [⟨"/custom/a/w.cm"⟩] ∧
      Generation ⟨"/"⟩ files (generateAll ⟨"/"⟩ files).2 [⟨"/custom/a/w.cm"⟩] templates ∧
      Removal ⟨"/"⟩ files cleaned removed outputs :=
  preprocessing_law files_proper (fun place _ names target => files_unlinked (place ++ names) target)
    (Prod.ext generateAll_files rfl)

end Prepared
end Template
end CompilerRelay
