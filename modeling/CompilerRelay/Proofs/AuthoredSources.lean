import CompilerRelay.Proofs.Regeneration
import CompilerRelay.Proofs.WalkedFiles

/-!
# Authored sources

A source without a template beside it was written by hand.

**Input.**  A tree in order, and any work on templates, whether it succeeds or fails.

**Algorithm.**  Cleaning looks for the template of each file before it removes the file, and generating all files begins
with a walk that finds the templates.  Generating one file begins with the removal.

**Results.**
* `Template.generate_find?`: what generating a file does at the place of a source without a template.
* `Template.generateAll_find?`, `Template.clean_find?`: the other work does nothing there.
* `Template.authored_law`: of all work, only the generation of a template that is not there removes an authored source.
-/

namespace CompilerRelay

/-- The name of a generated file. -/
def generatedName (stem : Name) : Name :=
  stem ++ '.' :: "cm".toList

/-- The name of a template. -/
def templateName (stem : Name) : Name :=
  stem ++ '.' :: "cmx".toList

namespace FileTree

/-- The place is one for a generated file, and no template of that name leads to a file. -/
def IsAuthored (tree : FileTree) (place : Place) : Prop :=
  ∃ directory stem, place = directory ++ [generatedName stem] ∧
    tree.leadsToFile directory (templateName stem) = false

variable {tree before after : FileTree} {file : Path} {place : Place} {spot : Spot}

theorem isAuthored_append
    (directory : Place) (stem : Name) :
    tree.IsAuthored (directory ++ [generatedName stem]) ↔ tree.leadsToFile directory (templateName stem) = false := by
  refine ⟨?_, fun h => ⟨directory, stem, rfl, h⟩⟩
  rintro ⟨other, name, hplace, h⟩
  obtain ⟨rfl, hnames⟩ := List.append_inj' hplace rfl
  obtain rfl : stem = name := List.append_cancel_right (List.singleton_inj.mp hnames)
  exact h

/-! ## Templates and their files -/

section Siblings

variable {parts : List (List Char)} {name stem : Name}

theorem isFileName_generatedName
    {text : List Char} (hparts : Text.splitOn '/' text = parts ++ [generatedName stem]) (hstem : stem ≠ []) :
    IsFileName (generatedName stem) := by
  obtain ⟨hfiller, hupwards⟩ := Path.isFiller_stem hstem (by decide : "cm".toList ≠ [])
  refine ⟨fun hnil => ?_, Path.slash_notMem_of_parts hparts, fun hcurrent => ?_, hupwards⟩
  · simp [generatedName] at hnil
  · rw [generatedName] at hcurrent
    rw [hcurrent] at hfiller
    cases hfiller

theorem isFiller_eq_false (h : IsFileName name) : Path.isFiller name = false := by
  simp [Path.isFiller, h.ne_nil, h.ne_current]

/-- A template whose generated file has a name. -/
theorem exists_stem_of_template
    (htemplate : file.isTemplate = true) (hparts : Text.splitOn '/' file.text.toList = parts ++ [name])
    (hname : IsFileName name) (hlocate : after.locate false file.generated = .ok spot) (hdotted : spot.dotted = false) :
    ∃ stem, name = templateName stem ∧ IsFileName (generatedName stem) ∧
      Text.splitOn '/' file.generated.text.toList = parts ++ [generatedName stem] := by
  have hextension : file.extension? = some "cmx".toList := beq_iff_eq.mp htemplate
  obtain ⟨stem, hstem, rfl, hsibling⟩ :=
    Path.sibling_cases hparts (isFiller_eq_false hname) hextension (by decide) (by decide : '/' ∉ "cm".toList)
  rw [Path.generated, if_pos htemplate] at hlocate ⊢
  rcases hsibling with hnamed | hupwards
  · exact ⟨stem, rfl, isFileName_generatedName hnamed hstem, hnamed⟩
  · obtain ⟨-, -, hwalks⟩ := exists_walks_of_locate hlocate
    rw [stepsOf_of_parts hupwards (by decide), hdotted] at hwalks
    cases hwalks.dotted_of_dots (Or.inr rfl)

/-- A generated file whose template leads to a file. -/
theorem exists_stem_of_generated
    (hsound : tree.Sound) (hgenerated : file.isGenerated = true)
    (hparts : Text.splitOn '/' file.text.toList = parts ++ [name]) (hname : IsFileName name)
    (htemplate : Template.isRegenerable tree file = true) :
    ∃ stem, name = generatedName stem ∧ IsFileName (templateName stem) ∧ ∃ template : Path,
      tree.isFile template = true ∧ Text.splitOn '/' template.text.toList = parts ++ [templateName stem] := by
  have hextension : file.extension? = some "cm".toList := beq_iff_eq.mp hgenerated
  rw [Template.isRegenerable, Path.template?, if_pos hgenerated, Option.any_some] at htemplate
  obtain ⟨stem, hstem, rfl, hsibling⟩ :=
    Path.sibling_cases hparts (isFiller_eq_false hname) hextension (by decide) (by decide : '/' ∉ "cmx".toList)
  obtain ⟨above, last, hcut, hlast⟩ := exists_name_of_isFile hsound htemplate
  rcases hsibling with hnamed | hupwards
  · obtain ⟨rfl, hsame⟩ := List.append_inj' (hcut.symm.trans hnamed) rfl
    obtain rfl := List.singleton_inj.mp hsame
    exact ⟨stem, rfl, hlast, _, htemplate, hcut⟩
  · obtain ⟨-, hsame⟩ := List.append_inj' (hcut.symm.trans hupwards) rfl
    exact absurd (List.singleton_inj.mp hsame) hlast.ne_parent

end Siblings

/-- No authored source is where a generated file belongs whose template leads to a file. -/
theorem not_isAuthored_of_isFile
    (htemplate : file.isTemplate = true) (hsound : before.Sound) (hthins : tree.Thins before)
    (hfile : before.isFile file = true) (hnarrows : tree.Narrows after)
    (hlocate : after.locate false file.generated = .ok spot) (hdotted : spot.dotted = false) :
    ¬ tree.IsAuthored spot.place := by
  obtain ⟨parts, name, hparts, hname⟩ := exists_name_of_isFile hsound hfile
  obtain ⟨stem, rfl, hstem, hgenerated⟩ := exists_stem_of_template htemplate hparts hname hlocate hdotted
  obtain ⟨directory, left, hdescends, hleads⟩ := leadsToFile_of_isFile hthins hfile hparts hname
  obtain ⟨reached, others, hreached, hplace, -⟩ := place_of_locate hnarrows hlocate hgenerated hstem
  rw [startOf_of_parts hparts hname.ne_nil hgenerated hstem.ne_nil] at hreached
  obtain rfl := (hdescends.unique hreached).1
  rw [hplace, isAuthored_append, hleads]
  decide

namespace Walked

/-- Nor where the file of a template belongs that a walk came to. -/
theorem not_isAuthored_of_template
    (hwalked : tree.Walked file) (htemplate : file.isTemplate = true) (hnarrows : tree.Narrows after)
    (hlocate : after.locate false file.generated = .ok spot) (hdotted : spot.dotted = false) :
    ¬ tree.IsAuthored spot.place := by
  obtain @⟨path, directory, name, hleads, hname, hfile⟩ := hwalked
  obtain ⟨parts, hparts, -⟩ := exists_parts_of_join path hname.toIsFileName
  obtain ⟨stem, rfl, hstem, hgenerated⟩ :=
    exists_stem_of_template htemplate hparts hname.toIsFileName hlocate hdotted
  have hplace := hleads.place_of_sibling hname.toIsFileName hparts hgenerated hstem hnarrows hlocate
  rw [hplace, isAuthored_append, leadsToFile_of_find? hname.isEntryName hfile]
  decide

/-- Nor where a generated file is that a walk came to and whose template leads to a file. -/
theorem not_isAuthored_of_generated
    (hwalked : tree.Walked file) (hgenerated : file.isGenerated = true) (hsound : before.Sound)
    (hthins : tree.Thins before) (htemplate : Template.isRegenerable before file = true)
    (hlocate : before.locate false file = .ok spot) :
    ¬ tree.IsAuthored spot.place := by
  obtain @⟨path, directory, name, hleads, hname, hfile⟩ := hwalked
  obtain ⟨parts, hparts, -⟩ := exists_parts_of_join path hname.toIsFileName
  obtain ⟨stem, rfl, hstem, template, hplain, hcut⟩ :=
    exists_stem_of_generated hsound hgenerated hparts hname.toIsFileName htemplate
  obtain ⟨reached, left, hdescends, hfound⟩ := leadsToFile_of_isFile hthins hplain hcut hstem
  obtain rfl := hleads.eq_of_descends hname.toIsFileName hparts hcut hstem.ne_nil hdescends
  have hplace := hleads.place_of_sibling hname.toIsFileName hparts hparts hname.toIsFileName hthins.narrows hlocate
  rw [hplace, isAuthored_append, hfound]
  decide

end Walked
end FileTree

namespace Template

open FileTree

variable {tree before after : FileTree} {file : Path} {place : Place}

/-! ## Generating -/

/-- At the place of an authored source a template at most removes what is there, and does so before it is read. -/
theorem generate_find?
    (hsound : tree.Sound) (root : Path) (htemplate : file.isTemplate = true) (hauthored : tree.IsAuthored place) :
    (generate root file tree).2.find? place =
      if (tree.removable file.generated).toOption = some place then none else tree.find? place := by
  cases generates_of_template hsound root htemplate with
  | removed hbare hafter => rw [hafter.find?_eq, hbare.find?_eq]
  | @written bare _ target hbare hfile hafter =>
      rw [hafter.same place fun hsame => ?_, hbare.find?_eq place]
      obtain ⟨between, spot, hnarrows, hlocate, rfl, hdotted⟩ := hafter.located
      have hbetween := hbare.thins.narrows.trans hnarrows
      exact not_isAuthored_of_isFile htemplate (hbare.sound hsound) hbare.thins hfile hbetween hlocate hdotted
        (hsame ▸ hauthored)

/-- Generating the file of a template that a walk came to does nothing at the place of an authored source. -/
theorem generate_find?_of_walked
    (hwalked : tree.Walked file) (hnarrows : tree.Narrows before) (hsound : before.Sound) (root : Path)
    (htemplate : file.isTemplate = true) (hauthored : tree.IsAuthored place) :
    (generate root file before).2.find? place = before.find? place := by
  have hbare {bare : FileTree} (hdiscards : before.Discards file.generated bare) :
      bare.find? place = before.find? place := by
    refine hdiscards.find?_of_ne fun removed hremovable => ?_
    obtain ⟨spot, hlocate, rfl, hdotted, -⟩ := exists_spot_of_removable hremovable
    rintro rfl
    exact hwalked.not_isAuthored_of_template htemplate hnarrows hlocate hdotted hauthored
  cases generates_of_template hsound root htemplate with
  | removed hdiscards hafter => rw [hafter.find?_eq, hbare hdiscards]
  | written hdiscards _ hafter =>
      rw [hafter.same place fun hsame => ?_, hbare hdiscards]
      obtain ⟨between, spot, hbetween, hlocate, rfl, hdotted⟩ := hafter.located
      have hboth := (hnarrows.trans hdiscards.thins.narrows).trans hbetween
      exact hwalked.not_isAuthored_of_template htemplate hboth hlocate hdotted (hsame ▸ hauthored)

theorem generateEach_find?
    (root : Path) {files : List Path} (hwalked : ∀ file ∈ files, tree.Walked file ∧ file.isTemplate = true)
    (hauthored : tree.IsAuthored place) (hnarrows : tree.Narrows before) (hsound : before.Sound) :
    (generateEach root files before).2.find? place = before.find? place := by
  induction files generalizing before with
  | nil => rfl
  | cons file rest ih =>
      obtain ⟨hfile, htemplate⟩ := hwalked file List.mem_cons_self
      have hgenerates := generates_of_template hsound root htemplate
      have hfirst := generate_find?_of_walked hfile hnarrows hsound root htemplate hauthored
      unfold generateEach
      split
      · next hgenerate => rwa [hgenerate] at hfirst
      · next hgenerate =>
          rw [hgenerate] at hfirst hgenerates
          have hrest := fun other hother => hwalked other (List.mem_cons_of_mem _ hother)
          exact (ih hrest (hnarrows.trans hgenerates.narrows) (hgenerates.sound hsound)).trans hfirst

theorem walked_of_mem_customFiles
    (hsound : tree.Sound) {root : Path} {files : List Path} (h : customFiles root tree = .ok files) :
    ∀ file ∈ files, tree.Walked file := by
  unfold customFiles at h
  split at h
  · next hdirectory =>
      cases hbelow : tree.filesBelow (customDirectory root) with
      | error fault => rw [hbelow] at h; cases h
      | ok found =>
          rw [hbelow] at h
          obtain rfl := Except.ok.inj h
          exact walked_of_mem_filesBelow hsound hdirectory hbelow
  · obtain rfl := Except.ok.inj h
    exact List.forall_mem_nil _

/-- Generating all files does nothing at the place of an authored source. -/
theorem generateAll_find?
    (hsound : tree.Sound) (root : Path) (hauthored : tree.IsAuthored place) :
    (generateAll root tree).2.find? place = tree.find? place := by
  unfold generateAll
  split
  · rfl
  · next files hfiles =>
      refine generateEach_find? root (fun file hfile => ?_) hauthored (.refl tree) hsound
      obtain ⟨hmem, htemplate⟩ := List.mem_filter.mp hfile
      exact ⟨walked_of_mem_customFiles hsound hfiles file hmem, htemplate⟩

/-! ## Cleaning -/

theorem removeEach_find?
    {files : List Path} (hwalked : ∀ file ∈ files, tree.Walked file ∧ file.isGenerated = true)
    (hauthored : tree.IsAuthored place) (hthins : tree.Thins before) (hsound : before.Sound) :
    (removeEach files before).2.find? place = before.find? place := by
  induction files generalizing before with
  | nil => rfl
  | cons file rest ih =>
      obtain ⟨hfile, hgenerated⟩ := hwalked file List.mem_cons_self
      have hrest := fun other hother => hwalked other (List.mem_cons_of_mem _ hother)
      unfold removeEach
      split
      · next htemplate =>
          split
          · rfl
          · next after hremove =>
              have hdiscards := discards_of_removeFile hremove
              have hfirst : after.find? place = before.find? place := by
                refine hdiscards.find?_of_ne fun removed hremovable => ?_
                obtain ⟨spot, hlocate, rfl, -, -⟩ := exists_spot_of_removable hremovable
                rintro rfl
                exact hfile.not_isAuthored_of_generated hgenerated hsound hthins htemplate hlocate hauthored
              exact (ih hrest (hthins.trans hdiscards.thins) (hdiscards.sound hsound)).trans hfirst
      · exact ih hrest hthins hsound

/-- Cleaning does nothing at the place of an authored source. -/
theorem clean_find?
    (hsound : tree.Sound) (root : Path) (hauthored : tree.IsAuthored place) :
    (clean root tree).2.find? place = tree.find? place := by
  unfold clean
  split
  · rfl
  · next files hfiles =>
      refine removeEach_find? (fun file hfile => ?_) hauthored (.refl tree) hsound
      obtain ⟨hmem, hgenerated⟩ := List.mem_filter.mp hfile
      exact ⟨walked_of_mem_customFiles hsound hfiles file hmem, hgenerated⟩

/-! ## All work -/

/-- A piece of work on templates. -/
inductive Work where
  | generate (file : Path)
  | generateAll
  | clean
  deriving DecidableEq, Repr

namespace Work

/-- What is left of a tree by a piece of work. -/
def perform (root : Path) (tree : FileTree) : Work → FileTree
  | .generate file => (Template.generate root file tree).2
  | .generateAll => (Template.generateAll root tree).2
  | .clean => (Template.clean root tree).2

/-- What is left of a tree by work, one piece after the other. -/
def performAll (root : Path) (tree : FileTree) (works : List Work) : FileTree :=
  works.foldl (perform root) tree

/-- Where an entry is removed before anything is known of a template. -/
def discarded? (tree : FileTree) : Work → Option Place
  | .generate file => if file.isTemplate then (tree.removable file.generated).toOption else none
  | .generateAll | .clean => none

theorem perform_sound
    (hsound : tree.Sound) (root : Path) (work : Work) :
    (work.perform root tree).Sound := by
  cases work with
  | generate file => exact generate_sound hsound root file
  | generateAll => exact generateAll_sound hsound root
  | clean => exact clean_sound hsound root

theorem performAll_sound
    (hsound : tree.Sound) (root : Path) (works : List Work) :
    (performAll root tree works).Sound := by
  induction works generalizing tree with
  | nil => exact hsound
  | cons work rest ih => exact ih (perform_sound hsound root work)

/-- What a piece of work does at the place of an authored source. -/
theorem perform_find?
    (hsound : tree.Sound) (root : Path) (work : Work) (hauthored : tree.IsAuthored place) :
    (work.perform root tree).find? place = if work.discarded? tree = some place then none else tree.find? place := by
  cases work with
  | generate file =>
      cases htemplate : file.isTemplate with
      | true =>
          simp only [discarded?, htemplate, if_true]
          exact generate_find? hsound root htemplate hauthored
      | false => simp [perform, discarded?, htemplate, generate_of_not_template root tree htemplate]
  | generateAll =>
      rw [if_neg (by simp [discarded?])]
      exact generateAll_find? hsound root hauthored
  | clean =>
      rw [if_neg (by simp [discarded?])]
      exact clean_find? hsound root hauthored

end Work

/-- **Authored sources.**  Whatever work was done before, and whether it succeeds or fails, a piece of work on templates
leaves a source as it is whose template does not lead to a file when the work begins, with one exception: the generation
of a file begins with the removal of what is where the file belongs, and there need not be a template. -/
theorem authored_law
    (hsound : tree.Sound) (root : Path) (works : List Work) (work : Work) {place : Place}
    (hauthored : (Work.performAll root tree works).IsAuthored place) :
    (work.perform root (Work.performAll root tree works)).find? place =
      if work.discarded? (Work.performAll root tree works) = some place then none
      else (Work.performAll root tree works).find? place :=
  Work.perform_find? (Work.performAll_sound hsound root works) root work hauthored

/-! ## A source without a template -/

namespace Handwritten

/-- The directory of a package. -/
def package : Place := ["custom".toList, "a".toList]

/-- The source in it. -/
def source : Place := package ++ [generatedName ['w']]

/-- What somebody wrote. -/
def content : Node := .file 1 (Utf8.encode "authored") false

/-- A package with one source. -/
def files : FileTree :=
  ((({} : FileTree).insert ["custom".toList] .directory).insert package .directory).insert source content

theorem package_sound : ((({} : FileTree).insert ["custom".toList] .directory).insert package .directory).Sound := by
  have hcustom : IsValidName "custom".toList := by decide +kernel
  have hpackage : IsValidName "a".toList := by decide +kernel
  have houter : (({} : FileTree).insert ([] ++ ["custom".toList]) .directory).Sound :=
    Sound.empty.insert rfl hcustom (by decide) _
  have hinner : ((({} : FileTree).insert ["custom".toList] .directory).insert (["custom".toList] ++ ["a".toList])
      .directory).Sound :=
    houter.insert (by decide) hpackage (by decide) _
  exact hinner

theorem files_sound : files.Sound := by
  have hsource : IsValidName (generatedName ['w']) := by decide +kernel
  exact package_sound.insert (by decide) hsource (by decide) _

theorem source_authored : files.IsAuthored source :=
  (isAuthored_append package ['w']).mpr (by decide +kernel)

theorem authored_law_cleaned :
    files.Sound ∧ (Work.performAll ⟨"/"⟩ files [.clean]).IsAuthored source ∧
      (Work.generateAll.perform ⟨"/"⟩ (Work.performAll ⟨"/"⟩ files [.clean])).find? source = some content := by
  have hauthored : (Work.performAll ⟨"/"⟩ files [.clean]).IsAuthored source :=
    (isAuthored_append package ['w']).mpr (by decide +kernel)
  exact ⟨files_sound, hauthored, (authored_law files_sound ⟨"/"⟩ [.clean] .generateAll hauthored).trans
    (by decide +kernel)⟩

/-- The source is lost. -/
theorem generate_removes_source :
    files.Sound ∧ files.IsAuthored source ∧ files.find? source = some content ∧
      ((Work.generate ⟨"/custom/a/w.cmx"⟩).perform ⟨"/"⟩ files).find? source = none :=
  ⟨files_sound, source_authored, by decide +kernel, by decide +kernel⟩

end Handwritten
end Template
end CompilerRelay
