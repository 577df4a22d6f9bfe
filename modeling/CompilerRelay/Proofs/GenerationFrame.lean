import CompilerRelay.Proofs.ExtensionPairs
import CompilerRelay.Proofs.TemplateRemoval

/-!
# What generating a file changes

**Input.**  A tree in order, the path of a template, spelled in any way, and whatever the system refuses.

**Form.**  `FileTree.HoldsText`: a place holds a file with a text, or nothing if the text is empty.
`Template.Yields`: the file of a template was generated from its text.  `Template.Targets`: where the generated file
belongs.  `Template.Stray`: a file that was written, and could be neither moved there nor removed.

**Invariant.**  Whatever step fails, an entry that has changed is where the generated file belongs, or it is the only
stray one.

**Algorithm.**  The path of the generated file ends with a name that has its extension, or with a step upwards, and then
nothing can be removed or put there.  So the template, whose name has another extension, is another entry, and it is
not the stray one, whose name has none.  A template that can be read ends with its name and stands beside its file.

**Results.**
* `Template.Outcome.targets_or_stray`: what has changed.
* `Template.Outcome.find?_template`, `Template.Outcome.readText_eq`: the template has not changed, and reads as before.
* `Template.generate_law`: what is generated, where, and what has changed besides, also if the work fails.
-/

namespace CompilerRelay
namespace FileTree

variable {before after tree : FileTree} {path : Path} {spot : Spot} {place : Place}

/-- A place holds a file with a text, or nothing if the text is empty. -/
def HoldsText (tree : FileTree) (place : Place) (text : List Char) : Prop :=
  (text = [] → tree.find? place = none) ∧
    (text ≠ [] → ∃ number, tree.find? place = some (.file number (Utf8.encode (String.ofList text)) false))

/-! ## Entries that paths lead to -/

theorem locate_of_narrows
    (hnarrows : before.Narrows after) (h : after.locate false path = .ok spot) :
    before.locate false path = .ok spot := by
  obtain ⟨hfollow, hslash, hwalks⟩ := locate_eq_ok_iff.mp h
  rw [hnarrows.current_eq] at hwalks
  exact locate_eq_ok_iff.mpr ⟨hfollow, hslash, hwalks.of_narrows hnarrows (Or.inr rfl)⟩

/-- Where links are not followed, an entry has the name that its path ends with. -/
theorem exists_fileName_of_locate
    (hlocate : tree.locate false path = .ok spot) (hdotted : spot.dotted = false) :
    ∃ directory name, spot.place = directory ++ [name] ∧ path.fileName? = some name := by
  obtain ⟨front, name, hsteps, hname⟩ := exists_last_of_locate hlocate hdotted
  obtain ⟨-, -, hwalks⟩ := exists_walks_of_locate hlocate
  rw [hsteps] at hwalks
  obtain ⟨directory, left, -, hlast⟩ := hwalks.exists_descends
  exact ⟨directory, name, (hlast.place_of_name hname).1, Path.fileName?_of_stepsOf hsteps hname⟩

/-! ## Texts that are read -/

/-- Where the same is found, the same text is read. -/
theorem exists_status_of_readText
    {text : String} (h : tree.readText path = .ok text) :
    ∃ node, tree.status path = .ok node ∧ node ≠ .directory ∧
      ∀ other : FileTree, other.status path = .ok node → other.readText path = .ok text := by
  unfold readText read at h
  cases hstatus : tree.status path with
  | error fault => rw [hstatus] at h; cases h
  | ok node =>
      refine ⟨node, rfl, ?_, fun other hother => ?_⟩
      · rintro rfl
        rw [hstatus] at h
        cases h
      · rw [hstatus] at h
        unfold readText read
        rwa [hother]

theorem exists_content_of_readText
    {text : String} (h : tree.readText path = .ok text) :
    ∃ content, Utf8.decode? content = .ok text := by
  unfold readText at h
  cases hread : tree.read path with
  | error fault => rw [hread] at h; cases h
  | ok content =>
      rw [hread] at h
      simp only [bind, Except.bind] at h
      split at h
      · next decoded hdecode => exact ⟨content, hdecode.trans (congrArg Except.ok (Except.ok.inj h))⟩
      · cases h

theorem status_of_spot
    {node : Node} (hlocate : tree.locate true path = .ok spot) (hnode : tree.find? spot.place = some node)
    (hslash : spot.slash = true → node.isDirectory = true) :
    tree.status path = .ok node := by
  simp only [status, hlocate, bind, Except.bind, hnode]
  refine if_neg fun h => ?_
  obtain ⟨hends, hleaf⟩ := Bool.and_eq_true_iff.mp h
  rw [hslash hends] at hleaf
  cases hleaf

theorem locate_of_thins
    (hthins : before.Thins after) {node : Node} (h : after.locate true path = .ok spot)
    (hfound : after.find? spot.place = some node) :
    before.locate true path = .ok spot := by
  obtain ⟨hfollow, hends, hwalks⟩ := locate_eq_ok_iff.mp h
  have hbefore := hwalks.of_thins hthins (by rw [hfound]; rfl)
  rw [hthins.current_eq] at hbefore
  exact locate_eq_ok_iff.mpr ⟨hfollow, hends, hbefore⟩

theorem status_of_thins
    (hthins : before.Thins after) {node : Node} (h : after.status path = .ok node) :
    before.status path = .ok node := by
  obtain ⟨spot, hlocate, hfound, hslash⟩ := exists_spot_of_status h
  exact status_of_spot (locate_of_thins hthins hlocate hfound) (hthins.entry _ _ hfound) hslash

theorem readText_of_thins
    (hthins : before.Thins after) {text : String} (h : after.readText path = .ok text) :
    before.readText path = .ok text := by
  obtain ⟨node, hstatus, -, hagain⟩ := exists_status_of_readText h
  exact hagain before (status_of_thins hthins hstatus)

/-- What has been read is read again where ways are the same and every entry is kept. -/
theorem readText_of_sameWays
    {text : String} (hread : before.readText path = .ok text) (hways : before.SameWays after)
    (hkept : ∀ place node, before.find? place = some node → after.find? place = some node) :
    after.readText path = .ok text := by
  obtain ⟨node, hstatus, -, hagain⟩ := exists_status_of_readText hread
  obtain ⟨spot, hlocate, hnode, hslash⟩ := exists_spot_of_status hstatus
  exact hagain after (status_of_spot (hways.locate_eq_ok_iff.mpr hlocate) (hkept _ _ hnode) hslash)

/-- Where there was nothing, a file may come to be, and paths lead where they led. -/
theorem sameWays_of_file
    (hcurrent : after.current = before.current) (hnone : before.find? place = none)
    (hsame : ∀ other, other ≠ place → after.find? other = before.find? other)
    (hfile : (after.find? place).all Node.isFile = true) :
    before.SameWays after := by
  refine .of_leaves hcurrent fun other => ?_
  by_cases hother : other = place
  · subst hother
    refine Or.inr ⟨?_, by rw [hnone]; rfl⟩
    cases hnode : after.find? other with
    | none => rfl
    | some node =>
        rw [hnode] at hfile
        cases node <;> first | rfl | cases hfile
  · exact Or.inl (hsame other hother)

/-- Where there was nothing, whatever comes to be there, the other entries are kept. -/
theorem find?_of_free
    (hnone : before.find? place = none) (hsame : ∀ other, other ≠ place → after.find? other = before.find? other)
    (other : Place) (node : Node) (hnode : before.find? other = some node) :
    after.find? other = some node := by
  refine (hsame other fun hplace => ?_).trans hnode
  rw [hplace, hnone] at hnode
  cases hnode

theorem KeepsEntries.readText
    (h : before.KeepsEntries after) {text : String} (hread : before.readText path = .ok text) :
    after.readText path = .ok text :=
  readText_of_sameWays hread (.of_leaves h.current_eq fun place => Or.inl (h.find?_eq place)) fun place _ hnode =>
    (h.find?_eq place).trans hnode

theorem Leaves.readText
    {refuses : Refusals} {directory : Path} {content : Bytes}
    (h : Leaves refuses before after directory content place)
    {text : String} (hread : before.readText path = .ok text) :
    after.readText path = .ok text := by
  obtain ⟨number, written, -, hfile⟩ := h.file
  exact readText_of_sameWays hread (sameWays_of_file h.current_eq h.free h.same (by rw [hfile]; rfl))
    (find?_of_free h.free h.same)

/-! ## Entries that change -/

/-- What is no longer there was found under the path, and was no directory. -/
theorem Discards.exists_target
    (h : Discards before path after) (hchanged : after.find? place ≠ before.find? place) :
    ∃ spot, before.locate false path = .ok spot ∧ spot.place = place ∧ spot.dotted = false ∧
      before.find? place ≠ some .directory := by
  rw [h.find?_eq] at hchanged
  split at hchanged
  · next hremoved =>
      refine exists_spot_of_removable ?_
      cases hremovable : before.removable path <;> simp_all [Except.toOption]
  · exact absurd rfl hchanged

end FileTree

namespace Template

open FileTree

variable {before bare after : FileTree} {root file target : Path} {place directory : Place} {stem : Name}

/-- The file of a template was generated from its text, beside it; the template reads as before. -/
structure Yields (root file : Path) (before after : FileTree) (target : Path) (text : String) (place : Place) :
    Prop where
  siblings : ∃ parts stem, Text.splitOn '/' file.text.toList = parts ++ [templateName stem] ∧
    Text.splitOn '/' target.text.toList = parts ++ [generatedName stem]
  read : before.readText file = .ok text
  kept : after.readText file = .ok text
  located : before.locate false target = .ok ⟨place, false, false⟩
  reached : after.locate false target = .ok ⟨place, false, false⟩
  holds : after.HoldsText place (substitute root file text.toList)

/-- The path of the generated file leads to an entry that is no directory, or to where there is none. -/
def Targets (before : FileTree) (file : Path) (place : Place) : Prop :=
  ∃ spot, before.locate false file.generated = .ok spot ∧ spot.place = place ∧ spot.dotted = false ∧
    before.find? place ≠ some .directory

/-- What is left of a file that could not be written: a part of it, under a name of its own beside where it belongs,
since the system refuses to remove it again. -/
structure Stray (refuses : Refusals) (root file : Path) (before after : FileTree) (result : Except TemplateFault Path)
    (place : Place) : Prop where
  failed : ∃ cause, result = .error (.file .writing file.generated cause)
  refused : (refuses after (.sweep place)).isSome = true
  free : before.find? place = none
  beside : ∃ directory number, before.locate true (directoryOf file.generated) = .ok directory ∧
    place = directory.place ++ [spareName number]
  part : ∃ text written number, before.readText file = .ok text ∧
    written <+: Utf8.encode (String.ofList (substitute root file text.toList)) ∧
    after.find? place = some (.file number written false)
  /-- It is the only one. -/
  alone : ∀ other, other ≠ place → after.find? other ≠ before.find? other → Targets before file other

/-! ## The template -/

/-- What the path of a template leads to has a name with the extension of templates. -/
theorem exists_stem_of_locate
    (hsound : before.Sound) (htemplate : file.isTemplate = true) {spot : Spot}
    (hlocate : before.locate false file = .ok spot) (hleaf : before.find? spot.place ≠ some .directory) :
    ∃ directory stem, spot.place = directory ++ [stem ++ '.' :: "cmx".toList] ∧
      (Path.cutExtension (stem ++ '.' :: "cmx".toList)).2 = some "cmx".toList := by
  have hnamed : spot.dotted = false := by
    refine Bool.eq_false_iff.mpr fun hdots => hleaf ?_
    obtain ⟨-, -, hwalks⟩ := exists_walks_of_locate hlocate
    exact hsound.find?_of_dotted (Sound.find?_startOf hsound.current file) hwalks hdots
  obtain ⟨directory, name, hspot, hname⟩ := exists_fileName_of_locate hlocate hnamed
  have hextension : file.extension? = some "cmx".toList := beq_iff_eq.mp htemplate
  rw [Path.extension?, hname, Option.bind_some] at hextension
  obtain ⟨stem, -, -, rfl⟩ := Path.exists_stem_of_cutExtension hextension
  exact ⟨directory, stem, hspot, hextension⟩

/-- The template is not where its file belongs, since that has another extension. -/
theorem Targets.ne_template
    (h : Targets before file place) (hsound : before.Sound) (htemplate : file.isTemplate = true) {spot : Spot}
    (hlocate : before.locate false file = .ok spot) :
    spot.place ≠ place := by
  rintro rfl
  obtain ⟨found, htarget, hplace, hdotted, hleaf⟩ := h
  obtain ⟨above, stem, hspot, hextension⟩ := exists_stem_of_locate hsound htemplate hlocate hleaf
  obtain ⟨beside, last, hfound, hlast⟩ := exists_fileName_of_locate htarget hdotted
  obtain ⟨-, hsame⟩ := List.append_inj' (hspot.symm.trans (hplace.symm.trans hfound)) rfl
  obtain rfl := List.singleton_inj.mp hsame
  rw [Path.generated, if_pos htemplate] at hlast
  have hgenerated := Path.cutExtension_of_withExtension hlast Path.isExtension_generated
  exact absurd (Option.some.inj (hgenerated.symm.trans hextension)) (by decide)

/-- The name of a file that is being written ends with a digit. -/
theorem notMem_spareName (number : Nat) : 'x' ∉ spareName number := by
  intro hmem
  rcases List.mem_append.mp hmem with hfront | hdigits
  · exact absurd hfront (by decide)
  · rcases List.mem_append.mp hdigits with hpadding | hdigit
    · exact absurd (List.eq_of_mem_replicate hpadding) (by decide)
    · exact absurd (Nat.isDigit_of_mem_toDigits (by decide) (by decide) hdigit) (by decide)

theorem Stray.ne_template
    {refuses : Refusals} {result : Except TemplateFault Path} (h : Stray refuses root file before after result place)
    (hsound : before.Sound) (htemplate : file.isTemplate = true) {spot : Spot}
    (hlocate : before.locate false file = .ok spot) :
    spot.place ≠ place := by
  rintro rfl
  have hfree := h.free
  obtain ⟨above, stem, hspot, -⟩ :=
    exists_stem_of_locate hsound htemplate hlocate (by rw [hfree]; exact fun hnone => by cases hnone)
  obtain ⟨directory, number, -, hplace⟩ := h.beside
  obtain ⟨-, hsame⟩ := List.append_inj' (hspot.symm.trans hplace) rfl
  refine notMem_spareName number ?_
  rw [← List.singleton_inj.mp hsame]
  simp

/-! ## Entries that change -/

/-- What has changed is the entry that the path of the generated file leads to, and it was no directory. -/
theorem Generates.targets
    (h : Generates before file after) (hchanged : after.find? place ≠ before.find? place) :
    Targets before file place := by
  cases h with
  | removed hbare hafter =>
      rw [hafter.find?_eq] at hchanged
      exact hbare.exists_target hchanged
  | @written bare _ written hbare _ hafter =>
      by_cases hremoved : bare.find? place = before.find? place
      · by_cases hplace : place = written
        · subst hplace
          obtain ⟨between, spot, hnarrows, hlocate, hspot, hdotted⟩ := hafter.located
          have hleaf := hafter.leaf
          rw [hremoved] at hleaf
          exact ⟨spot, locate_of_narrows (hbare.thins.narrows.trans hnarrows) hlocate, hspot, hdotted, hleaf⟩
        · exact absurd ((hafter.same place hplace).trans hremoved) hchanged
      · exact hbare.exists_target hremoved

namespace Outcome

variable {refuses : Refusals} {result : Except TemplateFault Path}

theorem targets_or_stray
    (h : Outcome refuses root file before result after) (hsound : before.Sound)
    (hchanged : after.find? place ≠ before.find? place) :
    Targets before file place ∨ Stray refuses root file before after result place := by
  rcases h.generates_or_left hsound with ⟨-, -, rfl⟩ | hgenerates |
    ⟨cause, bare, text, spare, hfailed, hdiscards, hread, hleaves⟩
  · exact absurd rfl hchanged
  · exact Or.inl (hgenerates.targets hchanged)
  · have hothers (other : Place) (hother : other ≠ spare) (hnew : after.find? other ≠ before.find? other) :
        Targets before file other := by
      rw [hleaves.same other hother] at hnew
      exact hdiscards.exists_target hnew
    by_cases hplace : place = spare
    · subst hplace
      -- What stood under the name before, if anything, was removed, so that it was the target.
      by_cases hfree : before.find? place = none
      · obtain ⟨directory, number, hlocate, hdirectory, hspare⟩ := hleaves.beside
        obtain ⟨id, written, hwritten, hfile⟩ := hleaves.file
        exact Or.inr {
          failed := ⟨cause, hfailed⟩
          refused := hleaves.refused
          free := hfree
          beside := ⟨directory, number, locate_of_thins hdiscards.thins hlocate hdirectory, hspare⟩
          part := ⟨text, written, id, readText_of_thins hdiscards.thins hread, hwritten, hfile⟩
          alone := hothers }
      · exact Or.inl (hdiscards.exists_target fun hsame => hfree (hsame.symm.trans hleaves.free))
    · exact Or.inl (hothers place hplace hchanged)

theorem find?_template
    (h : Outcome refuses root file before result after) (hsound : before.Sound) (htemplate : file.isTemplate = true)
    {spot : Spot} (hlocate : before.locate false file = .ok spot) :
    after.find? spot.place = before.find? spot.place := by
  by_contra hchanged
  rcases h.targets_or_stray hsound hchanged with htargets | hstray
  · exact htargets.ne_template hsound htemplate hlocate rfl
  · exact hstray.ne_template hsound htemplate hlocate rfl

theorem current_eq (h : Outcome refuses root file before result after) (hsound : before.Sound) :
    after.current = before.current := by
  rcases h.generates_or_left hsound with ⟨-, -, rfl⟩ | hgenerates | ⟨_, _, _, _, -, hdiscards, -, hleaves⟩
  · rfl
  · exact hgenerates.narrows.current_eq
  · exact hleaves.current_eq.trans hdiscards.thins.current_eq

end Outcome

/-! ## Work that succeeds -/

/-- A path that ends with a name is one that the name was appended to. -/
theorem exists_join_of_parts
    {parts : List (List Char)} {name : Name} (hparts : Text.splitOn '/' file.text.toList = parts ++ [name])
    (hname : IsFileName name) :
    ∃ path : Path, file = path.join ⟨String.ofList name⟩ := by
  obtain ⟨front, hfront, hgap⟩ :
      ∃ front, file.text.toList = front ++ name ∧ (front = [] ∨ front.getLast? = some '/') := by
    have htext := Text.join_splitOn '/' file.text.toList
    rw [hparts] at htext
    by_cases hempty : parts = []
    · subst hempty
      exact ⟨[], by simpa [Text.join] using htext.symm, Or.inl rfl⟩
    · rw [Text.join_append_singleton _ hempty, ← List.append_assoc] at htext
      exact ⟨_, htext.symm, Or.inr (by simp)⟩
  refine ⟨⟨String.ofList front⟩, Path.eq_of_toList ?_⟩
  rw [hfront, Path.join_name _ ⟨hname.ne_nil, hname.no_slash⟩]
  rcases hgap with rfl | hslash
  · simp [Path.gap]
  · simp [Path.gap, hslash]

/-- A template that can be read is a name in a directory, by which its path leads to that place. -/
theorem exists_directory_of_readText
    (hsound : bare.Sound) (hthins : before.Thins bare) (htemplate : file.isTemplate = true) {text : String}
    (hread : bare.readText file = .ok text) :
    ∃ path directory stem, file = path.join ⟨String.ofList (templateName stem)⟩ ∧ stem ≠ [] ∧
      IsValidName (templateName stem) ∧ before.Leads path directory ∧
      ∃ spot, bare.locate true file = .ok spot := by
  obtain ⟨node, hstatus, hleaf, -⟩ := exists_status_of_readText hread
  obtain ⟨spot, hlocate, -⟩ := exists_spot_of_status hstatus
  obtain ⟨parts, name, hparts, hname⟩ := exists_name_of_status hsound hstatus hleaf
  have hextension : file.extension? = some "cmx".toList := beq_iff_eq.mp htemplate
  obtain ⟨stem, hstem, -, rfl⟩ := Path.extension?_of_parts hparts (isFiller_eq_false hname) hextension
  obtain ⟨path, rfl⟩ := exists_join_of_parts hparts hname
  obtain ⟨directory, left, hdescends, -⟩ := exists_descends_of_locate hname hlocate
  rw [hthins.current_eq] at hdescends
  have hbefore := hdescends.of_narrows hthins.narrows
  exact ⟨path, directory, stem, rfl, hstem, isValidName_of_locate hname hlocate,
    fun _ _ hother => (hbefore.unique hother).1, spot, hlocate⟩

/-- What is left of the content of a template is a text, or nothing. -/
theorem holdsText_of_product
    {text : String} {content : Bytes} (hdecode : Utf8.decode? content = .ok text) {number : Nat}
    (h : after.find? place = (product? root file content).map fun bytes => .file number bytes false) :
    after.HoldsText place (substitute root file text.toList) := by
  rw [product?, hdecode] at h
  exact ⟨fun hempty => by simpa [hempty] using h, fun hwritten => ⟨number, by simpa [hwritten] using h⟩⟩

/-- What the work on a template comes to if it succeeds. -/
theorem exists_yields_of_place
    (hsound : before.Sound) (htemplate : file.isTemplate = true) (hdiscard : discard before file.generated = .ok bare)
    {text : String} (hread : bare.readText file = .ok text)
    (hplace : Template.place bare file.generated (substitute root file text.toList) = (.ok (), after)) :
    ∃ place, Yields root file before after file.generated text place := by
  have hdiscards := discards_of_discard hdiscard
  have hbare := hdiscards.sound hsound
  obtain ⟨path, directory, stem, rfl, hstem, hname, hleads, spot, hlocate⟩ :=
    exists_directory_of_readText hbare hdiscards.thins htemplate hread
  have hslash : '/' ∉ stem := fun hmem => hname.no_slash (List.mem_append_left _ hmem)
  have hdot := ne_dot_of_discard hsound hname hdiscard hlocate
  have hgenerated := isValidName_generatedName hstem hname
  rw [Path.generated_join _ hstem hdot hslash] at hdiscard hplace ⊢
  obtain ⟨-, hnone, -⟩ := find?_of_discard hleads hstem hname hdiscard hlocate
  have hnarrow := hleads.of_narrows hdiscards.thins.narrows
  obtain ⟨content, hdecode⟩ := exists_content_of_readText hread
  obtain ⟨⟨number, hproduct⟩, hsame, hnarrows⟩ :=
    find?_of_place hbare hnarrow hgenerated.toIsFileName hnone hdecode hplace
  have hholds := holdsText_of_product hdecode hproduct
  have hfile : (after.find? (directory ++ [generatedName stem])).all Node.isFile = true := by
    rw [hproduct]
    cases product? root (path.join ⟨String.ofList (templateName stem)⟩) content <;> rfl
  have hways := sameWays_of_file hnarrows.current_eq hnone hsame hfile
  have hfound := locate_generatedName hnarrow hstem hname hlocate
  obtain ⟨parts, hparts, -⟩ := exists_parts_of_join path hname.toIsFileName
  exact ⟨directory ++ [generatedName stem], {
    siblings := ⟨parts, stem, hparts,
      Path.splitOn_join_of_parts path hname.toIsFileName hgenerated.toIsFileName hparts⟩
    read := readText_of_thins hdiscards.thins hread
    kept := readText_of_sameWays hread hways (find?_of_free hnone hsame)
    located := locate_of_narrows hdiscards.thins.narrows hfound
    reached := hways.locate_eq_ok_iff.mpr hfound
    holds := hholds }⟩

/-! ## The law -/

/-- The template reads as before, unless it could not be read. -/
theorem Outcome.readText_eq
    {refuses : Refusals} {result : Except TemplateFault Path}
    (h : Outcome refuses root file before result after) (hsound : before.Sound) (htemplate : file.isTemplate = true)
    (hread : ∀ cause, result ≠ .error (.file .reading file cause)) :
    after.readText file = before.readText file := by
  cases h with
  | kept => rfl
  | unread _ cause => exact absurd rfl (hread cause)
  | unwritten hdiscard hbare hkeeps =>
      rw [hkeeps.readText hbare, readText_of_thins (discards_of_discard hdiscard).thins hbare]
  | left hdiscard hbare hleaves =>
      rw [hleaves.readText hbare, readText_of_thins (discards_of_discard hdiscard).thins hbare]
  | written hdiscard hbare hplace =>
      obtain ⟨place, hyields⟩ := exists_yields_of_place hsound htemplate hdiscard hbare hplace
      rw [hyields.kept, hyields.read]

/-- **What generating a file comes to.**  A path that is no template is passed on, and nothing is touched.  Where the
work on a template succeeds, the result is the path beside it with the other extension, and there stands a file with the
bytes of the text that the markers of the template were replaced in, or nothing if that text is empty.  Whatever the
system refuses, and whatever the work comes to, every entry but the one that the path of the generated file leads to is
as before, and so is that of the template; but if the file could not be written, and the system refuses to remove what
was written of it, that is left under a name of its own.  And the template reads as before, unless it could not be
read. -/
theorem generate_law (refuses : Refusals) (root file : Path) {before : FileTree} (hsound : before.Sound) :
    (file.isTemplate = false → generate root file before refuses = (.ok file, before)) ∧
    (file.isTemplate = true → ∀ target after, generate root file before refuses = (.ok target, after) →
      ∃ text place, Yields root file before after target text place) ∧
    ∀ result after, generate root file before refuses = (result, after) →
      after.current = before.current ∧
      (∀ place, after.find? place ≠ before.find? place →
        Targets before file place ∨ Stray refuses root file before after result place) ∧
      (∀ spot, before.locate false file = .ok spot → after.find? spot.place = before.find? spot.place) ∧
      ((∀ cause, result ≠ .error (.file .reading file cause)) → after.readText file = before.readText file) := by
  refine ⟨fun hother => generate_of_not_template root before hother refuses, fun htemplate target after h => ?_,
    fun result after h => ?_⟩
  · cases outcome_of_generate htemplate h with
    | written hdiscard hread hplace =>
        exact ⟨_, exists_yields_of_place hsound htemplate hdiscard hread hplace⟩
  · cases htemplate : file.isTemplate with
    | false =>
        rw [generate_of_not_template root before htemplate refuses] at h
        obtain ⟨-, rfl⟩ := Prod.mk.inj h
        exact ⟨rfl, fun place hchanged => absurd rfl hchanged, fun _ _ => rfl, fun _ => rfl⟩
    | true =>
        have houtcome := outcome_of_generate htemplate h
        exact ⟨houtcome.current_eq hsound, fun place hchanged => houtcome.targets_or_stray hsound hchanged,
          fun spot hlocate => houtcome.find?_template hsound htemplate hlocate, houtcome.readText_eq hsound htemplate⟩

/-! ## A file in the place of a link -/

namespace Stale

/-- A package with a template, and a link to it where the generated file belongs. -/
def files : FileTree :=
  (onePackage.putFile (Handwritten.package ++ [templateName ['w']]) (Utf8.encode "$$") false).insert Handwritten.source
    (.link ⟨"w.cmx"⟩)

theorem files_sound : files.Sound := by
  have htemplate : IsValidName (templateName ['w']) := by decide +kernel
  have hsource : IsValidName (generatedName ['w']) := by decide +kernel
  exact (onePackage_sound.putFile (by decide) htemplate (by decide) _ _).insert (by decide +kernel) hsource
    (by decide +kernel) _

theorem exists_generated :
    ∃ after, generate ⟨"/"⟩ ⟨"/custom/a/w.cmx"⟩ files = (.ok ⟨"/custom/a/w.cm"⟩, after) := by
  have hresult : (generate ⟨"/"⟩ ⟨"/custom/a/w.cmx"⟩ files).1 = .ok ⟨"/custom/a/w.cm"⟩ := by decide +kernel
  rcases hgenerate : generate ⟨"/"⟩ ⟨"/custom/a/w.cmx"⟩ files with ⟨result, after⟩
  rw [hgenerate] at hresult
  exact ⟨after, congrArg (·, after) hresult⟩

theorem generate_law_link :
    files.Sound ∧ files.find? Handwritten.source = some (.link ⟨"w.cmx"⟩) ∧
      ∃ after, generate ⟨"/"⟩ ⟨"/custom/a/w.cmx"⟩ files = (.ok ⟨"/custom/a/w.cm"⟩, after) ∧
        ∃ text place, Yields ⟨"/"⟩ ⟨"/custom/a/w.cmx"⟩ files after ⟨"/custom/a/w.cm"⟩ text place := by
  have htemplate : Path.isTemplate ⟨"/custom/a/w.cmx"⟩ = true := by decide +kernel
  have hlink : files.find? Handwritten.source = some (.link ⟨"w.cmx"⟩) := by decide +kernel
  obtain ⟨after, hgenerated⟩ := exists_generated
  have hlaw := generate_law .none ⟨"/"⟩ ⟨"/custom/a/w.cmx"⟩ files_sound
  exact ⟨files_sound, hlink, after, hgenerated, hlaw.2.1 htemplate _ _ hgenerated⟩

/-- A system that refuses to move files, and to remove them again. -/
def stuck : Refusals
  | _, .move _ _ | _, .sweep _ => some { cause := .denied }
  | _, .remove _ | _, .read _ | _, .create _ | _, .write _ _ => none

/-- Where the file belongs that is written for the template, before it is moved. -/
def spare : Place :=
  Handwritten.package ++ [spareName 1]

/-- A package with a template that is a link to the file that is generated from it. -/
def looped : FileTree :=
  (onePackage.putFile Handwritten.source (Utf8.encode "$$") false).insert (Handwritten.package ++ [templateName ['w']])
    (.link ⟨"/custom/a/w.cm"⟩)

/-- The file that was written may stay beside the target, and a template may lose its text with the target. -/
theorem generate_leaves_and_loses :
    (files.find? spare = none ∧
      (generate ⟨"/"⟩ ⟨"/custom/a/w.cmx"⟩ files stuck).1 = .error (.file .writing ⟨"/custom/a/w.cm"⟩ .denied) ∧
      (generate ⟨"/"⟩ ⟨"/custom/a/w.cmx"⟩ files stuck).2.find? spare = some (.file 2 (Utf8.encode "a") false)) ∧
    looped.readText ⟨"/custom/a/w.cmx"⟩ = .ok "$$" ∧
      (generate ⟨"/"⟩ ⟨"/custom/a/w.cmx"⟩ looped).1 = .error (.file .reading ⟨"/custom/a/w.cmx"⟩ .notFound) ∧
      (generate ⟨"/"⟩ ⟨"/custom/a/w.cmx"⟩ looped).2.readText ⟨"/custom/a/w.cmx"⟩ = .error .notFound := by
  decide +kernel

end Stale
end Template
end CompilerRelay
