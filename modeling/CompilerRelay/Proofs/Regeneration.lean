import CompilerRelay.Proofs.SiblingPaths
import CompilerRelay.Template.Generation

/-!
# Generated files

What work on templates does to the entries of a tree.

**Input.**  A tree in order, and work on templates that succeeds or fails, by itself or since the system refuses a call.

**Form.**  `FileTree.Discards`: the entry that a path leads to is gone.  `FileTree.Replaces`: a file stands where a path
leads.  `FileTree.KeepsEntries`: nothing has changed.  `FileTree.Leaves`: a file stays that was to be moved.
`Template.Outcome`: how far the work on one template came.  `Template.Generates`: what it leaves where it leaves no such
file.

**Results.**
* `FileTree.keepsEntries_or_leaves_of_replaceFile`: what is left where no file takes the place of another.
* `Template.outcome_of_generate`: whatever is refused, the work has one of the outcomes.
* `Template.generates_of_template`: a file is written where one was removed before, and only if the template is a file.
* `Template.generate_sound`, `Template.generateAll_sound`, `Template.clean_sound`: the tree stays in order.
-/

namespace CompilerRelay
namespace FileTree

variable {tree bare after : FileTree} {path : Path} {place : Place}

/-! ## Removing -/

theorem exists_spot_of_removable
    (h : tree.removable path = .ok place) :
    ∃ spot, tree.locate false path = .ok spot ∧ spot.place = place ∧ spot.dotted = false ∧
      tree.find? place ≠ some .directory := by
  unfold removable at h
  cases hlocate : tree.locate false path with
  | error fault => rw [hlocate] at h; cases h
  | ok spot =>
      rw [hlocate] at h
      simp only [bind, Except.bind] at h
      split at h
      · cases h
      · cases h
      · next node hdirectory hnode =>
          split at h
          · cases h
          · next hdotted =>
              split at h
              · cases h
              · obtain rfl := Except.ok.inj h
                refine ⟨spot, rfl, rfl, Bool.eq_false_iff.mpr hdotted, fun hplace => ?_⟩
                exact hdirectory (Option.some.inj (hnode.symm.trans hplace))

/-- What is left when the entry that a path leads to was removed, if there was one that can be removed. -/
inductive Discards (tree : FileTree) (path : Path) : FileTree → Prop
  | nothing (hnone : (tree.removable path).toOption = none) : Discards tree path tree
  | entry {place : Place} (hplace : tree.removable path = .ok place) : Discards tree path (tree.erase place)

namespace Discards

theorem thins (h : Discards tree path bare) : tree.Thins bare := by
  cases h with
  | nothing => exact .refl tree
  | entry => exact thins_erase tree _

theorem sound
    (h : Discards tree path bare) (hsound : tree.Sound) :
    bare.Sound := by
  cases h with
  | nothing => exact hsound
  | entry hplace =>
      obtain ⟨spot, -, -, -, hleaf⟩ := exists_spot_of_removable hplace
      exact hsound.erase hleaf

theorem find?_eq
    (h : Discards tree path bare) (place : Place) :
    bare.find? place = if (tree.removable path).toOption = some place then none else tree.find? place := by
  cases h with
  | nothing hnone => rw [hnone, if_neg (by simp)]
  | @entry removed hplace =>
      rw [hplace]
      by_cases hsame : removed = place
      · subst hsame
        obtain ⟨spot, -, -, -, hleaf⟩ := exists_spot_of_removable hplace
        simpa [Except.toOption] using tree.find?_erase_self (ne_nil_of_leaf hleaf)
      · simpa [Except.toOption, hsame] using tree.find?_erase_of_ne (Ne.symm hsame)

theorem find?_of_ne
    (h : Discards tree path bare) {place : Place}
    (hne : ∀ removed, tree.removable path = .ok removed → removed ≠ place) :
    bare.find? place = tree.find? place := by
  cases h with
  | nothing => rfl
  | entry hremoved => exact tree.find?_erase_of_ne (hne _ hremoved).symm

end Discards

/-! ## Replacing -/

/-- A file was put where a path leads, as seen in a tree that has no new ways, and nothing else has changed. -/
structure Replaces (before after : FileTree) (path : Path) (place : Place) : Prop where
  located : ∃ between spot, before.Narrows between ∧ between.locate false path = .ok spot ∧
    spot.place = place ∧ spot.dotted = false
  leaf : before.find? place ≠ some .directory
  file : (after.find? place).any Node.isFile = true
  same : ∀ other, other ≠ place → after.find? other = before.find? other
  current_eq : after.current = before.current

namespace Replaces

theorem narrows (h : tree.Replaces after path place) : tree.Narrows after :=
  .of_file h.current_eq h.same h.file

/-- The file stands in a directory under the last name of the path. -/
theorem exists_directory
    (h : tree.Replaces after path place) (hsound : tree.Sound) :
    ∃ directory name, place = directory ++ [name] ∧ tree.find? directory = some .directory ∧ IsValidName name := by
  obtain ⟨between, spot, hnarrows, hlocate, rfl, hdotted⟩ := h.located
  obtain ⟨front, name, hsteps, hname⟩ := exists_last_of_locate hlocate hdotted
  obtain ⟨-, -, hwalks⟩ := exists_walks_of_locate hlocate
  rw [hsteps] at hwalks
  obtain ⟨directory, left, hdescends, hlast⟩ := hwalks.exists_descends
  obtain ⟨hplace, -, hentry⟩ := hlast.place_of_name hname
  have hbefore := hdescends.of_narrows hnarrows
  rw [hnarrows.current_eq] at hbefore
  have hdirectory := hsound.find?_of_descends (Sound.find?_startOf hsound.current path) hbefore
  exact ⟨directory, name, hplace, hdirectory, hname, hentry.size_le⟩

theorem sound
    (h : tree.Replaces after path place) (hsound : tree.Sound) :
    after.Sound :=
  hsound.of_change h.same h.current_eq h.leaf fun _ _ => h.exists_directory hsound

end Replaces

/-- Nothing has changed but the number of the newest file. -/
structure KeepsEntries (before after : FileTree) : Prop where
  current_eq : after.current = before.current
  find?_eq : ∀ place, after.find? place = before.find? place

namespace KeepsEntries

variable {before : FileTree}

theorem refl (tree : FileTree) : tree.KeepsEntries tree :=
  ⟨rfl, fun _ => rfl⟩

theorem thins (h : before.KeepsEntries after) : before.Thins after :=
  ⟨h.current_eq, fun place _ hnode => (h.find?_eq place).symm.trans hnode⟩

theorem sound
    (h : before.KeepsEntries after) (hsound : before.Sound) :
    after.Sound where
  above := fun place name _ hnode => by
    rw [h.find?_eq] at hnode ⊢
    exact hsound.above place name _ hnode
  named := fun place name _ hnode => by
    rw [h.find?_eq] at hnode
    exact hsound.named place name _ hnode
  current := by
    rw [h.current_eq, h.find?_eq]
    exact hsound.current

end KeepsEntries

variable {directory : Path} {spare : Place} {content : Bytes} {cause : FileError} {refuses : Refusals}

/-- Nothing is written, or a file is written under a name of its own in the directory. -/
theorem replaceFile_cases
    (tree : FileTree) (directory path : Path) (content : Bytes) (refuses : Refusals) :
    (∃ cause, tree.replaceFile directory path content refuses = (.error cause, tree)) ∨
      ∃ above number, tree.locate true directory = .ok above ∧ tree.find? above.place = some .directory ∧
        tree.find? (above.place ++ [spareName number]) = none ∧
        ∀ others, tree.replaceFile directory path content others =
          tree.replaceBy others (above.place ++ [spareName number]) path content := by
  unfold replaceFile
  split
  · exact Or.inl ⟨_, rfl⟩
  · next above habove =>
      split
      · exact Or.inl ⟨_, rfl⟩
      · next name hdirectory hname =>
          split
          · exact Or.inl ⟨_, rfl⟩
          · obtain ⟨⟨number, rfl⟩, hfree⟩ := spareName?_spec hname
            exact Or.inr ⟨above, number, habove, hdirectory, hfree, fun _ => rfl⟩
      · exact Or.inl ⟨_, rfl⟩
      · exact Or.inl ⟨_, rfl⟩

/-- A file that took the place of another was written and then moved; nothing of that was refused. -/
theorem replaceBy_eq_ok
    (h : tree.replaceBy refuses spare path content = (.ok (), after)) :
    (tree.putFile spare content false).moveFile spare path = .ok after := by
  unfold replaceBy at h
  split at h
  · cases (Prod.mk.inj h).1
  · split at h
    · cases (Prod.mk.inj h).1
    · dsimp only at h
      split at h
      · next hmove =>
          obtain ⟨-, rfl⟩ := Prod.mk.inj h
          exact (permit_eq_ok_iff.mp hmove).2
      · cases (Prod.mk.inj h).1

theorem exists_spare_of_replaceFile
    (h : tree.replaceFile directory path content refuses = (.ok (), after)) :
    ∃ spare, spare ≠ [] ∧ tree.find? spare = none ∧
      (tree.putFile spare content false).moveFile spare path = .ok after := by
  rcases tree.replaceFile_cases directory path content refuses with
    ⟨cause, hnothing⟩ | ⟨above, number, -, -, hfree, hby⟩
  · cases (Prod.mk.inj (hnothing.symm.trans h)).1
  · exact ⟨_, by simp, hfree, replaceBy_eq_ok ((hby refuses).symm.trans h)⟩

/-- What is done although a system may refuse it is done where nothing is refused. -/
theorem replaceFile_of_refuses
    (h : tree.replaceFile directory path content refuses = (.ok (), after)) :
    tree.replaceFile directory path content = (.ok (), after) := by
  rcases tree.replaceFile_cases directory path content refuses with
    ⟨cause, hnothing⟩ | ⟨above, number, -, -, -, hby⟩
  · cases (Prod.mk.inj (hnothing.symm.trans h)).1
  · have hmove := replaceBy_eq_ok ((hby refuses).symm.trans h)
    rw [hby]
    simp [replaceBy, Refusals.none, permit, hmove]

theorem keepsEntries_erase_putFile
    (tree : FileTree) (hbelow : spare ≠ []) (hfree : tree.find? spare = none) (content : Bytes) :
    tree.KeepsEntries ((tree.putFile spare content false).erase spare) := by
  refine ⟨rfl, fun other => ?_⟩
  by_cases hother : other = spare
  · subst hother
    rw [find?_erase_self _ hbelow, hfree]
  · rw [find?_erase_of_ne _ hother]
    exact tree.find?_insert_of_ne hother _

/-- A file that could not be written or moved is left, since the system refuses to remove it. -/
structure Leaves (refuses : Refusals) (before after : FileTree) (directory : Path) (content : Bytes) (place : Place) :
    Prop where
  free : before.find? place = none
  beside : ∃ above number, before.locate true directory = .ok above ∧ before.find? above.place = some .directory ∧
    place = above.place ++ [spareName number]
  file : ∃ number written, written <+: content ∧ after.find? place = some (.file number written false)
  same : ∀ other, other ≠ place → after.find? other = before.find? other
  current_eq : after.current = before.current
  refused : (refuses after (.sweep place)).isSome = true

/-- Nothing is left of a file that could not be moved, unless the system refuses to remove it. -/
theorem keepsEntries_or_leaves_of_sweep
    {above : Spot} {number : Nat} (habove : tree.locate true directory = .ok above)
    (hdirectory : tree.find? above.place = some .directory)
    (hfree : tree.find? (above.place ++ [spareName number]) = none) {written : Bytes} (hwritten : written <+: content) :
    let spare := above.place ++ [spareName number]
    let after := (tree.putFile spare written false).sweep refuses spare
    tree.KeepsEntries after ∨ Leaves refuses tree after directory content spare := by
  intro spare after
  have hbelow : spare ≠ [] := by simp [spare]
  cases hrefused : (refuses (tree.putFile spare written false) (.sweep spare)).isSome with
  | false =>
      have hafter : after = (tree.putFile spare written false).erase spare := by simp [after, sweep, hrefused]
      rw [hafter]
      exact Or.inl (tree.keepsEntries_erase_putFile hbelow hfree written)
  | true =>
      have hafter : after = tree.putFile spare written false := by simp [after, sweep, hrefused]
      rw [hafter]
      exact Or.inr {
        free := hfree
        beside := ⟨above, number, habove, hdirectory, rfl⟩
        file := ⟨_, written, hwritten, tree.find?_insert_self hbelow _⟩
        same := fun other hother => tree.find?_insert_of_ne hother _
        current_eq := rfl
        refused := hrefused }

/-- Where no file takes the place of another, nothing has changed, unless a file is left. -/
theorem keepsEntries_or_leaves_of_replaceFile
    (h : tree.replaceFile directory path content refuses = (.error cause, after)) :
    tree.KeepsEntries after ∨ ∃ place, Leaves refuses tree after directory content place := by
  rcases tree.replaceFile_cases directory path content refuses with
    ⟨fault, hnothing⟩ | ⟨above, number, habove, hdirectory, hfree, hby⟩
  · obtain ⟨-, rfl⟩ := Prod.mk.inj (hnothing.symm.trans h)
    exact Or.inl (.refl tree)
  · rw [hby] at h
    unfold replaceBy at h
    split at h
    · obtain ⟨-, rfl⟩ := Prod.mk.inj h
      exact Or.inl (.refl tree)
    · split at h
      · obtain ⟨-, rfl⟩ := Prod.mk.inj h
        exact (keepsEntries_or_leaves_of_sweep habove hdirectory hfree (List.take_prefix _ _)).imp_right (⟨_, ·⟩)
      · dsimp only at h
        split at h
        · cases (Prod.mk.inj h).1
        · obtain ⟨-, rfl⟩ := Prod.mk.inj h
          exact (keepsEntries_or_leaves_of_sweep habove hdirectory hfree (List.prefix_refl _)).imp_right (⟨_, ·⟩)

theorem exists_spot_of_moveFile
    {origin : Place} {node : Node} (hnode : tree.find? origin = some node) (h : tree.moveFile origin path = .ok after) :
    ∃ spot, tree.locate false path = .ok spot ∧ tree.find? spot.place ≠ some .directory ∧
      after = (tree.erase origin).insert spot.place node := by
  unfold moveFile at h
  cases hlocate : tree.locate false path with
  | error fault => rw [hlocate] at h; cases h
  | ok spot =>
      rw [hlocate] at h
      simp only [bind, Except.bind, hnode] at h
      split at h
      · cases h
      · next hleaf =>
          split at h
          · cases h
          · exact ⟨spot, rfl, hleaf, (Except.ok.inj h).symm⟩

theorem exists_replaces_of_replaceFile
    (hsound : tree.Sound) (h : tree.replaceFile directory path content refuses = (.ok (), after)) :
    ∃ place, tree.Replaces after path place ∧ after.find? place = some (.file (tree.lastId + 1) content false) := by
  obtain ⟨spare, hbelow, hfree, hmove⟩ := exists_spare_of_replaceFile h
  -- While the file is being written, it is the only entry that is new.
  have hsame (other : Place) (hother : other ≠ spare) :
      (tree.putFile spare content false).find? other = tree.find? other :=
    tree.find?_insert_of_ne hother _
  have hwritten : (tree.putFile spare content false).find? spare = some (.file (tree.lastId + 1) content false) :=
    tree.find?_insert_self hbelow _
  have hnarrows : tree.Narrows (tree.putFile spare content false) := .of_file rfl hsame (by rw [hwritten]; rfl)
  obtain ⟨spot, hlocate, hleaf, rfl⟩ := exists_spot_of_moveFile hwritten hmove
  have hbefore : tree.find? spot.place ≠ some .directory := by
    intro hplace
    refine hleaf ((hsame _ fun hspare => ?_).trans hplace)
    rw [hspare, hfree] at hplace
    cases hplace
  obtain ⟨-, -, hwalks⟩ := exists_walks_of_locate hlocate
  have hdotted : spot.dotted = false := by
    refine Bool.eq_false_iff.mpr fun hdotted => hbefore ?_
    have hstart := Sound.find?_startOf hsound.current path
    exact hsound.find?_of_dotted hstart (hwalks.of_narrows hnarrows (Or.inl hdotted)) hdotted
  have hplaced := find?_insert_self ((tree.putFile spare content false).erase spare) (ne_nil_of_leaf hbefore)
    (.file (tree.lastId + 1) content false)
  refine ⟨spot.place, ?_, hplaced⟩
  exact {
    located := ⟨_, spot, hnarrows, hlocate, rfl, hdotted⟩
    leaf := hbefore
    file := by rw [hplaced]; rfl
    same := fun other hother => by
      rw [find?_insert_of_ne _ hother]
      by_cases hmoved : other = spare
      · rw [hmoved, find?_erase_self _ hbelow, hfree]
      · rw [find?_erase_of_ne _ hmoved, hsame other hmoved]
    current_eq := rfl }

/-! ## Reading -/

theorem isFile_of_readText
    {text : String} (h : tree.readText path = .ok text) (htext : text.toList ≠ []) :
    tree.isFile path = true := by
  unfold readText read at h
  unfold isFile
  cases hstatus : tree.status path with
  | error fault => rw [hstatus] at h; cases h
  | ok node =>
      rw [hstatus] at h
      cases node with
      | file => rfl
      | directory => cases h
      | link | device =>
          obtain rfl := Except.ok.inj h
          exact absurd rfl htext

end FileTree

namespace Template

open FileTree

variable {tree bare after : FileTree} {file path : Path} {cause : FileError} {refuses : Refusals}

/-! ## Generating one file -/

theorem discard_of_refuses
    (h : discard tree path refuses = .ok bare) :
    discard tree path = .ok bare := by
  unfold discard permit at h
  cases hrefused : refuses tree (.remove path) with
  | none => simpa only [hrefused, discard, permit_none] using h
  | some refusal =>
      simp only [hrefused] at h
      split at h
      · next hcause => exact absurd (Except.error.inj hcause) refusal.unseen.1
      · cases h

theorem discards_of_discard
    (h : discard tree path = .ok bare) :
    tree.Discards path bare := by
  unfold discard removeFile at h
  rw [permit_none] at h
  cases hremovable : tree.removable path with
  | error cause =>
      simp only [hremovable, Except.map] at h
      split at h
      · obtain rfl := Except.ok.inj h
        exact .nothing (by rw [hremovable]; rfl)
      · cases h
  | ok spot =>
      simp only [hremovable, Except.map] at h
      obtain rfl := Except.ok.inj h
      exact .entry hremovable

theorem nothing_of_discard
    (h : discard tree path = .error cause) :
    tree.Discards path tree := by
  refine .nothing ?_
  unfold discard removeFile at h
  rw [permit_none] at h
  cases hremovable : tree.removable path with
  | error => rfl
  | ok spot =>
      simp only [hremovable, Except.map] at h
      cases h

/-- A text that is put somewhere is empty, or a file is replaced. -/
theorem place_cases
    {text : List Char} (h : Template.place tree path text refuses = (.ok (), after)) :
    (text = [] ∧ after = tree) ∨
      text ≠ [] ∧ tree.replaceFile (directoryOf path) path (Utf8.encode (String.ofList text)) = (.ok (), after) := by
  unfold Template.place at h
  split at h
  · next hempty =>
      obtain ⟨-, rfl⟩ := Prod.mk.inj h
      exact Or.inl ⟨List.isEmpty_iff.mp hempty, rfl⟩
  · next hwritten => exact Or.inr ⟨fun hempty => hwritten (List.isEmpty_iff.mpr hempty), replaceFile_of_refuses h⟩

theorem place_of_refuses
    {text : List Char} (h : Template.place tree path text refuses = (.ok (), after)) :
    Template.place tree path text = (.ok (), after) := by
  unfold Template.place
  rcases place_cases h with ⟨rfl, rfl⟩ | ⟨hwritten, hreplace⟩
  · rfl
  · rwa [if_neg (by simpa using hwritten)]

/-- Where a text is not put in its place, nothing has changed, unless a file is left. -/
theorem keepsEntries_or_leaves_of_place
    {text : List Char} (h : Template.place tree path text refuses = (.error cause, after)) :
    tree.KeepsEntries after ∨
      ∃ place, Leaves refuses tree after (directoryOf path) (Utf8.encode (String.ofList text)) place := by
  unfold Template.place at h
  split at h
  · cases (Prod.mk.inj h).1
  · exact keepsEntries_or_leaves_of_replaceFile h

/-- How far the work on a template came, and what it has left. -/
inductive Outcome (refuses : Refusals) (root file : Path) (before : FileTree) :
    Except TemplateFault Path → FileTree → Prop
  | kept {cause : FileError} (hrefused : discard before file.generated refuses = .error cause) :
      Outcome refuses root file before (.error (.file .removing file.generated cause)) before
  | unread {bare : FileTree} (hdiscard : discard before file.generated = .ok bare) (cause : FileError) :
      Outcome refuses root file before (.error (.file .reading file cause)) bare
  | unwritten {bare after : FileTree} {text : String} (hdiscard : discard before file.generated = .ok bare)
      (hread : bare.readText file = .ok text) (hkeeps : bare.KeepsEntries after) (cause : FileError) :
      Outcome refuses root file before (.error (.file .writing file.generated cause)) after
  /-- What was written before the work failed is left. -/
  | left {bare after : FileTree} {text : String} {place : Place} (hdiscard : discard before file.generated = .ok bare)
      (hread : bare.readText file = .ok text)
      (hleaves : Leaves refuses bare after (directoryOf file.generated)
        (Utf8.encode (String.ofList (substitute root file text.toList))) place) (cause : FileError) :
      Outcome refuses root file before (.error (.file .writing file.generated cause)) after
  | written {bare after : FileTree} {text : String} (hdiscard : discard before file.generated = .ok bare)
      (hread : bare.readText file = .ok text)
      (hplace : Template.place bare file.generated (substitute root file text.toList) = (.ok (), after)) :
      Outcome refuses root file before (.ok file.generated) after

/-- Whatever a system refuses, the work on a template has one of these outcomes. -/
theorem outcome_of_generate
    {root : Path} {result : Except TemplateFault Path} (htemplate : file.isTemplate = true)
    (h : generate root file tree refuses = (result, after)) :
    Outcome refuses root file tree result after := by
  unfold generate at h
  simp only [htemplate, Bool.not_true, Bool.false_eq_true, if_false] at h
  split at h
  · next hrefused =>
      obtain ⟨rfl, rfl⟩ := Prod.mk.inj h
      exact .kept hrefused
  · next bare hremoved =>
      have hdiscard := discard_of_refuses hremoved
      split at h
      · obtain ⟨rfl, rfl⟩ := Prod.mk.inj h
        exact .unread hdiscard _
      · next text hpermitted =>
          have hread := (permit_eq_ok_iff.mp hpermitted).2
          split at h
          · next cause left hplace =>
              obtain ⟨rfl, rfl⟩ := Prod.mk.inj h
              rcases keepsEntries_or_leaves_of_place hplace with hkeeps | ⟨place, hleaves⟩
              · exact .unwritten hdiscard hread hkeeps cause
              · exact .left hdiscard hread hleaves cause
          · next written hplace =>
              obtain ⟨rfl, rfl⟩ := Prod.mk.inj h
              exact .written hdiscard hread (place_of_refuses hplace)

/-- What work on one template comes to where nothing is left, whether it succeeds or fails. -/
inductive Generates (tree : FileTree) (file : Path) : FileTree → Prop
  | removed {bare after : FileTree} (hbare : tree.Discards file.generated bare) (hafter : bare.KeepsEntries after) :
      Generates tree file after
  | written {bare after : FileTree} {place : Place} (hbare : tree.Discards file.generated bare)
      (hfile : bare.isFile file = true) (hafter : bare.Replaces after file.generated place) : Generates tree file after

/-- Nothing is removed, or a file is written where one was removed before, or it is left elsewhere. -/
theorem Outcome.generates_or_left
    {root : Path} {result : Except TemplateFault Path}
    (h : Outcome refuses root file tree result after) (hsound : tree.Sound) :
    (∃ cause, discard tree file.generated refuses = .error cause ∧ after = tree) ∨ Generates tree file after ∨
      ∃ cause bare text place, result = .error (.file .writing file.generated cause) ∧
        tree.Discards file.generated bare ∧ bare.readText file = .ok text ∧
        Leaves refuses bare after (directoryOf file.generated)
          (Utf8.encode (String.ofList (substitute root file text.toList))) place := by
  cases h with
  | kept hrefused => exact Or.inl ⟨_, hrefused, rfl⟩
  | unread hdiscard cause => exact Or.inr (Or.inl (.removed (discards_of_discard hdiscard) (.refl _)))
  | unwritten hdiscard _ hkeeps cause => exact Or.inr (Or.inl (.removed (discards_of_discard hdiscard) hkeeps))
  | left hdiscard hread hleaves cause =>
      exact Or.inr (Or.inr ⟨cause, _, _, _, rfl, discards_of_discard hdiscard, hread, hleaves⟩)
  | @written bare _ text hdiscard hread hplace =>
      have hbare := discards_of_discard hdiscard
      rcases place_cases hplace with ⟨-, rfl⟩ | ⟨hwritten, hreplace⟩
      · exact Or.inr (Or.inl (.removed hbare (.refl _)))
      · have htext : text.toList ≠ [] := by
          intro hempty
          rw [hempty, substitute_nil] at hwritten
          exact hwritten rfl
        obtain ⟨place, hafter, -⟩ := exists_replaces_of_replaceFile (hbare.sound hsound) hreplace
        exact Or.inr (Or.inl (.written hbare (isFile_of_readText hread htext) hafter))

theorem generates_of_template
    (hsound : tree.Sound) (root : Path) (htemplate : file.isTemplate = true) :
    Generates tree file (generate root file tree).2 := by
  have houtcome : Outcome .none root file tree (generate root file tree).1 (generate root file tree).2 :=
    outcome_of_generate htemplate rfl
  rcases houtcome.generates_or_left hsound with
    ⟨cause, hrefused, hafter⟩ | hgenerates | ⟨_, _, _, _, -, -, -, hleaves⟩
  · rw [hafter]
    exact .removed (nothing_of_discard hrefused) (.refl tree)
  · exact hgenerates
  · cases hleaves.refused

namespace Generates

theorem sound
    (h : Generates tree file after) (hsound : tree.Sound) :
    after.Sound := by
  cases h with
  | removed hbare hafter => exact hafter.sound (hbare.sound hsound)
  | written hbare _ hafter => exact hafter.sound (hbare.sound hsound)

theorem narrows (h : Generates tree file after) : tree.Narrows after := by
  cases h with
  | removed hbare hafter => exact (hbare.thins.trans hafter.thins).narrows
  | written hbare _ hafter => exact hbare.thins.narrows.trans hafter.narrows

end Generates

/-! ## Trees stay in order -/

theorem generate_sound
    (hsound : tree.Sound) (root file : Path) :
    (generate root file tree).2.Sound := by
  cases htemplate : file.isTemplate with
  | true => exact (generates_of_template hsound root htemplate).sound hsound
  | false => rw [generate_of_not_template root tree htemplate]; exact hsound

theorem generateEach_sound
    (root : Path) (files : List Path) (hsound : tree.Sound) :
    (generateEach root files tree).2.Sound := by
  induction files generalizing tree with
  | nil => exact hsound
  | cons file rest ih =>
      have hafter := generate_sound hsound root file
      unfold generateEach
      split
      · next hgenerate => rwa [hgenerate] at hafter
      · next hgenerate =>
          rw [hgenerate] at hafter
          exact ih hafter

theorem generateAll_sound
    (hsound : tree.Sound) (root : Path) :
    (generateAll root tree).2.Sound := by
  unfold generateAll
  split
  · exact hsound
  · exact generateEach_sound root _ hsound

theorem discards_of_removeFile
    (h : tree.removeFile path = .ok after) :
    tree.Discards path after := by
  unfold removeFile at h
  cases hremovable : tree.removable path with
  | error cause => rw [hremovable] at h; cases h
  | ok place =>
      rw [hremovable] at h
      obtain rfl := Except.ok.inj h
      exact .entry hremovable

theorem removeEach_sound
    (files : List Path) (hsound : tree.Sound) :
    (removeEach files tree).2.Sound := by
  induction files generalizing tree with
  | nil => exact hsound
  | cons file rest ih =>
      unfold removeEach
      split
      · split
        · exact hsound
        · next hremove => exact ih ((discards_of_removeFile hremove).sound hsound)
      · exact ih hsound

theorem clean_sound
    (hsound : tree.Sound) (root : Path) :
    (clean root tree).2.Sound := by
  unfold clean
  split
  · exact hsound
  · exact removeEach_sound _ hsound

end Template
end CompilerRelay
