import CompilerRelay.Proofs.TemplateOutput

/-!
# What cleaning removes

**Input.**  A tree in order in which every entry is listed once, with a directory of custom packages.

**Form.**  `Template.without`: a tree without the generated files of stems.

**Algorithm.**  Cleaning asks of each generated file whether the path of its template leads to a file, and removes it
then.  A template that was found stands in the directory of the file, so that the removal does not fail.  Only files are
removed, so that paths lead to the same places afterwards.

**Results.**
* `Template.isRegenerable_iff`: what is asked of a generated file.
* `Template.clean_eq`: what cleaning removes, and that it does not fail once it has begun.
-/

namespace CompilerRelay
namespace Template

open FileTree

variable {tree before after : FileTree} {root path : Path} {place directory : Place} {item : Stem} {base : Name}

/-- A tree without the generated files of stems. -/
def without (place : Place) (tree : FileTree) (items : List Stem) : FileTree :=
  items.foldl (fun rest item => rest.erase (place ++ item.generated)) tree

theorem find?_without
    (place : Place) (tree : FileTree) (items : List Stem) (other : Place) :
    (without place tree items).find? other =
      if other ∈ items.map (place ++ ·.generated) then none else tree.find? other := by
  induction items generalizing tree with
  | nil => rfl
  | cons item items ih =>
      rw [without, List.foldl_cons, ← without, ih, List.map_cons]
      by_cases hother : other = place ++ item.generated
      · subst hother
        have hbelow : place ++ item.generated ≠ [] := by simp [Stem.generated, Stem.names]
        simp [tree.find?_erase_self hbelow]
      · simp [tree.find?_erase_of_ne hother, hother]

theorem current_without (place : Place) (tree : FileTree) (items : List Stem) :
    (without place tree items).current = tree.current := by
  induction items generalizing tree with
  | nil => rfl
  | cons item items ih => exact ih (tree.erase (place ++ item.generated))

theorem distinct_without
    (h : (tree.nodes.map Prod.fst).Nodup) (place : Place) (items : List Stem) :
    ((without place tree items).nodes.map Prod.fst).Nodup := by
  induction items generalizing tree with
  | nil => exact h
  | cons item items ih => exact ih (distinct_erase h (place ++ item.generated))

theorem find?_template_without
    (place : Place) (tree : FileTree) (items : List Stem) (item : Stem) :
    (without place tree items).find? (place ++ item.template) = tree.find? (place ++ item.template) := by
  rw [find?_without, if_neg]
  intro hmem
  obtain ⟨other, -, hother⟩ := List.mem_map.mp hmem
  exact Stem.template_ne_generated place item other hother.symm

/-- Without files, paths lead to the same places. -/
theorem sameWays_without
    {items : List Stem} (hfile : ∀ item ∈ items, (tree.find? (place ++ item.generated)).any Node.isFile = true) :
    tree.SameWays (without place tree items) := by
  refine .of_leaves (current_without place tree items) fun other => ?_
  rw [find?_without]
  split
  · next hmem =>
      obtain ⟨item, hitem, rfl⟩ := List.mem_map.mp hmem
      obtain ⟨id, content, executable, hnode⟩ := any_isFile_iff.mp (hfile item hitem)
      exact Or.inr ⟨rfl, by rw [hnode]; rfl⟩
  · exact Or.inl rfl

/-! ## What is asked of a generated file -/

theorem isRegenerable_iff
    (hsound : tree.Sound) (path : Path) (hbase : base ≠ []) (hslash : '/' ∉ base) :
    isRegenerable tree (path.join ⟨String.ofList (generatedName base)⟩) = true ↔
      base ≠ ['.'] ∧ tree.isFile (path.join ⟨String.ofList (templateName base)⟩) = true := by
  by_cases hdot : base = ['.']
  · subst hdot
    have hname : IsFileName (generatedName ['.']) := Path.isFileName_stem hbase (by decide) hslash (by decide)
    refine iff_of_false (fun h => ?_) fun h => h.1 rfl
    -- What is left of the name is a step upwards, which does not lead to a file.
    rw [isRegenerable, Path.template?, if_pos (Path.isGenerated_join path hbase hname), Option.any_some] at h
    obtain ⟨parts, hparts, -⟩ := exists_parts_of_join path hname
    obtain ⟨front, last, hlast, hfile⟩ := exists_name_of_isFile hsound h
    have hupwards := Path.splitOn_withExtension_dots hparts (by decide) (by decide) "cmx".toList
    obtain ⟨-, hsame⟩ := List.append_inj' (hlast.symm.trans hupwards) rfl
    exact hfile.ne_parent (List.singleton_inj.mp hsame)
  · rw [isRegenerable, Path.template?_join path hbase hdot hslash, Option.any_some]
    exact (and_iff_right hdot).symm

/-- The name of a template that is found is one that an entry may have. -/
theorem isValidName_of_locate
    {name : Name} (hname : IsFileName name) {spot : Spot}
    (h : tree.locate true (path.join ⟨String.ofList name⟩) = .ok spot) :
    IsValidName name := by
  obtain ⟨directory, left, -, hlast⟩ := exists_descends_of_locate hname h
  obtain ⟨reached, dotted, slash⟩ := spot
  refine ⟨hname, ?_⟩
  cases hlast with
  | here => exact absurd rfl hname.ne_current
  | up => exact absurd rfl hname.ne_parent
  | last hentry | into hentry | link hentry => exact hentry.size_le

/-- A generated file whose template is found can be removed. -/
theorem removeFile_of_isRegenerable
    (hsound : tree.Sound) (hcustom : IsCustom root tree place item)
    (hfile : (tree.find? (place ++ item.generated)).any Node.isFile = true)
    (h : isRegenerable tree ((customDirectory root).below item.generated) = true) :
    tree.removeFile ((customDirectory root).below item.generated) = .ok (tree.erase (place ++ item.generated)) := by
  rw [below_generated] at h ⊢
  rw [append_generated] at hfile ⊢
  obtain ⟨-, hfound⟩ := (isRegenerable_iff hsound _ hcustom.base_ne_nil hcustom.slash_notMem).mp h
  obtain ⟨spot, hlocate, -⟩ := isFile_iff.mp hfound
  have hname := isValidName_of_locate
    (Path.isFileName_stem hcustom.base_ne_nil (by decide) hcustom.slash_notMem (by decide)) hlocate
  have hplace := locate_generatedName hcustom.leads hcustom.base_ne_nil hname hlocate
  obtain ⟨id, content, executable, hnode⟩ := any_isFile_iff.mp hfile
  simp [-List.append_assoc, removeFile, removable, hplace, bind, Except.bind, pure, Except.pure, hnode, Except.map]

/-- A template that is found leads to a file from its directory. -/
theorem leadsToFile_of_isRegenerable
    (hthins : tree.Thins before) (hsound : before.Sound) (hcustom : IsCustom root tree place item)
    (h : isRegenerable before ((customDirectory root).below item.generated) = true) :
    tree.leadsToFile (place ++ item.directories) (templateName item.base) = true := by
  rw [below_generated] at h
  obtain ⟨-, hfound⟩ := (isRegenerable_iff hsound _ hcustom.base_ne_nil hcustom.slash_notMem).mp h
  have hname : IsFileName (templateName item.base) :=
    Path.isFileName_stem hcustom.base_ne_nil (by decide) hcustom.slash_notMem (by decide)
  obtain ⟨parts, hparts, -⟩ := exists_parts_of_join ((customDirectory root).below item.directories) hname
  obtain ⟨reached, left, hdescends, hleads⟩ := leadsToFile_of_isFile hthins hfound hparts hname
  obtain rfl := hcustom.leads.eq_of_descends hname hparts hparts hname.ne_nil hdescends
  exact hleads

/-- A template that leads to a file is one, or a link. -/
theorem template_cases
    (h : tree.leadsToFile (place ++ item.directories) (templateName item.base) = true) :
    (tree.find? (place ++ item.template)).any Node.isFile = true ∨
      ∃ target, tree.find? (place ++ item.template) = some (.link target) := by
  rw [append_template]
  refine entry_of_leadsToFile ?_ ?_ h
  · intro hcurrent
    simpa [templateName] using congrArg List.length hcurrent
  · intro hparent
    simpa [templateName] using congrArg List.length hparent

/-! ## Cleaning -/

theorem ne_directory_of_isFile
    (hfile : (tree.find? directory).any Node.isFile = true) :
    tree.find? directory ≠ some .directory := by
  intro hdirectory
  rw [hdirectory] at hfile
  cases hfile

theorem sameWays_erase
    (hfile : (tree.find? directory).any Node.isFile = true) :
    tree.SameWays (tree.erase directory) := by
  obtain ⟨id, content, executable, hnode⟩ := any_isFile_iff.mp hfile
  refine .of_leaves rfl fun other => ?_
  by_cases hother : other = directory
  · subst hother
    rw [tree.find?_erase_self (ne_nil_of_leaf (ne_directory_of_isFile hfile)), hnode]
    exact Or.inr ⟨rfl, rfl⟩
  · exact Or.inl (tree.find?_erase_of_ne hother)

/-- What becomes of the files of stems, one after the other. -/
theorem removeEach_eq
    {items : List Stem} (hbefore : before.Sound) (hthins : tree.Thins before)
    (hways : tree.SameWays before)
    (htemplate : ∀ item : Stem, before.find? (place ++ item.template) = tree.find? (place ++ item.template))
    (hnodup : items.Nodup) (hcustom : ∀ item ∈ items, IsCustom root tree place item)
    (hfile : ∀ item ∈ items, (before.find? (place ++ item.generated)).any Node.isFile = true) :
    ∃ chosen, chosen.Sublist items ∧
      removeEach (items.map fun item => (customDirectory root).below item.generated) before =
        (.ok (chosen.map fun item => (customDirectory root).below item.generated), without place before chosen) ∧
      (∀ item ∈ chosen, tree.leadsToFile (place ++ item.directories) (templateName item.base) = true) ∧
      ∀ item ∈ items, item.base ≠ ['.'] →
        tree.locate true ((customDirectory root).below item.template) = .ok ⟨place ++ item.template, false, false⟩ →
        (tree.find? (place ++ item.template)).any Node.isFile = true → item ∈ chosen := by
  induction items generalizing before with
  | nil => exact ⟨[], .slnil, rfl, List.forall_mem_nil _, List.forall_mem_nil _⟩
  | cons first items ih =>
      obtain ⟨hnew, hrest⟩ := List.nodup_cons.mp hnodup
      obtain ⟨hcustomFirst, hcustomRest⟩ := List.forall_mem_cons.mp hcustom
      obtain ⟨hfileFirst, hfileRest⟩ := List.forall_mem_cons.mp hfile
      rw [List.map_cons, removeEach]
      split
      · next hregenerable =>
          have hother {other : Place} (hplace : other ≠ place ++ first.generated) :
              (before.erase (place ++ first.generated)).find? other = before.find? other :=
            before.find?_erase_of_ne hplace
          obtain ⟨chosen, hsublist, hremoved, hleads, hall⟩ := ih (hbefore.erase (ne_directory_of_isFile hfileFirst))
            (hthins.trans (thins_erase before _)) (hways.trans (sameWays_erase hfileFirst))
            (fun item => (hother (Stem.template_ne_generated place item first)).trans (htemplate item)) hrest
            hcustomRest fun item hitem => by
              rw [hother fun hplace => hnew (by rwa [← Stem.eq_of_generated hplace])]
              exact hfileRest item hitem
          rw [removeFile_of_isRegenerable hbefore (hcustomFirst.of_narrows hthins.narrows) hfileFirst hregenerable]
          refine ⟨first :: chosen, hsublist.cons_cons first, ?_, List.forall_mem_cons.mpr ⟨?_, hleads⟩, ?_⟩
          · simp only [hremoved]
            rfl
          · exact leadsToFile_of_isRegenerable hthins hbefore hcustomFirst hregenerable
          · refine List.forall_mem_cons.mpr ⟨fun _ _ _ => List.mem_cons_self, fun item hitem hdot hlocate hfound => ?_⟩
            exact List.mem_cons_of_mem _ (hall item hitem hdot hlocate hfound)
      · next hkept =>
          obtain ⟨chosen, hsublist, hremoved, hleads, hall⟩ :=
            ih hbefore hthins hways htemplate hrest hcustomRest hfileRest
          refine ⟨chosen, hsublist.cons first, hremoved, hleads, List.forall_mem_cons.mpr ⟨?_, hall⟩⟩
          intro hdot hlocate hfound
          refine absurd ?_ hkept
          rw [below_generated, isRegenerable_iff hbefore _ hcustomFirst.base_ne_nil hcustomFirst.slash_notMem,
            ← below_template]
          exact ⟨hdot, isFile_iff.mpr ⟨_, hways.locate_eq_ok_iff.mpr hlocate, rfl, by rwa [htemplate]⟩⟩

/-- What cleaning removes; it does not fail once it has begun. -/
theorem clean_eq
    (hproper : tree.Proper) (hpackages : IsPackages root tree place) (hopens : Opens root tree place) :
    ∃ chosen, chosen.Sublist (stems "cm".toList tree place) ∧
      clean root tree =
        (.ok (chosen.map fun item => (customDirectory root).below item.generated), without place tree chosen) ∧
      (∀ item ∈ chosen, tree.leadsToFile (place ++ item.directories) (templateName item.base) = true) ∧
      ∀ item ∈ stems "cm".toList tree place, item.base ≠ ['.'] →
        tree.locate true ((customDirectory root).below item.template) = .ok ⟨place ++ item.template, false, false⟩ →
        (tree.find? (place ++ item.template)).any Node.isFile = true → item ∈ chosen := by
  obtain ⟨chosen, hsublist, hremoved, hleads, hall⟩ := removeEach_eq hproper.toSound (.refl tree) (.refl tree)
    (fun _ => rfl) (nodup_stems hproper (by decide) place)
    (fun item hitem => isCustom_of_mem_stems hproper.toSound hpackages (by decide) hitem)
    fun item hitem => ((mem_stems hproper.toSound (by decide)).mp hitem).2
  exact ⟨chosen, hsublist, (clean_eq_ok_iff hproper.toSound hpackages).mpr ⟨hopens, hremoved⟩, hleads, hall⟩

end Template
end CompilerRelay
