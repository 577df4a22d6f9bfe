import CompilerRelay.Proofs.TemplateStems

/-!
# What templates are made into

The work on templates that succeeds, as a change of the tree.

**Input.**  A tree in order, a path that leads to a directory, and the name of a template in it.

**Form.**  `Template.product?`: what is made of the content of a template.  `Template.Made`: the file of a template was
made.  `Template.Makes`: those of several were, and nothing else has changed.

**Algorithm.**  What stands where the file belongs is removed, the template is read, and its product is put there.  The
template is never what is removed, and a template that has been read stands in the directory in which the file is put.

**Results.**
* `Template.makes_of_generate`: what the work on one template comes to if it succeeds.
* `Template.makes_of_generateEach`: what the work on several comes to, each seen in the tree before all of it.
-/

namespace CompilerRelay
namespace Template

open FileTree

variable {tree before bare after : FileTree} {root path file target : Path} {directory : Place} {stem : Name}

/-- What is generated from the content of a template; from one without text, nothing. -/
def product? (root file : Path) (content : Bytes) : Option Bytes :=
  match Utf8.decode? content with
  | .error _ => none
  | .ok text =>
      if (substitute root file text.toList).isEmpty then none
      else some (Utf8.encode (String.ofList (substitute root file text.toList)))

/-! ## The names of templates and their files -/

theorem size_generatedName_le (stem : Name) :
    (String.ofList (generatedName stem)).utf8ByteSize ≤ (String.ofList (templateName stem)).utf8ByteSize := by
  have hname : templateName stem = generatedName stem ++ ['x'] := by simp [templateName, generatedName]
  rw [hname, String.ofList_append, String.utf8ByteSize_append]
  exact Nat.le_add_right _ _

theorem isValidName_generatedName
    (hstem : stem ≠ []) (h : IsValidName (templateName stem)) :
    IsValidName (generatedName stem) := by
  have hslash : '/' ∉ stem := fun hmem => h.no_slash (List.mem_append_left _ hmem)
  exact {
    toIsFileName := Path.isFileName_stem hstem (by decide) hslash (by decide)
    size_le := (size_generatedName_le stem).trans h.size_le }

/-- A template that is found stands in the directory in which its file is put. -/
theorem locate_generatedName
    (hleads : tree.Leads path directory) (hstem : stem ≠ []) (hname : IsValidName (templateName stem)) {spot : Spot}
    (h : tree.locate true (path.join ⟨String.ofList (templateName stem)⟩) = .ok spot) :
    tree.locate false (path.join ⟨String.ofList (generatedName stem)⟩) =
      .ok ⟨directory ++ [generatedName stem], false, false⟩ := by
  have hnul : '\x00' ∉ generatedName stem := by
    have hopen := (locate_eq_ok_iff.mp h).1.nul_notMem
    rw [Path.join_name path ⟨hname.ne_nil, hname.no_slash⟩] at hopen
    intro hmem
    refine hopen (List.mem_append_right _ ?_)
    rw [generatedName, List.mem_append] at hmem
    exact List.mem_append_left _ (hmem.resolve_right (by decide))
  obtain ⟨reached, left, hdescends, hlocate⟩ := exists_locate_of_sibling hname.toIsFileName
    (isValidName_generatedName hstem hname) hnul (size_generatedName_le stem) h
  rwa [← hleads reached left hdescends]

/-! ## Work that succeeds -/

theorem exists_of_generate
    (htemplate : file.isTemplate = true) (h : generate root file before = (.ok target, after)) :
    target = file.generated ∧ ∃ bare text, discard before file.generated = .ok bare ∧
      bare.readText file = .ok text ∧
      Template.place bare file.generated (substitute root file text.toList) = (.ok (), after) := by
  cases outcome_of_generate htemplate h with
  | written hdiscard hread hplace => exact ⟨rfl, _, _, hdiscard, hread, hplace⟩

/-- What stands where a path leads was removed, or there was nothing. -/
theorem discard_cases
    (h : discard before target = .ok bare) :
    (∃ place, before.removable target = .ok place ∧ bare = before.erase place) ∨
      before.removable target = .error .notFound ∧ bare = before := by
  unfold discard removeFile at h
  cases hremovable : before.removable target with
  | error cause =>
      simp only [hremovable, Except.map] at h
      split at h
      · next hcause =>
          cases hcause
          exact Or.inr ⟨rfl, (Except.ok.inj h).symm⟩
      · cases h
  | ok place =>
      simp only [hremovable, Except.map] at h
      exact Or.inl ⟨place, rfl, (Except.ok.inj h).symm⟩

theorem exists_of_readText
    {text : String} (h : tree.readText file = .ok text) :
    ∃ spot, tree.locate true file = .ok spot ∧ ∀ id content executable,
      tree.find? spot.place = some (.file id content executable) → Utf8.decode? content = .ok text := by
  unfold readText FileTree.read at h
  cases hstatus : tree.status file with
  | error fault => rw [hstatus] at h; cases h
  | ok node =>
      obtain ⟨spot, hlocate, hnode, -⟩ := exists_spot_of_status hstatus
      refine ⟨spot, hlocate, fun id content executable hfile => ?_⟩
      obtain rfl := Option.some.inj (hnode.symm.trans hfile)
      rw [hstatus] at h
      simp only [bind, Except.bind, pure, Except.pure] at h
      cases hdecode : Utf8.decode? content with
      | error fault => rw [hdecode] at h; cases h
      | ok read => rw [hdecode] at h; exact congrArg Except.ok (Except.ok.inj h)

/-- Where a path with a name appended is followed, so is a step upwards in place of the name. -/
theorem locate_upwards
    (hsound : tree.Sound) {name : Name} (hname : IsFileName name) {spot : Spot}
    (hsize : (String.ofList ['.', '.']).utf8ByteSize ≤ (String.ofList name).utf8ByteSize)
    (hlocate : tree.locate true (path.join ⟨String.ofList name⟩) = .ok spot) {parts : List (List Char)}
    (hparts : Text.splitOn '/' (path.join ⟨String.ofList name⟩).text.toList = parts ++ [name])
    (hupwards : Text.splitOn '/' target.text.toList = parts ++ [['.', '.']]) :
    ∃ place, tree.locate false target = .ok ⟨place, true, false⟩ ∧ tree.find? place = some .directory := by
  obtain ⟨directory, left, hdescends, -⟩ := exists_descends_of_locate hname hlocate
  have hreached := hsound.find?_of_descends (Sound.find?_startOf hsound.current path) hdescends
  have hsteps : parts.filter (· ≠ []) = stepsOf path :=
    List.append_cancel_right ((stepsOf_of_parts hparts hname.ne_nil).symm.trans (stepsOf_join path hname))
  have hlast : Walks tree false left directory [['.', '.']] directory.dropLast true := .up (.stop left _)
  have hwalks := hdescends.append_walks (by decide) hlast
  rw [← hsteps, ← startOf_join path hname, ← startOf_of_parts hparts hname.ne_nil hupwards (by decide),
    ← stepsOf_of_parts hupwards (by decide)] at hwalks
  obtain ⟨front, hfront⟩ := Text.exists_join_append ['/'] parts
  have htext {other : Path} {last : Name} (hother : Text.splitOn '/' other.text.toList = parts ++ [last]) :
      other.text.toList = front ++ last := by
    rw [← Text.join_splitOn '/' other.text.toList, hother, hfront]
  have hfollow := (locate_eq_ok_iff.mp hlocate).1.sibling (htext hparts) (htext hupwards) (by decide) (by decide) hsize
  refine ⟨directory.dropLast, locate_eq_ok_iff.mpr ⟨hfollow, ?_, hwalks⟩, hsound.find?_dropLast hreached⟩
  simp [htext hupwards]

/-- A name that is two dots and the extension is left as a step upwards, and no directory is removed. -/
theorem ne_dot_of_discard
    (hsound : before.Sound) (hname : IsValidName (templateName stem))
    (hdiscard : discard before (path.join ⟨String.ofList (templateName stem)⟩).generated = .ok bare) {spot : Spot}
    (hlocate : bare.locate true (path.join ⟨String.ofList (templateName stem)⟩) = .ok spot) :
    stem ≠ ['.'] := by
  rintro rfl
  obtain ⟨parts, hparts, -⟩ := exists_parts_of_join path hname.toIsFileName
  have hupwards : Text.splitOn '/' (path.join ⟨String.ofList (templateName ['.'])⟩).generated.text.toList =
      parts ++ [['.', '.']] := by
    rw [Path.generated, if_pos (Path.isTemplate_join path (by simp) hname.toIsFileName)]
    exact Path.splitOn_withExtension_dots hparts (by decide) (by decide) _
  rcases discard_cases hdiscard with ⟨place, hremovable, -⟩ | ⟨hremovable, rfl⟩
  · obtain ⟨found, hfound, -, hdotted, -⟩ := exists_spot_of_removable hremovable
    obtain ⟨-, -, hwalks⟩ := exists_walks_of_locate hfound
    rw [stepsOf_of_parts hupwards (by decide), hdotted] at hwalks
    cases hwalks.dotted_of_dots (Or.inr rfl)
  · obtain ⟨place, hfound, hdirectory⟩ :=
      locate_upwards hsound hname.toIsFileName (by decide +kernel) hlocate hparts hupwards
    simp [removable, hfound, bind, Except.bind, hdirectory] at hremovable

/-- Where the file belongs, nothing is left, and nothing else is removed. -/
theorem find?_of_discard
    (hleads : before.Leads path directory) (hstem : stem ≠ []) (hname : IsValidName (templateName stem))
    (hdiscard : discard before (path.join ⟨String.ofList (generatedName stem)⟩) = .ok bare) {spot : Spot}
    (hlocate : bare.locate true (path.join ⟨String.ofList (templateName stem)⟩) = .ok spot) :
    before.find? (directory ++ [generatedName stem]) ≠ some .directory ∧
      bare.find? (directory ++ [generatedName stem]) = none ∧
      ∀ other, other ≠ directory ++ [generatedName stem] → bare.find? other = before.find? other := by
  rcases discard_cases hdiscard with ⟨place, hremovable, rfl⟩ | ⟨hremovable, rfl⟩
  · obtain ⟨found, hfound, rfl, -, hleaf⟩ := exists_spot_of_removable hremovable
    have hplace := hleads.place_of_locate (isValidName_generatedName hstem hname).toIsFileName hfound
    rw [← hplace]
    exact ⟨hleaf, before.find?_erase_self (ne_nil_of_leaf hleaf), fun _ hother => before.find?_erase_of_ne hother⟩
  · -- The place of the file can be reached, so that there is nothing.
    have hfound := locate_generatedName hleads hstem hname hlocate
    have hnone : bare.find? (directory ++ [generatedName stem]) = none := by
      cases hnode : bare.find? (directory ++ [generatedName stem]) with
      | none => rfl
      | some node => cases node <;> simp [removable, hfound, bind, Except.bind, pure, Except.pure, hnode] at hremovable
    exact ⟨by simp [hnone], hnone, fun _ _ => rfl⟩

/-! ## The work on one template -/

/-- The file of a template was made. -/
structure Made (root : Path) (place : Place) (before after : FileTree) (item : Stem) : Prop where
  ne_dot : item.base ≠ ['.']
  leaf : before.find? (place ++ item.generated) ≠ some .directory
  locate : before.locate true ((customDirectory root).below item.template) = .ok ⟨place ++ item.template, false, false⟩
  product : ∀ id content executable, before.find? (place ++ item.template) = some (.file id content executable) →
    ∃ number, after.find? (place ++ item.generated) =
      (product? root ((customDirectory root).below item.template) content).map fun bytes => .file number bytes false

/-- The files of templates were made, and nothing else has changed. -/
structure Makes (root : Path) (place : Place) (before after : FileTree) (items : List Stem) : Prop where
  made : ∀ item ∈ items, Made root place before after item
  same : ∀ other, (∀ item ∈ items, other ≠ place ++ item.generated) → after.find? other = before.find? other
  narrows : before.Narrows after

theorem IsCustom.of_narrows
    {place : Place} {item : Stem} (h : IsCustom root before place item) (hnarrows : before.Narrows after) :
    IsCustom root after place item :=
  { h with leads := h.leads.of_narrows hnarrows }

section Making

variable {place : Place} {item : Stem}

theorem any_isFile_iff {node? : Option Node} :
    node?.any Node.isFile = true ↔ ∃ id content executable, node? = some (.file id content executable) := by
  rcases node? with _ | (_ | _ | _ | _) <;> simp [Node.isFile]

theorem append_template (place : Place) (item : Stem) :
    place ++ item.template = (place ++ item.directories) ++ [templateName item.base] :=
  (List.append_assoc _ _ _).symm

theorem append_generated (place : Place) (item : Stem) :
    place ++ item.generated = (place ++ item.directories) ++ [generatedName item.base] :=
  (List.append_assoc _ _ _).symm

theorem below_template (path : Path) (item : Stem) :
    path.below item.template = (path.below item.directories).join ⟨String.ofList (templateName item.base)⟩ :=
  path.below_append_singleton _ _

theorem below_generated (path : Path) (item : Stem) :
    path.below item.generated = (path.below item.directories).join ⟨String.ofList (generatedName item.base)⟩ :=
  path.below_append_singleton _ _

theorem isValidName_template
    (hsound : tree.Sound) (hfile : (tree.find? (place ++ item.template)).any Node.isFile = true) :
    IsValidName (templateName item.base) := by
  obtain ⟨node, hnode, -⟩ := (Option.any_eq_true _ _).mp hfile
  rw [append_template] at hnode
  exact hsound.named _ _ node hnode

/-- What is put in a place that is free is the product. -/
theorem find?_of_place
    (hsound : bare.Sound) (hleads : bare.Leads path directory) (hname : IsFileName (generatedName stem))
    (hnone : bare.find? (directory ++ [generatedName stem]) = none) {text : String} {content : Bytes}
    (hdecode : Utf8.decode? content = .ok text)
    (hplace : Template.place bare (path.join ⟨String.ofList (generatedName stem)⟩) (substitute root file text.toList) =
      (.ok (), after)) :
    (∃ number, after.find? (directory ++ [generatedName stem]) =
      (product? root file content).map fun bytes => .file number bytes false) ∧
      (∀ other, other ≠ directory ++ [generatedName stem] → after.find? other = bare.find? other) ∧
      bare.Narrows after := by
  simp only [product?, hdecode, List.isEmpty_iff]
  rcases place_cases hplace with ⟨hempty, rfl⟩ | ⟨hwritten, hreplace⟩
  · rw [if_pos hempty]
    exact ⟨⟨0, hnone⟩, fun _ _ => rfl, .refl _⟩
  · obtain ⟨spot, hreplaces, hfile⟩ := exists_replaces_of_replaceFile hsound hreplace
    obtain ⟨between, found, hnarrows, hlocate, rfl, -⟩ := hreplaces.located
    have hspot := (hleads.of_narrows hnarrows).place_of_locate hname hlocate
    rw [hspot] at hfile hreplaces
    rw [if_neg hwritten]
    exact ⟨⟨_, hfile⟩, hreplaces.same, hreplaces.narrows⟩

/-- What the work on one template comes to if it succeeds. -/
theorem makes_of_generate
    (hsound : before.Sound) (hcustom : IsCustom root before place item)
    (hfile : (before.find? (place ++ item.template)).any Node.isFile = true)
    (h : generate root ((customDirectory root).below item.template) before = (.ok target, after)) :
    target = (customDirectory root).below item.generated ∧ Makes root place before after [item] := by
  have hname := isValidName_template hsound hfile
  have hgenerated := isValidName_generatedName hcustom.base_ne_nil hname
  obtain ⟨id, content, executable, hnode⟩ := any_isFile_iff.mp hfile
  rw [append_template] at hfile hnode
  rw [below_template] at h
  obtain ⟨rfl, bare, text, hdiscard, hread, hplace⟩ :=
    exists_of_generate (Path.isTemplate_join _ hcustom.base_ne_nil hname.toIsFileName) h
  obtain ⟨spot, hlocate, hdecode⟩ := exists_of_readText hread
  have hdot := ne_dot_of_discard hsound hname hdiscard hlocate
  rw [Path.generated_join _ hcustom.base_ne_nil hdot hcustom.slash_notMem] at hdiscard hplace ⊢
  have hdiscards := discards_of_discard hdiscard
  have hnarrows := hdiscards.thins.narrows
  have hleads := hcustom.leads.of_narrows hnarrows
  obtain ⟨hleaf, hnone, hbare⟩ := find?_of_discard hcustom.leads hcustom.base_ne_nil hname hdiscard hlocate
  -- The template is still there, so that it is what was read.
  have hother : (place ++ item.directories) ++ [templateName item.base] ≠
      (place ++ item.directories) ++ [generatedName item.base] := by
    rw [← append_template, ← append_generated]
    exact Stem.template_ne_generated place item item
  have hkept : bare.find? ((place ++ item.directories) ++ [templateName item.base]) =
      some (.file id content executable) :=
    (hbare _ hother).trans hnode
  have hspot := hleads.locate_of_narrows (.refl bare) hname (by rw [hkept]; rfl) hlocate
  obtain rfl := Except.ok.inj (hlocate.symm.trans hspot)
  obtain ⟨hproduct, hsame, hwritten⟩ := find?_of_place (hdiscards.sound hsound) hleads hgenerated.toIsFileName hnone
    (hdecode id content executable hkept) hplace
  have hmade : Made root place before after item := {
    ne_dot := hdot
    leaf := by rwa [append_generated]
    locate := by
      rw [below_template, append_template]
      exact hcustom.leads.locate_of_narrows hnarrows hname hfile hlocate
    product := fun other found flag hfound => by
      rw [append_template, hnode] at hfound
      cases hfound
      rw [append_generated, below_template]
      exact hproduct }
  refine ⟨(below_generated _ item).symm, ⟨List.forall_mem_singleton.mpr hmade, fun other hplaces => ?_, ?_⟩⟩
  · have hdiffers := hplaces item (List.mem_singleton_self item)
    rw [append_generated] at hdiffers
    exact (hsame other hdiffers).trans (hbare other hdiffers)
  · exact hnarrows.trans hwritten

theorem Makes.find?_template
    {items : List Stem} (h : Makes root place before after items) (item : Stem) :
    after.find? (place ++ item.template) = before.find? (place ++ item.template) :=
  h.same _ fun other _ => Stem.template_ne_generated place item other

/-- Where the file of a template belongs, there is a file afterwards, or nothing. -/
theorem Made.exists_written
    (h : Made root place before after item) (hfile : (before.find? (place ++ item.template)).any Node.isFile = true) :
    ∃ number written?, after.find? (place ++ item.generated) =
      Option.map (fun bytes => .file number bytes false) written? := by
  obtain ⟨id, content, executable, hnode⟩ := any_isFile_iff.mp hfile
  obtain ⟨number, hproduct⟩ := h.product id content executable hnode
  exact ⟨number, _, hproduct⟩

/-! ## The work on several templates -/

theorem Made.of_makes
    {between : FileTree} {first : Stem} (hfirst : Makes root place before between [first])
    (h : Made root place between after item) (hsound : before.Sound) (hcustom : IsCustom root before place item)
    (hfile : (before.find? (place ++ item.template)).any Node.isFile = true) :
    Made root place before after item := by
  refine { ne_dot := h.ne_dot, leaf := ?_, locate := ?_, product := fun id content executable hnode => ?_ }
  · by_cases hsame : item = first
    · subst hsame
      exact (hfirst.made item (List.mem_singleton_self item)).leaf
    · rw [← hfirst.same _ (List.forall_mem_singleton.mpr fun hplace => hsame (Stem.eq_of_generated hplace))]
      exact h.leaf
  · have hlocate := h.locate
    rw [below_template] at hlocate ⊢
    rw [append_template] at hfile ⊢
    exact hcustom.leads.locate_of_narrows hfirst.narrows (isValidName_template hsound (by rwa [append_template])) hfile
      hlocate
  · exact h.product id content executable ((hfirst.find?_template item).trans hnode)

theorem Makes.cons
    {between : FileTree} {first : Stem} {items : List Stem} (hfirst : Makes root place before between [first])
    (hrest : Makes root place between after items) (hsound : before.Sound)
    (hcustom : ∀ item ∈ items, IsCustom root before place item)
    (hfile : ∀ item ∈ items, (before.find? (place ++ item.template)).any Node.isFile = true) :
    Makes root place before after (first :: items) := by
  refine ⟨fun item hmem => ?_, fun other hplaces => ?_, hfirst.narrows.trans hrest.narrows⟩
  · by_cases hitem : item ∈ items
    · exact (hrest.made item hitem).of_makes hfirst hsound (hcustom item hitem) (hfile item hitem)
    · -- Nothing that comes later is put where the first file is.
      obtain rfl := (List.mem_cons.mp hmem).resolve_right hitem
      have hmade := hfirst.made item (List.mem_singleton_self item)
      refine { hmade with product := fun id content executable hnode => ?_ }
      rw [hrest.same _ fun second hsecond hplace => hitem (by rwa [Stem.eq_of_generated hplace])]
      exact hmade.product id content executable hnode
  · obtain ⟨hone, hothers⟩ := List.forall_mem_cons.mp hplaces
    exact (hrest.same other hothers).trans (hfirst.same other (List.forall_mem_singleton.mpr hone))

theorem exists_of_generateEach
    {files results : List Path} (h : generateEach root (file :: files) before = (.ok results, after)) :
    ∃ target between others, generate root file before = (.ok target, between) ∧
      generateEach root files between = (.ok others, after) ∧ results = target :: others := by
  rw [generateEach] at h
  split at h
  · cases (Prod.mk.inj h).1
  · next target between hgenerate =>
      obtain ⟨hresults, hafter⟩ := Prod.mk.inj h
      cases hothers : (generateEach root files between).1 with
      | error fault => rw [hothers] at hresults; cases hresults
      | ok others =>
          rw [hothers] at hresults
          exact ⟨target, between, others, hgenerate, Prod.ext hothers hafter, (Except.ok.inj hresults).symm⟩

/-- What the work on several templates comes to, each seen in the tree before all of it. -/
theorem makes_of_generateEach
    {items : List Stem} {results : List Path} (hsound : before.Sound)
    (hcustom : ∀ item ∈ items, IsCustom root before place item)
    (hfile : ∀ item ∈ items, (before.find? (place ++ item.template)).any Node.isFile = true)
    (h : generateEach root (items.map fun item => (customDirectory root).below item.template) before =
      (.ok results, after)) :
    results = items.map (fun item => (customDirectory root).below item.generated) ∧
      Makes root place before after items := by
  induction items generalizing before results with
  | nil =>
      obtain ⟨hresults, rfl⟩ := Prod.mk.inj h
      exact ⟨(Except.ok.inj hresults).symm, ⟨List.forall_mem_nil _, fun _ _ => rfl, .refl before⟩⟩
  | cons first items ih =>
      obtain ⟨hcustomFirst, hcustomRest⟩ := List.forall_mem_cons.mp hcustom
      obtain ⟨hfileFirst, hfileRest⟩ := List.forall_mem_cons.mp hfile
      obtain ⟨target, between, others, hgenerate, hrest, rfl⟩ := exists_of_generateEach h
      obtain ⟨rfl, hfirst⟩ := makes_of_generate hsound hcustomFirst hfileFirst hgenerate
      have hbetween : between.Sound := by
        have hafter := generate_sound hsound root ((customDirectory root).below first.template)
        rwa [hgenerate] at hafter
      have hstill (item : Stem) (hitem : item ∈ items) :
          (between.find? (place ++ item.template)).any Node.isFile = true := by
        rw [hfirst.find?_template item]
        exact hfileRest item hitem
      obtain ⟨rfl, hothers⟩ :=
        ih hbetween (fun item hitem => (hcustomRest item hitem).of_narrows hfirst.narrows) hstill hrest
      exact ⟨rfl, hfirst.cons hothers hsound hcustomRest hfileRest⟩

/-- What the work on all templates comes to. -/
theorem makes_of_generateAll
    {results : List Path} (hsound : before.Sound) (hpackages : IsPackages root before place)
    (h : generateAll root before = (.ok results, after)) :
    results = (stems "cmx".toList before place).map (fun item => (customDirectory root).below item.generated) ∧
      Makes root place before after (stems "cmx".toList before place) := by
  obtain ⟨-, heach⟩ := (generateAll_eq_ok_iff hsound hpackages).mp h
  exact makes_of_generateEach hsound (fun item hitem => isCustom_of_mem_stems hsound hpackages (by decide) hitem)
    (fun item hitem => ((mem_stems hsound (by decide)).mp hitem).2) heach

/-! ## Every entry once -/

theorem distinct_of_discard
    (h : (tree.nodes.map Prod.fst).Nodup) (hdiscard : discard tree target = .ok bare) :
    (bare.nodes.map Prod.fst).Nodup := by
  rcases discard_cases hdiscard with ⟨spot, -, rfl⟩ | ⟨-, rfl⟩
  · exact distinct_erase h spot
  · exact h

theorem distinct_of_place
    {text : List Char} (h : (tree.nodes.map Prod.fst).Nodup)
    (hplace : Template.place tree target text = (.ok (), after)) :
    (after.nodes.map Prod.fst).Nodup := by
  rcases place_cases hplace with ⟨-, rfl⟩ | ⟨-, hreplace⟩
  · exact h
  · obtain ⟨spare, hbelow, -, hmove⟩ := exists_spare_of_replaceFile hreplace
    have hspare : (tree.putFile spare (Utf8.encode (String.ofList text)) false).find? spare =
        some (.file (tree.lastId + 1) (Utf8.encode (String.ofList text)) false) :=
      tree.find?_insert_self hbelow _
    obtain ⟨spot, -, -, rfl⟩ := exists_spot_of_moveFile hspare hmove
    have hwritten : ((tree.putFile spare (Utf8.encode (String.ofList text)) false).nodes.map Prod.fst).Nodup :=
      distinct_insert h spare _
    exact distinct_insert (distinct_erase hwritten spare) spot.place _

theorem distinct_of_generate
    (h : (before.nodes.map Prod.fst).Nodup) (hgenerate : generate root file before = (.ok target, after)) :
    (after.nodes.map Prod.fst).Nodup := by
  cases htemplate : file.isTemplate with
  | false =>
      rw [generate_of_not_template root before htemplate] at hgenerate
      obtain ⟨-, rfl⟩ := Prod.mk.inj hgenerate
      exact h
  | true =>
      obtain ⟨-, bare, text, hdiscard, -, hplace⟩ := exists_of_generate htemplate hgenerate
      exact distinct_of_place (distinct_of_discard h hdiscard) hplace

theorem distinct_of_generateEach
    {files results : List Path} (h : (before.nodes.map Prod.fst).Nodup)
    (hgenerate : generateEach root files before = (.ok results, after)) :
    (after.nodes.map Prod.fst).Nodup := by
  induction files generalizing before results with
  | nil =>
      obtain ⟨-, rfl⟩ := Prod.mk.inj hgenerate
      exact h
  | cons file files ih =>
      obtain ⟨target, between, others, hfirst, hrest, -⟩ := exists_of_generateEach hgenerate
      exact ih (distinct_of_generate h hfirst) hrest

theorem proper_of_generateAll
    {results : List Path} (h : before.Proper) (hgenerate : generateAll root before = (.ok results, after)) :
    after.Proper := by
  have hsound := generateAll_sound h.toSound root
  rw [hgenerate] at hsound
  refine { hsound with distinct := ?_ }
  unfold generateAll at hgenerate
  split at hgenerate
  · cases (Prod.mk.inj hgenerate).1
  · exact distinct_of_generateEach h.distinct hgenerate

end Making
end Template
end CompilerRelay
