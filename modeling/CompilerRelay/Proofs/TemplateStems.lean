import CompilerRelay.Proofs.AuthoredSources
import CompilerRelay.Proofs.WalkOrder

/-!
# Stems

A template and the file generated from it, as one name without an extension.

**Input.**  The root of a project, and a tree in order with a directory of custom packages.

**Form.**  `Stem`: the directories below that of the custom packages, and a name without its extension.
`Template.stems`: those of the files with an extension, in the order of a walk.

**Algorithm.**  Work on templates walks through the custom packages and keeps the files with one extension.  The path
of a template and that of its file are the same but for the last name.

**Results.**
* `Path.generated_join`, `Path.template?_join`: the paths of a template and its file, one from the other.
* `Template.mem_stems`, `Template.stems_eq`: what is listed depends on the files with that extension only.
* `Template.generateAll_eq_ok_iff`, `Template.clean_eq_ok_iff`: work on templates as work on stems.
-/

namespace CompilerRelay

/-! ## Names with an extension -/

namespace Path

variable {path : Path} {name stem extension other : List Char}

theorem eq_of_splitOn
    {first second : Path} (h : Text.splitOn '/' first.text.toList = Text.splitOn '/' second.text.toList) :
    first = second :=
  eq_of_toList (by rw [← Text.join_splitOn '/' first.text.toList, h, Text.join_splitOn])

theorem isFileName_stem
    (hstem : stem ≠ []) (hextension : extension ≠ []) (hslash : '/' ∉ stem) (hplain : '/' ∉ extension) :
    IsFileName (stem ++ '.' :: extension) := by
  obtain ⟨hfiller, hupwards⟩ := isFiller_stem hstem hextension
  exact {
    ne_nil := by simp
    no_slash := by simp [hslash, hplain]
    ne_current := fun h => by rw [h] at hfiller; cases hfiller
    ne_parent := hupwards }

theorem extension?_join
    (path : Path) (hname : IsFileName name) :
    (path.join ⟨String.ofList name⟩).extension? = (cutExtension name).2 := by
  obtain ⟨parts, hparts, -⟩ := FileTree.exists_parts_of_join path hname
  rw [extension?, fileName?_of_parts hparts (FileTree.isFiller_eq_false hname), if_neg hname.ne_parent]
  rfl

/-- The parts of a path with a name appended are those of the path with another appended, but for the last. -/
theorem splitOn_join_of_parts
    (path : Path) (hname : IsFileName name) (hother : IsFileName other) {parts : List (List Char)}
    (hparts : Text.splitOn '/' (path.join ⟨String.ofList name⟩).text.toList = parts ++ [name]) :
    Text.splitOn '/' (path.join ⟨String.ofList other⟩).text.toList = parts ++ [other] := by
  obtain ⟨front, hfront⟩ := Text.exists_join_append ['/'] parts
  have htext : front ++ name = path.text.toList ++ path.gap ++ name := by
    rw [← hfront, ← hparts, Text.join_splitOn, join_name path ⟨hname.ne_nil, hname.no_slash⟩]
  rw [join_name path ⟨hother.ne_nil, hother.no_slash⟩, ← List.append_cancel_right htext, ← hfront]
  exact splitOn_join_last hparts hother.no_slash

/-- Another extension is set on the name that was appended. -/
theorem withExtension_join
    (path : Path) (hname : IsFileName (stem ++ '.' :: extension)) (hstem : stem ≠ []) (hnamed : stem ≠ ['.'])
    (hdot : '.' ∉ extension) (hextension : extension ≠ []) (hother : IsFileName (stem ++ '.' :: other)) :
    (path.join ⟨String.ofList (stem ++ '.' :: extension)⟩).withExtension other =
      path.join ⟨String.ofList (stem ++ '.' :: other)⟩ := by
  obtain ⟨parts, hparts, -⟩ := FileTree.exists_parts_of_join path hname
  have hslash : '/' ∉ other := fun hmem => hother.no_slash (by simp [hmem])
  exact eq_of_splitOn ((splitOn_withExtension hparts hstem hnamed hdot hextension hslash).trans
    (splitOn_join_of_parts path hname hother hparts).symm)

theorem isTemplate_join
    (path : Path) (hstem : stem ≠ []) (hname : IsFileName (templateName stem)) :
    (path.join ⟨String.ofList (templateName stem)⟩).isTemplate = true := by
  have hextension := extension?_join path hname
  rw [templateName, cutExtension_append hstem (by decide)] at hextension
  exact beq_iff_eq.mpr hextension

theorem isGenerated_join
    (path : Path) (hstem : stem ≠ []) (hname : IsFileName (generatedName stem)) :
    (path.join ⟨String.ofList (generatedName stem)⟩).isGenerated = true := by
  have hextension := extension?_join path hname
  rw [generatedName, cutExtension_append hstem (by decide)] at hextension
  exact beq_iff_eq.mpr hextension

theorem generated_join
    (path : Path) (hstem : stem ≠ []) (hnamed : stem ≠ ['.']) (hslash : '/' ∉ stem) :
    (path.join ⟨String.ofList (templateName stem)⟩).generated = path.join ⟨String.ofList (generatedName stem)⟩ := by
  have hname : IsFileName (templateName stem) := isFileName_stem hstem (by decide) hslash (by decide)
  rw [generated, if_pos (isTemplate_join path hstem hname)]
  exact withExtension_join path hname hstem hnamed (by decide) (by decide)
    (isFileName_stem hstem (by decide) hslash (by decide))

theorem template?_join
    (path : Path) (hstem : stem ≠ []) (hnamed : stem ≠ ['.']) (hslash : '/' ∉ stem) :
    (path.join ⟨String.ofList (generatedName stem)⟩).template? =
      some (path.join ⟨String.ofList (templateName stem)⟩) := by
  have hname : IsFileName (generatedName stem) := isFileName_stem hstem (by decide) hslash (by decide)
  rw [template?, if_pos (isGenerated_join path hstem hname), Option.some.injEq]
  exact withExtension_join path hname hstem hnamed (by decide) (by decide)
    (isFileName_stem hstem (by decide) hslash (by decide))

end Path

/-! ## Stems -/

/-- A template and the file generated from it: the directories that they stand in, and their name without extension. -/
structure Stem where
  directories : List Name
  base : Name
  deriving DecidableEq, Repr

namespace Stem

/-- The names down to the file with an extension. -/
def names (item : Stem) (extension : List Char) : List Name :=
  item.directories ++ [item.base ++ '.' :: extension]

/-- The names down to the template. -/
def template (item : Stem) : List Name :=
  item.names "cmx".toList

/-- The names down to the generated file. -/
def generated (item : Stem) : List Name :=
  item.names "cm".toList

/-- The stem of a file with an extension, by the names down to it. -/
def ofNames? (extension : List Char) (names : List Name) : Option Stem :=
  names.getLast?.bind fun name =>
    match Path.cutExtension name with
    | (base, some found) => if found = extension then some ⟨names.dropLast, base⟩ else none
    | (_, none) => none

variable {item other : Stem} {extension : List Char} {place : Place}

theorem names_injective (extension : List Char) : Function.Injective fun item : Stem => item.names extension := by
  rintro ⟨directories, base⟩ ⟨others, name⟩ h
  obtain ⟨rfl, hlast⟩ := List.append_inj' (h : directories ++ [_] = others ++ [_]) rfl
  obtain rfl : base = name := List.append_cancel_right (List.singleton_inj.mp hlast)
  rfl

theorem eq_of_generated (h : place ++ item.generated = place ++ other.generated) : item = other :=
  names_injective _ (List.append_cancel_left h)

/-- No template stands where a generated file belongs. -/
theorem template_ne_generated (place : Place) (item other : Stem) :
    place ++ item.template ≠ place ++ other.generated := by
  intro h
  have hnames := List.append_cancel_left h
  obtain ⟨-, hlast⟩ := List.append_inj' (hnames : item.directories ++ [_] = other.directories ++ [_]) rfl
  have hchar := congrArg List.getLast? (List.singleton_inj.mp hlast)
  simp [List.getLast?_append] at hchar

/-- A place is that of one of the generated files, or of none. -/
theorem generated_cases (place : Place) (items : List Stem) (target : Place) :
    (∃ item ∈ items, target = place ++ item.generated) ∨ ∀ item ∈ items, target ≠ place ++ item.generated := by
  by_cases h : ∃ item ∈ items, target = place ++ item.generated
  · exact Or.inl h
  · exact Or.inr fun item hitem hplace => h ⟨item, hitem, hplace⟩

theorem ofNames?_eq_some_iff
    (hdot : '.' ∉ extension) {names : List Name} :
    ofNames? extension names = some item ↔ item.base ≠ [] ∧ names = item.names extension := by
  constructor
  · intro h
    obtain ⟨name, hlast, hcut⟩ := Option.bind_eq_some_iff.mp h
    obtain ⟨front, rfl⟩ := List.getLast?_eq_some_iff.mp hlast
    split at hcut
    · next base found hname =>
        split at hcut
        · next hfound =>
            subst hfound
            obtain rfl := Option.some.inj hcut
            obtain ⟨stem, hstem, hplain, rfl⟩ := Path.exists_stem_of_cutExtension (congrArg Prod.snd hname)
            rw [Path.cutExtension_append hstem hplain] at hname
            obtain rfl := (Prod.mk.inj hname).1
            exact ⟨hstem, by simp [Stem.names]⟩
        · cases hcut
    · cases hcut
  · rintro ⟨hbase, rfl⟩
    simp [ofNames?, Stem.names, Path.cutExtension_append hbase hdot]

end Stem

namespace FileTree

/-- A path with the names of directories appended leads to the last of them. -/
theorem Leads.below
    {tree : FileTree} {path : Path} {place : Place} (hsound : tree.Sound) (hleads : tree.Leads path place)
    {directories : List Name}
    (hdirectory : tree.find? (place ++ directories) = some .directory) :
    tree.Leads (path.below directories) (place ++ directories) := by
  induction directories generalizing path place with
  | nil => rwa [List.append_nil]
  | cons name rest ih =>
      have hwhole : (place ++ [name]) ++ rest = place ++ name :: rest := List.append_assoc place [name] rest
      have hnode : tree.find? (place ++ [name]) = some .directory := by
        cases rest with
        | nil => exact hdirectory
        | cons second rest => exact (hsound.directory_of_cons (by rw [hwhole, hdirectory]; rfl)).1
      rw [← hwhole] at hdirectory ⊢
      exact ih (hleads.join (hsound.named place name _ hnode).toIsFileName hnode) hdirectory

theorem stepsOf_below
    (path : Path) {names : List Name} (hnames : ∀ name ∈ names, IsFileName name) :
    stepsOf (path.below names) = stepsOf path ++ names := by
  induction names generalizing path with
  | nil => exact (List.append_nil _).symm
  | cons name names ih =>
      obtain ⟨hname, hrest⟩ := List.forall_mem_cons.mp hnames
      rw [Path.below, List.foldl_cons, ← Path.below, ih _ hrest, stepsOf_join path hname, List.append_assoc]
      rfl

/-- A new file in a directory, where no directory was. -/
theorem Sound.putFile
    {tree : FileTree} (h : tree.Sound) {directory : Place} {name : Name}
    (hdirectory : tree.find? directory = some .directory) (hname : IsValidName name)
    (hleaf : tree.find? (directory ++ [name]) ≠ some .directory) (content : Bytes) (executable : Bool) :
    (tree.putFile (directory ++ [name]) content executable).Sound :=
  have hinserted := h.insert hdirectory hname hleaf (.file (tree.lastId + 1) content executable)
  { above := hinserted.above, named := hinserted.named, current := hinserted.current }

/-- The names on the way to an entry are names of entries. -/
theorem Sound.isFileName_of_isSome
    {tree : FileTree} {place : Place} (hsound : tree.Sound) {names : List Name}
    (h : (tree.find? (place ++ names)).isSome = true) :
    ∀ name ∈ names, IsFileName name := by
  intro name hmem
  obtain ⟨front, rest, rfl⟩ := List.append_of_mem hmem
  have hwhole : (tree.find? (place ++ ((front ++ [name]) ++ rest))).isSome = true := by
    rwa [List.append_assoc, List.singleton_append]
  obtain ⟨node, hnode⟩ := Option.isSome_iff_exists.mp (hsound.isSome_of_append hwhole)
  rw [← List.append_assoc] at hnode
  exact (hsound.named _ name node hnode).toIsFileName

end FileTree

namespace Template

open FileTree

/-- The stems of the files with an extension below a place, in the order of a walk. -/
def stems (extension : List Char) (tree : FileTree) (place : Place) : List Stem :=
  (tree.namesBelow place).filterMap (Stem.ofNames? extension)

section Stems

variable {tree after : FileTree} {root : Path} {place : Place} {extension : List Char} {item : Stem}

theorem mem_stems
    (hsound : tree.Sound) (hdot : '.' ∉ extension) :
    item ∈ stems extension tree place ↔
      item.base ≠ [] ∧ (tree.find? (place ++ item.names extension)).any Node.isFile = true := by
  simp only [stems, List.mem_filterMap, Stem.ofNames?_eq_some_iff hdot, mem_namesBelow hsound]
  constructor
  · rintro ⟨_, hfile, hbase, rfl⟩
    exact ⟨hbase, hfile⟩
  · rintro ⟨hbase, hfile⟩
    exact ⟨_, hfile, hbase, rfl⟩

theorem pairwise_stems
    (h : tree.Proper) (hdot : '.' ∉ extension) (place : Place) :
    ((stems extension tree place).map fun item => item.names extension).Pairwise ComesBefore := by
  rw [List.pairwise_map]
  refine (pairwise_namesBelow h place).filterMap _ fun first second hbefore one hone two htwo => ?_
  obtain ⟨-, rfl⟩ := (Stem.ofNames?_eq_some_iff hdot).mp hone
  obtain ⟨-, rfl⟩ := (Stem.ofNames?_eq_some_iff hdot).mp htwo
  exact hbefore

theorem nodup_stems
    (h : tree.Proper) (hdot : '.' ∉ extension) (place : Place) :
    (stems extension tree place).Nodup :=
  .of_map _ (nodup_of_pairwise_comesBefore (pairwise_stems h hdot place))

/-- What is listed depends on the files with the extension only. -/
theorem stems_eq
    (htree : tree.Proper) (hafter : after.Proper) (hdot : '.' ∉ extension)
    (hfile : ∀ item : Stem, (after.find? (place ++ item.names extension)).any Node.isFile =
      (tree.find? (place ++ item.names extension)).any Node.isFile) :
    stems extension after place = stems extension tree place := by
  refine (Stem.names_injective extension).list_map (eq_of_pairwise_comesBefore (pairwise_stems hafter hdot place)
    (pairwise_stems htree hdot place) fun names => ?_)
  simp only [List.mem_map, mem_stems hafter.toSound hdot, mem_stems htree.toSound hdot, hfile]

/-- The paths with an extension, of all that a walk yields. -/
theorem filter_extension
    (hsound : tree.Sound) (hdirectory : tree.find? place = some .directory) (path : Path) (hdot : '.' ∉ extension) :
    ((tree.namesBelow place).map path.below).filter (fun file => file.extension? == some extension) =
      (stems extension tree place).map fun item => path.below (item.names extension) := by
  rw [stems, List.map_filterMap, ← List.filterMap_eq_filter, List.filterMap_map]
  refine List.filterMap_congr fun names hmem => ?_
  have hfile := (mem_namesBelow hsound).mp hmem
  rcases List.eq_nil_or_concat' names with rfl | ⟨front, name, rfl⟩
  · rw [List.append_nil, hdirectory] at hfile
    cases hfile
  · rw [← List.append_assoc] at hfile
    obtain ⟨node, hnode, -⟩ := (Option.any_eq_true _ _).mp hfile
    have hname := (hsound.named _ name node hnode).toIsFileName
    have hextension := Path.extension?_join (path.below front) hname
    rw [← Path.below_append_singleton] at hextension
    by_cases hcut : (Path.cutExtension name).2 = some extension
    · obtain ⟨base, hbase, -, rfl⟩ := Path.exists_stem_of_cutExtension hcut
      have hstem : Stem.ofNames? extension (Stem.names ⟨front, base⟩ extension) = some ⟨front, base⟩ :=
        (Stem.ofNames?_eq_some_iff hdot).mpr ⟨hbase, rfl⟩
      rw [hcut] at hextension
      change _ = (Stem.ofNames? extension (Stem.names ⟨front, base⟩ extension)).map _
      rw [hstem]
      simp [Option.guard, hextension, Stem.names]
    · have hstem : Stem.ofNames? extension (front ++ [name]) = none := by
        refine Option.eq_none_iff_forall_ne_some.mpr fun item hitem => hcut ?_
        obtain ⟨hbase, hnames⟩ := (Stem.ofNames?_eq_some_iff hdot).mp hitem
        obtain ⟨-, hlast⟩ := List.append_inj' (hnames : front ++ [name] = item.directories ++ [_]) rfl
        rw [List.singleton_inj.mp hlast, Path.cutExtension_append hbase hdot]
      rw [hstem]
      simp [Option.guard, hextension, hcut]

/-! ## The directory of custom packages -/

/-- The directory of custom packages stands at a place. -/
structure IsPackages (root : Path) (tree : FileTree) (place : Place) : Prop where
  locate : ∃ spot, tree.locate true (customDirectory root) = .ok spot ∧ spot.place = place
  directory : tree.find? place = some .directory

theorem IsPackages.of_sameWays
    (h : IsPackages root tree place) (hways : tree.SameWays after) :
    IsPackages root after place where
  locate := by
    obtain ⟨spot, hlocate, hplace⟩ := h.locate
    exact ⟨spot, hways.locate_eq_ok_iff.mpr hlocate, hplace⟩
  directory := (hways.find?_eq rfl).mpr h.directory

theorem IsPackages.unique
    (h : IsPackages root tree place) {other : Place} (hother : IsPackages root tree other) :
    other = place := by
  obtain ⟨spot, hlocate, rfl⟩ := h.locate
  obtain ⟨found, hfound, rfl⟩ := hother.locate
  rw [Except.ok.inj (hfound.symm.trans hlocate)]

/-- The paths of all directories below that of the custom packages can be opened. -/
def Opens (root : Path) (tree : FileTree) (place : Place) : Prop :=
  ∀ names, tree.find? (place ++ names) = some .directory →
    ((customDirectory root).below names).text.utf8ByteSize < pathLimit

/-- A stem below the custom packages, by the path of its directory. -/
structure IsCustom (root : Path) (tree : FileTree) (place : Place) (item : Stem) : Prop where
  leads : tree.Leads ((customDirectory root).below item.directories) (place ++ item.directories)
  base_ne_nil : item.base ≠ []
  slash_notMem : '/' ∉ item.base

theorem isDirectory_customDirectory :
    tree.isDirectory (customDirectory root) = true ↔ ∃ place, IsPackages root tree place := by
  rw [isDirectory_iff]
  constructor
  · rintro ⟨spot, hlocate, hnode⟩
    exact ⟨spot.place, ⟨spot, hlocate, rfl⟩, hnode⟩
  · rintro ⟨place, ⟨spot, hlocate, rfl⟩, hnode⟩
    exact ⟨spot, hlocate, hnode⟩

theorem customFiles_of_no_packages
    (h : ¬ ∃ place, IsPackages root tree place) :
    customFiles root tree = .ok [] := by
  rw [customFiles, if_neg fun hdirectory => h (isDirectory_customDirectory.mp hdirectory)]

theorem generateAll_of_no_packages
    (h : ¬ ∃ place, IsPackages root tree place) :
    generateAll root tree = (.ok [], tree) := by
  rw [generateAll, customFiles_of_no_packages h]
  rfl

theorem clean_of_no_packages
    (h : ¬ ∃ place, IsPackages root tree place) :
    clean root tree = (.ok [], tree) := by
  rw [clean, customFiles_of_no_packages h]
  rfl

theorem customFiles_eq_ok_iff
    (hsound : tree.Sound) (h : IsPackages root tree place) {files : List Path} :
    customFiles root tree = .ok files ↔
      Opens root tree place ∧ files = (tree.namesBelow place).map (customDirectory root).below := by
  obtain ⟨spot, hlocate, rfl⟩ := h.locate
  rw [Opens, ← filesBelow_eq_ok_iff hsound hlocate, customFiles,
    if_pos (isDirectory_customDirectory.mpr ⟨_, h⟩)]
  cases tree.filesBelow (customDirectory root) <;> simp [Except.mapError]

theorem isCustom_of_mem_stems
    (hsound : tree.Sound) (h : IsPackages root tree place) (hdot : '.' ∉ extension)
    (hmem : item ∈ stems extension tree place) :
    IsCustom root tree place item := by
  obtain ⟨hbase, hfile⟩ := (mem_stems hsound hdot).mp hmem
  rw [Stem.names, ← List.append_assoc] at hfile
  obtain ⟨node, hnode, -⟩ := (Option.any_eq_true _ _).mp hfile
  have hname := hsound.named _ _ node hnode
  obtain ⟨spot, hlocate, rfl⟩ := h.locate
  exact {
    leads := Leads.below hsound (leads_of_locate hlocate) (hsound.above _ _ node hnode)
    base_ne_nil := hbase
    slash_notMem := fun hslash => hname.no_slash (List.mem_append_left _ hslash) }

theorem isFileName_of_mem_generated
    (hsound : tree.Sound) (hdot : '.' ∉ extension) (hmem : item ∈ stems extension tree place) :
    ∀ name ∈ item.generated, IsFileName name := by
  obtain ⟨hbase, hfile⟩ := (mem_stems hsound hdot).mp hmem
  obtain ⟨hdirectories, hlast⟩ := List.forall_mem_append.mp (hsound.isFileName_of_isSome (Option.isSome_of_any hfile))
  have hname := List.forall_mem_singleton.mp hlast
  refine List.forall_mem_append.mpr ⟨hdirectories, List.forall_mem_singleton.mpr ?_⟩
  have hslash : '/' ∉ item.base := fun hslash => hname.no_slash (List.mem_append_left _ hslash)
  exact Path.isFileName_stem hbase (by decide) hslash (by decide)

/-- Different stems have generated files with different paths. -/
theorem eq_of_below_generated
    {other : Stem} (hitem : ∀ name ∈ item.generated, IsFileName name)
    (hother : ∀ name ∈ other.generated, IsFileName name)
    (h : (customDirectory root).below item.generated = (customDirectory root).below other.generated) :
    item = other := by
  have hsteps := congrArg stepsOf h
  rw [stepsOf_below _ hitem, stepsOf_below _ hother] at hsteps
  exact Stem.names_injective _ (List.append_cancel_left hsteps)

theorem exists_fault_of_not_opens
    (hsound : tree.Sound) (h : IsPackages root tree place) (hclosed : ¬ Opens root tree place) :
    ∃ fault, customFiles root tree = .error fault := by
  cases hfiles : customFiles root tree with
  | error fault => exact ⟨fault, rfl⟩
  | ok files => exact absurd ((customFiles_eq_ok_iff hsound h).mp hfiles).1 hclosed

/-- Generating all files is generating those of the stems of templates. -/
theorem generateAll_eq_ok_iff
    (hsound : tree.Sound) (h : IsPackages root tree place) {results : List Path} :
    generateAll root tree = (.ok results, after) ↔
      Opens root tree place ∧
        generateEach root ((stems "cmx".toList tree place).map fun item => (customDirectory root).below item.template)
          tree = (.ok results, after) := by
  by_cases hopens : Opens root tree place
  · rw [and_iff_right hopens, generateAll, (customFiles_eq_ok_iff hsound h).mpr ⟨hopens, rfl⟩]
    exact iff_of_eq (congrArg (fun files => generateEach root files tree = _)
      (filter_extension hsound h.directory (customDirectory root) (by decide)))
  · obtain ⟨fault, hfault⟩ := exists_fault_of_not_opens hsound h hopens
    simp [generateAll, hfault, hopens]

/-- Cleaning is removing the files of the stems of generated files. -/
theorem clean_eq_ok_iff
    (hsound : tree.Sound) (h : IsPackages root tree place) {results : List Path} :
    clean root tree = (.ok results, after) ↔
      Opens root tree place ∧
        removeEach ((stems "cm".toList tree place).map fun item => (customDirectory root).below item.generated)
          tree = (.ok results, after) := by
  by_cases hopens : Opens root tree place
  · rw [and_iff_right hopens, clean, (customFiles_eq_ok_iff hsound h).mpr ⟨hopens, rfl⟩]
    exact iff_of_eq (congrArg (fun files => removeEach files tree = _)
      (filter_extension hsound h.directory (customDirectory root) (by decide)))
  · obtain ⟨fault, hfault⟩ := exists_fault_of_not_opens hsound h hopens
    simp [clean, hfault, hopens]

/-! ## A project with one package -/

/-- A package without files. -/
def onePackage : FileTree :=
  (({} : FileTree).insert ["custom".toList] .directory).insert Handwritten.package .directory

theorem onePackage_sound : onePackage.Sound :=
  Handwritten.package_sound

/-- What the walk comes to in a project with one package. -/
theorem customFiles_of_package
    (hlocate : tree.locate true (customDirectory ⟨"/"⟩) = .ok ⟨["custom".toList], false, false⟩)
    (hdirectory : tree.find? ["custom".toList] = some .directory)
    (hpackages : tree.sortedChildren ["custom".toList] = ["a".toList]) {files : List Path}
    (hfiles : tree.filesAt tree.nodes.length Handwritten.package ⟨"/custom/a"⟩ = .ok files) :
    customFiles ⟨"/"⟩ tree = .ok files := by
  have hpath : (customDirectory ⟨"/"⟩).join ⟨String.ofList "a".toList⟩ = ⟨"/custom/a"⟩ := by decide +kernel
  have hplace : ["custom".toList] ++ ["a".toList] = Handwritten.package := rfl
  have hbelow : tree.filesBelow (customDirectory ⟨"/"⟩) = .ok files := by
    rw [filesBelow, hlocate]
    refine (filesAt_succ_eq_ok_iff hdirectory).mpr ⟨by decide +kernel, [files], ?_, (List.flatten_singleton).symm⟩
    rw [hpackages, List.mapM_cons, List.mapM_nil, hpath, hplace, hfiles]
    rfl
  rw [customFiles, if_pos (isDirectory_iff.mpr ⟨_, hlocate, hdirectory⟩), hbelow]
  rfl

end Stems
end Template
end CompilerRelay
