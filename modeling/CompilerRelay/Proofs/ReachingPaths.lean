import CompilerRelay.Proofs.SiblingPaths

/-!
# Paths that are followed

When a path is followed to its end, and what that depends on.

**Input.**  Paths with names appended to them, and trees that have the same directories and links.

**Algorithm.**  A text is followed unless it is empty, too long or holds a NUL.  The parts are then followed from one
directory to the next; what is beside the directories and the links on the way does not matter.

**Results.**
* `FileTree.locate_eq_ok_iff`: a path leads somewhere exactly when its text can be followed and its parts are a walk.
* `FileTree.exists_locate_of_sibling`: a path is followed if a sibling is that is no shorter.
* `FileTree.SameWays.locate_eq_ok_iff`: where directories and links are the same, paths lead to the same places.
-/

namespace CompilerRelay

/-- Whether a node leads on to others. -/
def Node.isWay : Node → Bool
  | .directory | .link _ => true
  | .file _ _ _ | .device _ => false

namespace FileTree

/-- The text of a path can be followed. -/
structure CanFollow (path : Path) : Prop where
  nul_notMem : '\x00' ∉ path.text.toList
  ne_nil : path.text.toList ≠ []
  size_lt : path.text.utf8ByteSize < pathLimit

section Following

variable {tree : FileTree} {path other : Path} {spot : Spot} {front first second : List Char}

theorem locate_eq_ok_iff {follow : Bool} :
    tree.locate follow path = .ok spot ↔
      CanFollow path ∧ spot.slash = (path.text.toList.getLast? == some '/') ∧
        Walks tree follow linkLimit (startOf tree.current path) (stepsOf path) spot.place spot.dotted := by
  constructor
  · intro h
    obtain ⟨hne, hslash, hwalks⟩ := exists_walks_of_locate h
    refine ⟨⟨fun hnul => ?_, hne, ?_⟩, hslash, hwalks⟩
    · simp [locate, hnul] at h
    · by_contra hlong
      unfold locate at h
      split at h
      · cases h
      · split at h
        · cases h
        · rw [if_pos (Nat.le_of_not_lt hlong)] at h
          cases h
  · rintro ⟨⟨hnul, hne, hsize⟩, hslash, hwalks⟩
    have hopen : path.text.isEmpty = false := by
      rw [Bool.eq_false_iff, Ne, String.isEmpty_iff, ← String.toList_eq_nil_iff]
      exact hne
    unfold locate
    rw [if_neg (by simpa using hnul), if_neg (by simp [hopen]), if_neg (Nat.not_le_of_lt hsize), hwalks.walk_eq]
    simp [Except.map, ← hslash]

/-- Where the end of a text is replaced by one that is no longer, it can still be followed. -/
theorem CanFollow.sibling
    (h : CanFollow path) (hpath : path.text.toList = front ++ first) (hother : other.text.toList = front ++ second)
    (hsecond : second ≠ []) (hnul : '\x00' ∉ second)
    (hsize : (String.ofList second).utf8ByteSize ≤ (String.ofList first).utf8ByteSize) :
    CanFollow other := by
  have hbytes {text : String} {last : List Char} (htext : text.toList = front ++ last) :
      text.utf8ByteSize = (String.ofList front).utf8ByteSize + (String.ofList last).utf8ByteSize := by
    rw [← String.utf8ByteSize_append, ← String.ofList_append, ← htext, String.ofList_toList]
  refine ⟨?_, ?_, ?_⟩
  · rw [hother, List.mem_append, not_or]
    exact ⟨fun hmem => h.nul_notMem (hpath ▸ List.mem_append_left _ hmem), hnul⟩
  · simp [hother, hsecond]
  · have hlimit := h.size_lt
    rw [hbytes hpath] at hlimit
    rw [hbytes hother]
    omega

/-- From the directory that parts lead to, others are followed. -/
theorem Descends.append_walks
    {follow dotted : Bool} {links left : Nat} {place directory reached : Place} {steps rest : List Name}
    (h : Descends tree links place steps directory left) (hrest : rest ≠ [])
    (hwalks : Walks tree follow left directory rest reached dotted) :
    Walks tree follow links place (steps ++ rest) reached dotted := by
  induction h with
  | stop => exact hwalks
  | here _ ih => exact .here (ih hwalks)
  | up _ ih => exact .up (ih hwalks)
  | into hname hnode _ ih => exact .into hname (by simp [hrest]) hnode (ih hwalks)
  | link hname hnode _ ih =>
      have hmore := ih hwalks
      rw [List.append_assoc] at hmore
      exact .link hname (Or.inl (by simp [hrest])) hnode hmore

/-- A path with a name appended is followed through a directory. -/
theorem exists_descends_of_locate
    {follow : Bool} {name : Name} (hname : IsFileName name)
    (h : tree.locate follow (path.join ⟨String.ofList name⟩) = .ok spot) :
    ∃ directory left, Descends tree linkLimit (startOf tree.current path) (stepsOf path) directory left ∧
      Walks tree follow left directory [name] spot.place spot.dotted := by
  obtain ⟨-, -, hwalks⟩ := locate_eq_ok_iff.mp h
  rw [stepsOf_join path hname, startOf_join path hname] at hwalks
  exact hwalks.exists_descends

theorem getLast?_join_name (path : Path) {name : Name} (hname : IsFileName name) :
    ((path.join ⟨String.ofList name⟩).text.toList.getLast? == some '/') = false := by
  obtain ⟨front, last, rfl⟩ := (List.eq_nil_or_concat' name).resolve_left hname.ne_nil
  have hlast : last ≠ '/' := fun h => hname.no_slash (by simp [h])
  rw [Path.join_name path ⟨hname.ne_nil, hname.no_slash⟩, ← List.append_assoc, List.getLast?_concat]
  simpa using hlast

/-- A path is followed to an entry of its directory if a sibling is followed that is no shorter. -/
theorem exists_locate_of_sibling
    (hfirst : IsFileName first) (hsecond : IsValidName second) (hnul : '\x00' ∉ second)
    (hsize : (String.ofList second).utf8ByteSize ≤ (String.ofList first).utf8ByteSize)
    (h : tree.locate true (path.join ⟨String.ofList first⟩) = .ok spot) :
    ∃ directory left, Descends tree linkLimit (startOf tree.current path) (stepsOf path) directory left ∧
      tree.locate false (path.join ⟨String.ofList second⟩) = .ok ⟨directory ++ [second], false, false⟩ := by
  obtain ⟨directory, left, hdescends, -⟩ := exists_descends_of_locate hfirst h
  obtain ⟨hfollow, -, -⟩ := locate_eq_ok_iff.mp h
  refine ⟨directory, left, hdescends,
    locate_eq_ok_iff.mpr ⟨?_, (getLast?_join_name path hsecond.toIsFileName).symm, ?_⟩⟩
  · exact hfollow.sibling (Path.join_name path ⟨hfirst.ne_nil, hfirst.no_slash⟩)
      (Path.join_name path ⟨hsecond.ne_nil, hsecond.no_slash⟩) hsecond.ne_nil hnul hsize
  · rw [stepsOf_join path hsecond.toIsFileName, startOf_join path hsecond.toIsFileName]
    exact hdescends.append_walks (by simp) (.last hsecond.isEntryName fun hfalse => by cases hfalse)

/-! ## What paths lead to -/

theorem isDirectory_iff :
    tree.isDirectory path = true ↔
      ∃ spot, tree.locate true path = .ok spot ∧ tree.find? spot.place = some .directory := by
  refine ⟨exists_spot_of_isDirectory, ?_⟩
  rintro ⟨spot, hlocate, hnode⟩
  simp [isDirectory, status, hlocate, bind, Except.bind, hnode, Node.isDirectory]

theorem isFile_iff :
    tree.isFile path = true ↔
      ∃ spot, tree.locate true path = .ok spot ∧ spot.slash = false ∧
        (tree.find? spot.place).any Node.isFile = true := by
  constructor
  · intro h
    obtain ⟨spot, node, hlocate, hslash, hnode, hfile⟩ := exists_node_of_isFile h
    exact ⟨spot, hlocate, hslash, by rwa [hnode]⟩
  · rintro ⟨spot, hlocate, hslash, hfile⟩
    cases hnode : tree.find? spot.place with
    | none => simp [hnode] at hfile
    | some node =>
        rw [hnode, Option.any_some] at hfile
        simp [isFile, status, hlocate, bind, Except.bind, hnode, hslash, hfile]

namespace Leads

variable {before after : FileTree} {place : Place} {name : Name}

theorem of_narrows
    (h : before.Leads path place) (hnarrows : before.Narrows after) :
    after.Leads path place := by
  intro directory left hdescends
  rw [hnarrows.current_eq] at hdescends
  exact h directory left (hdescends.of_narrows hnarrows)

/-- Where a path leads that a name was appended to, if links are not followed at its end. -/
theorem place_of_locate
    (h : tree.Leads path place) (hname : IsFileName name)
    (hlocate : tree.locate false (path.join ⟨String.ofList name⟩) = .ok spot) :
    spot.place = place ++ [name] := by
  obtain ⟨directory, left, hdescends, hlast⟩ := exists_descends_of_locate hname hlocate
  rw [← h directory left hdescends]
  exact (hlast.place_of_name hname).1

/-- Where a path to a file is followed after directories and links have vanished, it was followed before. -/
theorem locate_of_narrows
    (h : before.Leads path place) (hnarrows : before.Narrows after) (hname : IsValidName name)
    (hfile : (before.find? (place ++ [name])).any Node.isFile = true)
    (hlocate : after.locate true (path.join ⟨String.ofList name⟩) = .ok spot) :
    before.locate true (path.join ⟨String.ofList name⟩) = .ok ⟨place ++ [name], false, false⟩ := by
  obtain ⟨directory, left, hdescends, -⟩ := exists_descends_of_locate hname.toIsFileName hlocate
  rw [hnarrows.current_eq] at hdescends
  have hbefore := hdescends.of_narrows hnarrows
  obtain rfl := h directory left hbefore
  refine locate_eq_ok_iff.mpr ⟨(locate_eq_ok_iff.mp hlocate).1, (getLast?_join_name path hname.toIsFileName).symm, ?_⟩
  rw [stepsOf_join path hname.toIsFileName, startOf_join path hname.toIsFileName]
  refine hbefore.append_walks (by simp) (.last hname.isEntryName fun _ target hlink => ?_)
  rw [hlink] at hfile
  cases hfile

end Leads
/-- What leads to a file is one, or a link. -/
theorem entry_of_leadsToFile
    {directory : Place} {name : Name} (hcurrent : name ≠ ['.']) (hparent : name ≠ ['.', '.'])
    (h : tree.leadsToFile directory name = true) :
    (tree.find? (directory ++ [name])).any Node.isFile = true ∨
      ∃ target, tree.find? (directory ++ [name]) = some (.link target) := by
  unfold leadsToFile at h
  split at h
  · next reached dotted hwalk =>
      cases Walks.of_walk hwalk with
      | here => exact absurd rfl hcurrent
      | up => exact absurd rfl hparent
      | last => exact Or.inl h
      | into _ hrest => exact absurd rfl hrest
      | link _ _ hnode => exact Or.inr ⟨_, hnode⟩
  · cases h

end Following

/-! ## The same ways -/

/-- The directories and the links are the same. -/
structure SameWays (before after : FileTree) : Prop where
  current_eq : after.current = before.current
  ways_eq : ∀ place, (after.find? place).filter Node.isWay = (before.find? place).filter Node.isWay

namespace SameWays

variable {before between after : FileTree} {path : Path} {spot : Spot}

theorem refl (tree : FileTree) : tree.SameWays tree :=
  ⟨rfl, fun _ => rfl⟩

theorem symm (h : before.SameWays after) : after.SameWays before :=
  ⟨h.current_eq.symm, fun place => (h.ways_eq place).symm⟩

theorem trans
    (hfirst : before.SameWays between) (hsecond : between.SameWays after) :
    before.SameWays after :=
  ⟨hsecond.current_eq.trans hfirst.current_eq, fun place => (hsecond.ways_eq place).trans (hfirst.ways_eq place)⟩

theorem find?_eq
    (h : before.SameWays after) {place : Place} {node : Node} (hway : node.isWay = true) :
    after.find? place = some node ↔ before.find? place = some node := by
  have hiff {tree : FileTree} : (tree.find? place).filter Node.isWay = some node ↔ tree.find? place = some node := by
    simp [Option.filter_eq_some_iff, hway]
  rw [← hiff, ← hiff, h.ways_eq]

/-- Entries that are neither directories nor links have changed. -/
theorem of_leaves
    (hcurrent : after.current = before.current)
    (hleaves : ∀ place, after.find? place = before.find? place ∨
      (after.find? place).any Node.isWay = false ∧ (before.find? place).any Node.isWay = false) :
    before.SameWays after := by
  refine ⟨hcurrent, fun place => ?_⟩
  rcases hleaves place with hsame | ⟨hafter, hbefore⟩
  · rw [hsame]
  · have hnone {node : Option Node} (hleaf : node.any Node.isWay = false) : node.filter Node.isWay = none := by
      cases node <;> simp_all
    rw [hnone hafter, hnone hbefore]

end SameWays

/-- The same parts are followed. -/
theorem Walks.of_sameWays
    {before after : FileTree} {follow dotted : Bool} {links : Nat} {place reached : Place} {steps : List Name}
    (h : Walks before follow links place steps reached dotted) (hways : before.SameWays after) :
    Walks after follow links place steps reached dotted := by
  induction h with
  | stop links place => exact .stop links place
  | here _ ih => exact .here ih
  | up _ ih => exact .up ih
  | last hname hlast =>
      exact .last hname fun hfollow target htarget => hlast hfollow target ((hways.find?_eq rfl).mp htarget)
  | into hname hrest hnode _ ih => exact .into hname hrest ((hways.find?_eq rfl).mpr hnode) ih
  | link hname hrest hnode _ ih => exact .link hname hrest ((hways.find?_eq rfl).mpr hnode) ih

namespace SameWays

variable {before after : FileTree} {path : Path} {spot : Spot}

/-- Paths lead to the same places. -/
theorem locate_eq_ok_iff
    (h : before.SameWays after) {follow : Bool} :
    after.locate follow path = .ok spot ↔ before.locate follow path = .ok spot := by
  rw [FileTree.locate_eq_ok_iff, FileTree.locate_eq_ok_iff, h.current_eq]
  have hwalks {first second : FileTree} (hsame : first.SameWays second)
      (hw : Walks first follow linkLimit (startOf before.current path) (stepsOf path) spot.place spot.dotted) :
      Walks second follow linkLimit (startOf before.current path) (stepsOf path) spot.place spot.dotted :=
    hw.of_sameWays hsame
  exact ⟨fun ⟨hfollow, hslash, hw⟩ => ⟨hfollow, hslash, hwalks h.symm hw⟩,
    fun ⟨hfollow, hslash, hw⟩ => ⟨hfollow, hslash, hwalks h hw⟩⟩

end SameWays
end FileTree
end CompilerRelay
