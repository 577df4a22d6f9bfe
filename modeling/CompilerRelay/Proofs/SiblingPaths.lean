import CompilerRelay.Proofs.FollowingPaths
import CompilerRelay.Proofs.PathExtension

/-!
# Siblings

Paths that differ in their last names lead to entries of one directory.

**Input.**  Paths that end with names, and a tree from which entries may have vanished since.

**Algorithm.**  What is before the last name leads to a directory, whatever the name is.  Where entries have only
vanished, it leads to the directory that it led to before, or nowhere.

**Results.**
* `FileTree.exists_name_of_isFile`: a path that leads to a file ends with a name.
* `FileTree.place_of_locate`: where a path leads that ends with a name, if links are not followed at its end.
* `FileTree.leadsToFile_of_isFile`: from where a path leads that ends with a name and leads to a file.
* `FileTree.Leads.place_of_sibling`: where a sibling of a path leads that a name was appended to.
-/

namespace CompilerRelay
namespace FileTree

/-- Whether the entry of a directory with a name leads to a file. -/
def leadsToFile (tree : FileTree) (directory : Place) (name : Name) : Bool :=
  match tree.walk true linkLimit directory [name] with
  | .ok (place, _) => (tree.find? place).any Node.isFile
  | .error _ => false

section Parts

variable {path other : Path} {parts : List (List Char)} {name : Name}

/-! ## The parts of paths -/

theorem stepsOf_of_parts
    (hparts : Text.splitOn '/' path.text.toList = parts ++ [name]) (hname : name ≠ []) :
    stepsOf path = parts.filter (· ≠ []) ++ [name] := by
  simp [stepsOf, hparts, hname]

theorem isAbsolute_of_parts
    (hparts : Text.splitOn '/' path.text.toList = parts ++ [name]) (hname : name ≠ []) :
    path.isAbsolute = (parts.head? == some []) := by
  unfold Path.isAbsolute
  cases htext : path.text.toList with
  | nil =>
      rw [htext, Text.splitOn_nil] at hparts
      have hboth : [] ++ [[]] = parts ++ [name] := hparts
      obtain ⟨-, hlast⟩ := List.append_inj' hboth rfl
      exact absurd (List.singleton_inj.mp hlast).symm hname
  | cons char rest =>
      rw [htext, Text.splitOn_cons] at hparts
      by_cases hchar : char = '/'
      · rw [if_pos hchar] at hparts
        cases parts with
        | nil => exact absurd (List.cons.inj hparts).1.symm hname
        | cons first others =>
            obtain rfl : [] = first := (List.cons.inj hparts).1
            simp [hchar]
      · rw [if_neg hchar] at hparts
        cases hpieces : Text.splitOn '/' rest with
        | nil => exact absurd hpieces (Text.splitOn_ne_nil '/' rest)
        | cons piece pieces =>
            rw [hpieces] at hparts
            cases parts with
            | nil => simp [hchar]
            | cons first others =>
                obtain rfl : char :: piece = first := (List.cons.inj hparts).1
                simp [hchar]

/-- Siblings start from the same directory. -/
theorem startOf_of_parts
    (hparts : Text.splitOn '/' path.text.toList = parts ++ [name]) (hname : name ≠ []) {second : Name}
    (hother : Text.splitOn '/' other.text.toList = parts ++ [second]) (hsecond : second ≠ []) (origin : Place) :
    startOf origin other = startOf origin path := by
  rw [startOf, startOf, isAbsolute_of_parts hparts hname, isAbsolute_of_parts hother hsecond]

/-- The parts of a path with a name appended: the name, after what the path goes through. -/
theorem exists_parts_of_join
    (path : Path) (hname : IsFileName name) :
    ∃ parts, Text.splitOn '/' (path.join ⟨String.ofList name⟩).text.toList = parts ++ [name] ∧
      parts.filter (· ≠ []) = stepsOf path := by
  have hcut : Text.splitOn '/' name = [name] := Text.splitOn_of_notMem hname.no_slash
  unfold stepsOf
  rw [Path.join_name path ⟨hname.ne_nil, hname.no_slash⟩]
  unfold Path.gap
  split
  · next h => exact ⟨[], by simp [List.getLast?_eq_none_iff.mp h, hcut]⟩
  · next h =>
      obtain ⟨front, hfront⟩ := List.getLast?_eq_some_iff.mp h
      refine ⟨Text.splitOn '/' front, ?_, by simp [hfront, Text.splitOn_append_cons]⟩
      rw [hfront, List.append_nil, List.append_assoc, List.singleton_append, Text.splitOn_append_cons, hcut]
  · refine ⟨Text.splitOn '/' path.text.toList, ?_, rfl⟩
    rw [List.append_assoc, List.singleton_append, Text.splitOn_append_cons, hcut]

/-- A path with a name appended goes through what the path goes through. -/
theorem stepsOf_join
    (path : Path) (hname : IsFileName name) :
    stepsOf (path.join ⟨String.ofList name⟩) = stepsOf path ++ [name] := by
  obtain ⟨parts, hparts, hsteps⟩ := exists_parts_of_join path hname
  rw [stepsOf_of_parts hparts hname.ne_nil, hsteps]

theorem startOf_join
    (path : Path) (hname : IsFileName name) (origin : Place) :
    startOf origin (path.join ⟨String.ofList name⟩) = startOf origin path := by
  have habsolute : (path.join ⟨String.ofList name⟩).isAbsolute = path.isAbsolute := by
    unfold Path.isAbsolute
    rw [Path.join_name path ⟨hname.ne_nil, hname.no_slash⟩]
    cases htext : path.text.toList with
    | nil =>
        obtain ⟨char, rest, rfl⟩ := List.exists_cons_of_ne_nil hname.ne_nil
        have hchar : char ≠ '/' := fun h => hname.no_slash (h ▸ List.mem_cons_self)
        simp [Path.gap, htext, hchar]
    | cons char rest => rfl
  rw [startOf, startOf, habsolute]

end Parts

/-! ## Where paths lead -/

section Places

variable {before after tree : FileTree} {path other : Path} {parts : List (List Char)} {name second : Name}
variable {spot : Spot}

theorem exists_walks_of_locate
    {follow : Bool} (h : tree.locate follow path = .ok spot) :
    path.text.toList ≠ [] ∧ spot.slash = (path.text.toList.getLast? == some '/') ∧
      Walks tree follow linkLimit (startOf tree.current path) (stepsOf path) spot.place spot.dotted := by
  unfold locate at h
  split at h
  · cases h
  · split at h
    · cases h
    · next hempty =>
        split at h
        · cases h
        · cases hwalk : tree.walk follow linkLimit (startOf tree.current path) (stepsOf path) with
          | error fault => rw [hwalk] at h; cases h
          | ok reached =>
              rw [hwalk] at h
              obtain rfl := Except.ok.inj h
              refine ⟨fun hnil => hempty ?_, rfl, .of_walk hwalk⟩
              rw [String.isEmpty_iff, ← String.toList_eq_nil_iff]
              exact hnil

theorem Walks.dotted_of_nil
    {follow dotted : Bool} {links : Nat} {place reached : Place}
    (h : Walks tree follow links place [] reached dotted) :
    dotted = true := by
  cases h
  rfl

/-- A part at the end that is no name is a step to a directory. -/
theorem Walks.dotted_of_dots
    {follow dotted : Bool} {links : Nat} {place reached : Place} {front : List Name}
    (h : Walks tree follow links place (front ++ [name]) reached dotted) (hname : name = ['.'] ∨ name = ['.', '.']) :
    dotted = true := by
  obtain ⟨directory, left, -, hwalks⟩ := h.exists_descends
  cases hwalks with
  | here hmore | up hmore => exact hmore.dotted_of_nil
  | last hentry => exact (hname.elim hentry.ne_current hentry.ne_parent).elim
  | into hentry | link hentry => exact (hname.elim hentry.ne_current hentry.ne_parent).elim

theorem Walks.place_of_name
    {dotted : Bool} {links : Nat} {place reached : Place}
    (h : Walks tree false links place [name] reached dotted) (hname : IsFileName name) :
    reached = place ++ [name] ∧ dotted = false ∧ IsEntryName name := by
  cases h with
  | here => exact absurd rfl hname.ne_current
  | up => exact absurd rfl hname.ne_parent
  | last hentry => exact ⟨rfl, rfl, hentry⟩
  | into _ hrest => exact absurd rfl hrest
  | link _ hrest => simp at hrest

theorem exists_spot_of_status
    {node : Node} (h : tree.status path = .ok node) :
    ∃ spot, tree.locate true path = .ok spot ∧ tree.find? spot.place = some node ∧
      (spot.slash = true → node.isDirectory = true) := by
  unfold status at h
  cases hlocate : tree.locate true path with
  | error fault => rw [hlocate] at h; cases h
  | ok spot =>
      rw [hlocate] at h
      simp only [bind, Except.bind] at h
      split at h
      · cases h
      · next found hfound =>
          split at h
          · cases h
          · next hopen =>
              obtain rfl := Except.ok.inj h
              exact ⟨spot, rfl, hfound, fun hslash => by simpa [hslash] using hopen⟩

/-- What a path leads to is a file, and the path does not end with a slash. -/
theorem exists_node_of_isFile
    (hfile : tree.isFile path = true) :
    ∃ spot node, tree.locate true path = .ok spot ∧ spot.slash = false ∧
      tree.find? spot.place = some node ∧ node.isFile = true := by
  unfold isFile at hfile
  split at hfile
  · next node hstatus =>
      obtain ⟨spot, hlocate, hfound, hslash⟩ := exists_spot_of_status hstatus
      refine ⟨spot, node, hlocate, Bool.eq_false_iff.mpr fun hends => ?_, hfound, hfile⟩
      have hdirectory := hslash hends
      cases node <;> simp_all [Node.isFile, Node.isDirectory]
  · cases hfile

theorem exists_spot_of_isDirectory
    (hdirectory : tree.isDirectory path = true) :
    ∃ spot, tree.locate true path = .ok spot ∧ tree.find? spot.place = some .directory := by
  unfold isDirectory at hdirectory
  split at hdirectory
  · next node hstatus =>
      obtain ⟨spot, hlocate, hfound, -⟩ := exists_spot_of_status hstatus
      cases node with
      | directory => exact ⟨spot, hlocate, hfound⟩
      | file | link | device => cases hdirectory
  · cases hdirectory

/-- A path that leads to something else than a directory ends with a name. -/
theorem exists_name_of_status
    (hsound : tree.Sound) {node : Node} (hstatus : tree.status path = .ok node) (hleaf : node ≠ .directory) :
    ∃ parts name, Text.splitOn '/' path.text.toList = parts ++ [name] ∧ IsFileName name := by
  obtain ⟨spot, hlocate, hfound, hends⟩ := exists_spot_of_status hstatus
  obtain ⟨hnonempty, hslash, hwalks⟩ := exists_walks_of_locate hlocate
  have hopen : spot.slash = false := Bool.eq_false_iff.mpr fun hend => by
    have hdirectory := hends hend
    cases node <;> simp_all [Node.isDirectory]
  obtain ⟨parts, name, hparts⟩ : ∃ parts name, Text.splitOn '/' path.text.toList = parts ++ [name] := by
    rcases List.eq_nil_or_concat' (Text.splitOn '/' path.text.toList) with hnil | hcut
    · exact absurd hnil (Text.splitOn_ne_nil _ _)
    · exact hcut
  have hname : name ≠ [] := by
    rintro rfl
    have htext := Text.join_splitOn '/' path.text.toList
    rw [hparts] at htext
    by_cases hfirst : parts = []
    · subst hfirst
      exact hnonempty htext.symm
    · rw [Text.join_append_singleton _ hfirst, List.append_nil] at htext
      rw [hslash, ← htext, List.getLast?_concat] at hopen
      simp at hopen
  rw [stepsOf_of_parts hparts hname] at hwalks
  -- A step at the end would lead to a directory.
  have hnamed (hdots : name = ['.'] ∨ name = ['.', '.']) : False := by
    have hstart := Sound.find?_startOf hsound.current path
    rw [hsound.find?_of_dotted hstart hwalks (hwalks.dotted_of_dots hdots)] at hfound
    exact hleaf (Option.some.inj hfound).symm
  exact ⟨parts, name, hparts, hname, Path.slash_notMem_of_parts hparts,
    fun h => hnamed (Or.inl h), fun h => hnamed (Or.inr h)⟩

/-- A path that leads to a file ends with a name. -/
theorem exists_name_of_isFile
    (hsound : tree.Sound) (hfile : tree.isFile path = true) :
    ∃ parts name, Text.splitOn '/' path.text.toList = parts ++ [name] ∧ IsFileName name := by
  unfold isFile at hfile
  split at hfile
  · next node hstatus =>
      exact exists_name_of_status hsound hstatus fun hdirectory => by simp [hdirectory, Node.isFile] at hfile
  · cases hfile

/-- Where a path does not end in a step upwards or on the spot, its last part is a name. -/
theorem exists_last_of_locate
    {follow : Bool} (hlocate : tree.locate follow path = .ok spot) (hdotted : spot.dotted = false) :
    ∃ front name, stepsOf path = front ++ [name] ∧ IsFileName name := by
  obtain ⟨-, -, hwalks⟩ := exists_walks_of_locate hlocate
  rcases List.eq_nil_or_concat' (stepsOf path) with hnil | ⟨front, name, hsteps⟩
  · rw [hnil] at hwalks
    rw [hwalks.dotted_of_nil] at hdotted
    cases hdotted
  · rw [hsteps] at hwalks
    have hmem : name ∈ stepsOf path := hsteps ▸ List.mem_append_right _ (List.mem_singleton_self name)
    obtain ⟨hpiece, hne⟩ := List.mem_filter.mp hmem
    have hnamed (hdots : name = ['.'] ∨ name = ['.', '.']) : False := by
      rw [hwalks.dotted_of_dots hdots] at hdotted
      cases hdotted
    exact ⟨front, name, hsteps, by simpa using hne, Text.separator_notMem_of_mem_splitOn hpiece,
      fun h => hnamed (Or.inl h), fun h => hnamed (Or.inr h)⟩

/-- Where a path leads that ends with a name, if links are not followed at its end. -/
theorem place_of_locate
    (hnarrows : before.Narrows after) (hlocate : after.locate false path = .ok spot)
    (hparts : Text.splitOn '/' path.text.toList = parts ++ [name]) (hname : IsFileName name) :
    ∃ directory left, Descends before linkLimit (startOf before.current path) (parts.filter (· ≠ [])) directory left ∧
      spot.place = directory ++ [name] ∧ IsEntryName name := by
  obtain ⟨-, -, hwalks⟩ := exists_walks_of_locate hlocate
  rw [stepsOf_of_parts hparts hname.ne_nil] at hwalks
  obtain ⟨directory, left, hdescends, hlast⟩ := hwalks.exists_descends
  obtain ⟨hplace, -, hentry⟩ := hlast.place_of_name hname
  rw [hnarrows.current_eq] at hdescends
  exact ⟨directory, left, hdescends.of_narrows hnarrows, hplace, hentry⟩

/-- From where a path leads that ends with a name and leads to a file. -/
theorem leadsToFile_of_isFile
    (hthins : before.Thins after) (hfile : after.isFile path = true)
    (hparts : Text.splitOn '/' path.text.toList = parts ++ [name]) (hname : IsFileName name) :
    ∃ directory left, Descends before linkLimit (startOf before.current path) (parts.filter (· ≠ [])) directory left ∧
      before.leadsToFile directory name = true := by
  obtain ⟨spot, node, hlocate, -, hfound, hplain⟩ := exists_node_of_isFile hfile
  obtain ⟨-, -, hwalks⟩ := exists_walks_of_locate hlocate
  have hbefore := hwalks.of_thins hthins (Option.isSome_iff_exists.mpr ⟨node, hfound⟩)
  rw [stepsOf_of_parts hparts hname.ne_nil, hthins.current_eq] at hbefore
  obtain ⟨directory, left, hdescends, hlast⟩ := hbefore.exists_descends
  refine ⟨directory, left, hdescends, ?_⟩
  rw [leadsToFile, (hlast.mono hdescends.left_le).walk_eq]
  simp only [hthins.entry _ _ hfound, Option.any_some, hplain]

theorem leadsToFile_of_find?
    {directory : Place} (hname : IsEntryName name) (hfile : (tree.find? (directory ++ [name])).any Node.isFile = true) :
    tree.leadsToFile directory name = true := by
  have hlast : Walks tree true linkLimit directory [name] (directory ++ [name]) false := by
    refine .last hname fun _ target htarget => ?_
    rw [htarget] at hfile
    cases hfile
  rw [leadsToFile, hlast.walk_eq]
  exact hfile

/-- A path leads to the directory at a place, if to anything. -/
def Leads (tree : FileTree) (path : Path) (place : Place) : Prop :=
  ∀ directory left, Descends tree linkLimit (startOf tree.current path) (stepsOf path) directory left →
    directory = place

theorem leads_of_locate
    (h : tree.locate true path = .ok spot) :
    tree.Leads path spot.place := by
  obtain ⟨-, -, hwalks⟩ := exists_walks_of_locate h
  intro directory left hdescends
  obtain ⟨dotted, hreached⟩ := hdescends.walks
  exact (Prod.mk.inj (Except.ok.inj (hreached.walk_eq.symm.trans hwalks.walk_eq))).1

namespace Leads

variable {directory : Path} {place : Place}

/-- A path with the name of a directory appended leads to that. -/
theorem join
    (h : tree.Leads directory place) (hname : IsFileName name)
    (hnode : tree.find? (place ++ [name]) = some .directory) :
    tree.Leads (directory.join ⟨String.ofList name⟩) (place ++ [name]) := by
  intro reached left hdescends
  rw [stepsOf_join directory hname, startOf_join directory hname] at hdescends
  obtain ⟨dotted, hwalks⟩ := hdescends.walks
  obtain ⟨parent, between, hparent, hlast⟩ := hwalks.exists_descends
  obtain rfl := h parent between hparent
  cases hlast with
  | here => exact absurd rfl hname.ne_current
  | up => exact absurd rfl hname.ne_parent
  | last => rfl
  | into _ hrest => exact absurd rfl hrest
  | link _ _ hlink => rw [hnode] at hlink; cases hlink

/-- From where a sibling of a path leads that a name was appended to. -/
theorem eq_of_descends
    (h : tree.Leads directory place) (hname : IsFileName name)
    (hparts : Text.splitOn '/' (directory.join ⟨String.ofList name⟩).text.toList = parts ++ [name])
    (hother : Text.splitOn '/' other.text.toList = parts ++ [second]) (hsecond : second ≠ [])
    {reached : Place} {left : Nat}
    (hdescends : Descends tree linkLimit (startOf tree.current other) (parts.filter (· ≠ [])) reached left) :
    reached = place := by
  have hsteps : parts.filter (· ≠ []) = stepsOf directory := by
    have hboth := (stepsOf_of_parts hparts hname.ne_nil).symm.trans (stepsOf_join directory hname)
    exact List.append_cancel_right hboth
  rw [startOf_of_parts hparts hname.ne_nil hother hsecond, startOf_join directory hname, hsteps] at hdescends
  exact h reached left hdescends

/-- Where a sibling of a path leads that a name was appended to. -/
theorem place_of_sibling
    (h : before.Leads directory place) (hname : IsFileName name)
    (hparts : Text.splitOn '/' (directory.join ⟨String.ofList name⟩).text.toList = parts ++ [name])
    (hother : Text.splitOn '/' other.text.toList = parts ++ [second]) (hsecond : IsFileName second)
    (hnarrows : before.Narrows after) (hlocate : after.locate false other = .ok spot) :
    spot.place = place ++ [second] := by
  obtain ⟨reached, left, hdescends, hplace, -⟩ := place_of_locate hnarrows hlocate hother hsecond
  rw [hplace, h.eq_of_descends hname hparts hother hsecond.ne_nil hdescends]

end Leads
end Places
end FileTree
end CompilerRelay
