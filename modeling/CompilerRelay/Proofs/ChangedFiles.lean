import CompilerRelay.Proofs.ReachingPaths

/-!
# Changes of files alone

Where paths lead, and which directories are made for them, while nothing but files is changed.

**Input.**  A tree, and a change of its nodes that leaves all but files as they are; writing to an open file is one.

**Algorithm.**  Paths lead on by directories and links.  So a change of files does not matter to where they lead, nor to
which directories are missing.

**Results.**
* `FileTree.status_changed`: a path leads to what became of what it led to.
* `FileTree.makeDirectories_changed`: the same directories are made.
* `FileTree.isDirectory_of_makeDirectories`, `FileTree.makeDirectories_of_isDirectory`: a directory that was made is there,
  and one that is there is not made again.
* `FileTree.status_openAppending`: what is opened to write at its end holds what was there.
-/

namespace CompilerRelay

/-- The bytes of a file. -/
def Node.content : Node → Bytes
  | .file _ content _ => content
  | .directory | .link _ | .device _ => []

namespace FileTree

section Defs

/-- A change of nothing but files. -/
structure OnlyFiles (change : Node → Node) : Prop where
  isFile_eq : ∀ node, (change node).isFile = node.isFile
  eq_self : ∀ node, node.isFile = false → change node = node

/-- A tree with its nodes changed. -/
def changed (tree : FileTree) (change : Node → Node) : FileTree :=
  { tree with nodes := tree.nodes.map fun entry => (entry.1, change entry.2) }

end Defs

theorem nodeAt_map (change : Node → Node) (place : Place) (nodes : List (Place × Node)) :
    nodeAt place (nodes.map fun entry => (entry.1, change entry.2)) = (nodeAt place nodes).map change := by
  induction nodes with
  | nil => rfl
  | cons entry rest ih =>
      rw [List.map_cons, nodeAt, nodeAt, ih]
      split
      · rfl
      · rfl

theorem insertInto_map (change : Node → Node) (place : Place) (node : Node) (nodes : List (Place × Node)) :
    insertInto place (change node) (nodes.map fun entry => (entry.1, change entry.2)) =
      (insertInto place node nodes).map fun entry => (entry.1, change entry.2) := by
  induction nodes with
  | nil => rfl
  | cons entry rest ih =>
      rw [List.map_cons, insertInto, insertInto, ih]
      split
      · rfl
      · rfl

theorem insert_changed (tree : FileTree) (change : Node → Node) (place : Place) (node : Node) :
    (tree.changed change).insert place (change node) = (tree.insert place node).changed change := by
  simp only [insert, changed, insertInto_map]

section Contents

variable {change : Node → Node}

theorem OnlyFiles.isDirectory_eq (h : OnlyFiles change) (node : Node) :
    (change node).isDirectory = node.isDirectory := by
  have hplain {node : Node} (hnode : node.isFile = true) : node.isDirectory = false := by
    cases node with
    | file => rfl
    | directory | link | device => cases hnode
  cases hfile : node.isFile with
  | false => rw [h.eq_self node hfile]
  | true => rw [hplain hfile, hplain ((h.isFile_eq node).trans hfile)]

theorem find?_changed (hchange : OnlyFiles change) (tree : FileTree) (place : Place) :
    (tree.changed change).find? place = (tree.find? place).map change := by
  unfold find?
  split
  · rw [Option.map_some, hchange.eq_self .directory rfl]
  · exact nodeAt_map change place tree.nodes

theorem walkParts_changed
    (hchange : OnlyFiles change) (tree : FileTree)
    (follow : Bool) (jump : Place → List Name → Except FileError (Place × Bool)) (place : Place) (names : List Name) :
    (tree.changed change).walkParts follow jump place names = tree.walkParts follow jump place names := by
  induction names generalizing place with
  | nil => rfl
  | cons name rest ih =>
      simp only [walkParts, ih, find?_changed hchange]
      cases tree.find? (place ++ [name]) with
      | none => rfl
      | some node =>
          cases node with
          | file id content executable =>
              have hfile := hchange.isFile_eq (.file id content executable)
              rw [Option.map_some]
              generalize change (.file id content executable) = changed at hfile
              cases changed with
              | file => rfl
              | directory | link | device => cases hfile
          | directory | link | device => rw [Option.map_some, hchange.eq_self _ rfl]

theorem walk_changed (hchange : OnlyFiles change) (tree : FileTree) (follow : Bool) (links : Nat) :
    (tree.changed change).walk follow links = tree.walk follow links := by
  induction links with
  | zero => exact funext fun place => funext fun names => walkParts_changed hchange tree follow _ place names
  | succ links ih =>
      funext place names
      rw [walk, walk, ih, walkParts_changed hchange]

/-- Paths lead to the same places. -/
theorem locate_changed (hchange : OnlyFiles change) (tree : FileTree) (follow : Bool) (path : Path) :
    (tree.changed change).locate follow path = tree.locate follow path := by
  rw [locate, locate, walk_changed hchange]
  rfl

/-- A path leads to what became of what it led to. -/
theorem status_changed (hchange : OnlyFiles change) (tree : FileTree) (path : Path) :
    (tree.changed change).status path = (tree.status path).map change := by
  unfold status
  rw [locate_changed hchange]
  cases tree.locate true path with
  | error cause => rfl
  | ok spot =>
      simp only [bind, Except.bind, find?_changed hchange]
      cases tree.find? spot.place with
      | none => rfl
      | some node =>
          simp only [Option.map_some, hchange.isDirectory_eq]
          split
          · rfl
          · rfl

theorem isFile_changed (hchange : OnlyFiles change) (tree : FileTree) (path : Path) :
    (tree.changed change).isFile path = tree.isFile path := by
  unfold isFile
  rw [status_changed hchange]
  cases tree.status path with
  | error cause => rfl
  | ok node => exact hchange.isFile_eq node

theorem isDirectory_changed (hchange : OnlyFiles change) (tree : FileTree) (path : Path) :
    (tree.changed change).isDirectory path = tree.isDirectory path := by
  unfold isDirectory
  rw [status_changed hchange]
  cases tree.status path with
  | error cause => rfl
  | ok node => exact hchange.isDirectory_eq node

theorem makeDirectory_changed (hchange : OnlyFiles change) (tree : FileTree) (path : Path) :
    (tree.changed change).makeDirectory path = (tree.makeDirectory path).map (·.changed change) := by
  unfold makeDirectory
  rw [locate_changed hchange]
  cases tree.locate false path with
  | error cause => rfl
  | ok spot =>
      simp only [bind, Except.bind, find?_changed hchange]
      cases tree.find? spot.place with
      | some node => rfl
      | none =>
          have hinsert := insert_changed tree change spot.place .directory
          rw [hchange.eq_self .directory rfl] at hinsert
          exact congrArg Except.ok hinsert

theorem makeDirectories_go_changed (hchange : OnlyFiles change) (tree : FileTree) (fuel : Nat) (path : Path) :
    makeDirectories.go (tree.changed change) fuel path = (makeDirectories.go tree fuel path).map (·.changed change) := by
  induction fuel generalizing path with
  | zero => rfl
  | succ fuel ih =>
      simp only [makeDirectories.go, makeDirectory_changed hchange, isDirectory_changed hchange, ih]
      split
      · rfl
      · cases tree.makeDirectory path with
        | ok after => rfl
        | error fault =>
            cases fault with
            | notFound =>
                cases path.parent? with
                | none => rfl
                | some parent =>
                    cases hmade : makeDirectories.go tree fuel parent with
                    | error fault => simp [Except.map, hmade]
                    | ok made =>
                        simp only [Except.map, hmade, makeDirectory_changed hchange, isDirectory_changed hchange]
                        cases made.makeDirectory path with
                        | ok after => rfl
                        | error fault =>
                            simp only
                            split <;> rfl
            | noProgram | denied | alreadyThere | notDirectory | isDirectory | noSpace | nameTooLong | tooManyLinks
            | notText | nulInPath | other =>
                simp only [Except.map]
                split <;> rfl

/-- The same directories are made. -/
theorem makeDirectories_changed (hchange : OnlyFiles change) (tree : FileTree) (path : Path) :
    (tree.changed change).makeDirectories path = (tree.makeDirectories path).map (·.changed change) :=
  makeDirectories_go_changed hchange tree _ path

end Contents

/-! ## Writing to an open file -/

theorem onlyFiles_appendTo (id : Nat) (bytes : Bytes) : OnlyFiles (appendTo id bytes) where
  isFile_eq := fun node => by cases node <;> rfl
  eq_self := fun node hfile => by
    cases node with
    | file => cases hfile
    | directory | link | device => rfl

theorem append_file (tree : FileTree) (id : Nat) (bytes : Bytes) :
    tree.append (.file id) bytes = .ok (tree.changed (appendTo id bytes)) := rfl

/-- Which files are there does not depend on what is written to an open file. -/
theorem isFile_append
    {tree after : FileTree} {handle : Handle} {bytes : Bytes} (h : tree.append handle bytes = .ok after) (path : Path) :
    after.isFile path = tree.isFile path := by
  cases handle with
  | file id =>
      rw [append_file] at h
      rw [← Except.ok.inj h, isFile_changed (onlyFiles_appendTo id bytes)]
  | device device =>
      cases device with
      | null => rw [← Except.ok.inj h]
      | full =>
          rw [append] at h
          split at h
          · rw [← Except.ok.inj h]
          · cases h

/-! ## Directories that are made -/

section Directories

variable {tree after : FileTree} {path : Path} {spot : Spot}

/-- Where a directory is put in an empty place, parts lead there as before. -/
theorem Walks.of_made
    {follow dotted : Bool} {links : Nat} {place reached : Place} {steps : List Name}
    (h : Walks tree follow links place steps reached dotted) (hfree : tree.find? reached = none)
    (hmade : after.find? reached = some .directory)
    (hother : ∀ other, other ≠ reached → after.find? other = tree.find? other) :
    Walks after true links place steps reached dotted := by
  have hkept {other : Place} {node : Node} (hnode : tree.find? other = some node) : after.find? other = some node := by
    rw [hother other ?_, hnode]
    rintro rfl
    rw [hfree] at hnode
    cases hnode
  induction h with
  | stop links place => exact .stop links place
  | here _ ih => exact .here (ih hfree hmade hother)
  | up _ ih => exact .up (ih hfree hmade hother)
  | last hname _ => exact .last hname fun _ target hlink => by rw [hmade] at hlink; cases hlink
  | into hname hrest hnode _ ih => exact .into hname hrest (hkept hnode) (ih hfree hmade hother)
  | link hname hrest hnode _ ih => exact .link hname (Or.inr rfl) (hkept hnode) (ih hfree hmade hother)

/-- Where parts lead to an entry past all links, they lead to one before the last of them. -/
theorem Walks.exists_unfollowed
    {follow dotted : Bool} {links : Nat} {place reached : Place} {steps : List Name}
    (h : Walks tree follow links place steps reached dotted) (hfound : (tree.find? reached).isSome = true) :
    ∃ other last, Walks tree false links place steps other last ∧ (tree.find? other).isSome = true := by
  induction h with
  | stop links place => exact ⟨place, true, .stop links place, hfound⟩
  | here _ ih =>
      obtain ⟨other, last, hwalks, hother⟩ := ih hfound
      exact ⟨other, last, .here hwalks, hother⟩
  | up _ ih =>
      obtain ⟨other, last, hwalks, hother⟩ := ih hfound
      exact ⟨other, last, .up hwalks, hother⟩
  | last hname _ => exact ⟨_, false, .last hname (fun hfalse => by cases hfalse), hfound⟩
  | into hname hrest hnode _ ih =>
      obtain ⟨other, last, hwalks, hother⟩ := ih hfound
      exact ⟨other, last, .into hname hrest hnode hwalks, hother⟩
  | @link links place reached name rest dotted target hname _ hnode _ ih =>
      by_cases hrest : rest = []
      · subst hrest
        exact ⟨place ++ [name], false, .last hname (fun hfalse => by cases hfalse), by rw [hnode]; rfl⟩
      · obtain ⟨other, last, hwalks, hother⟩ := ih hfound
        exact ⟨other, last, .link hname (Or.inl hrest) hnode hwalks, hother⟩

theorem ne_nil_of_free {place : Place} (hfree : tree.find? place = none) : place ≠ [] := by
  intro hroot
  rw [hroot, find?_root] at hfree
  cases hfree

theorem isDirectory_of_makeDirectory (h : tree.makeDirectory path = .ok after) : after.isDirectory path = true := by
  cases hlocate : tree.locate false path with
  | error cause => simp [makeDirectory, hlocate, bind, Except.bind] at h
  | ok spot =>
      cases hfree : tree.find? spot.place with
      | some node => simp [makeDirectory, hlocate, bind, Except.bind, hfree] at h
      | none =>
          obtain rfl : tree.insert spot.place .directory = after := by
            simpa [makeDirectory, hlocate, bind, Except.bind, hfree, pure, Except.pure] using h
          have hmade := find?_insert_self tree (ne_nil_of_free hfree) .directory
          obtain ⟨hfollow, hslash, hwalks⟩ := locate_eq_ok_iff.mp hlocate
          exact isDirectory_iff.mpr ⟨spot, locate_eq_ok_iff.mpr ⟨hfollow, hslash,
            hwalks.of_made hfree hmade fun other hother => find?_insert_of_ne tree hother .directory⟩, hmade⟩

/-- A directory that was made is there. -/
theorem isDirectory_of_makeDirectories
    (h : tree.makeDirectories path = .ok after) (hpath : path.text.isEmpty = false) :
    after.isDirectory path = true := by
  unfold makeDirectories at h
  generalize path.text.length = fuel at h
  rw [makeDirectories.go, if_neg (by simp [hpath])] at h
  split at h
  · next hmade =>
      obtain rfl := Except.ok.inj h
      exact isDirectory_of_makeDirectory hmade
  · split at h
    · cases h
    · split at h
      · cases h
      · split at h
        · next hmade =>
            obtain rfl := Except.ok.inj h
            exact isDirectory_of_makeDirectory hmade
        · split at h
          · next hthere =>
              obtain rfl := Except.ok.inj h
              exact hthere
          · cases h
  · split at h
    · next hthere =>
        obtain rfl := Except.ok.inj h
        exact hthere
    · cases h

/-- A directory that is there is not made again. -/
theorem makeDirectories_of_isDirectory (h : tree.isDirectory path = true) : tree.makeDirectories path = .ok tree := by
  have hthere : tree.makeDirectory path = .error .alreadyThere := by
    obtain ⟨spot, hlocate, hnode⟩ := isDirectory_iff.mp h
    obtain ⟨hfollow, -, hwalks⟩ := locate_eq_ok_iff.mp hlocate
    obtain ⟨other, last, hother, hfound⟩ := hwalks.exists_unfollowed (by rw [hnode]; rfl)
    have hstart : tree.locate false path = .ok ⟨other, last, path.text.toList.getLast? == some '/'⟩ :=
      locate_eq_ok_iff.mpr ⟨hfollow, rfl, hother⟩
    obtain ⟨node, hentry⟩ := Option.isSome_iff_exists.mp hfound
    simp [makeDirectory, hstart, bind, Except.bind, hentry]
  rw [makeDirectories, makeDirectories.go, hthere]
  simp [h]

end Directories

theorem SameWays.isDirectory_eq {before after : FileTree} (h : before.SameWays after) (path : Path) :
    after.isDirectory path = before.isDirectory path := by
  rw [Bool.eq_iff_iff, isDirectory_iff, isDirectory_iff]
  exact exists_congr fun spot => and_congr h.locate_eq_ok_iff (h.find?_eq rfl)

/-! ## Files that are opened -/

section Opening

variable {tree after : FileTree} {path : Path} {place : Place}

/-- A new file in an empty place leads nowhere. -/
theorem sameWays_putFile (hfree : tree.find? place = none) (content : Bytes) (executable : Bool) :
    tree.SameWays (tree.putFile place content executable) := by
  have hplaced : (tree.putFile place content executable).find? place = some (.file (tree.lastId + 1) content executable) :=
    find?_insert_self tree (ne_nil_of_free hfree) _
  refine .of_leaves rfl fun other => ?_
  by_cases hother : other = place
  · rw [hother, hplaced, hfree]
    exact Or.inr ⟨rfl, rfl⟩
  · exact Or.inl (find?_insert_of_ne tree hother _)

/-- A path that does not end in a slash leads to what is there. -/
theorem status_of_locate {spot : Spot} (hlocate : tree.locate true path = .ok spot) (hslash : spot.slash = false) :
    (tree.status path).toOption = tree.find? spot.place := by
  simp only [status, hlocate, bind, Except.bind, hslash]
  cases tree.find? spot.place <;> rfl

/-- A path at which can be written leads to what is there, or to where a file may be. -/
theorem exists_spot_of_writable {found : Option Node} (h : tree.writable path = .ok (place, found)) :
    ∃ spot, tree.locate true path = .ok spot ∧ spot.slash = false ∧ spot.place = place ∧ tree.find? place = found := by
  unfold writable at h
  cases hlocate : tree.locate true path with
  | error cause => simp [hlocate, bind, Except.bind] at h
  | ok spot =>
      simp only [hlocate, bind, Except.bind] at h
      refine ⟨spot, rfl, ?_⟩
      cases hslash : spot.slash with
      | true =>
          cases hfound : tree.find? spot.place with
          | none => simp [hfound, hslash] at h
          | some node => cases node <;> simp [hfound, hslash] at h
      | false =>
          have hplace : spot.place = place ∧ tree.find? spot.place = found := by
            cases hfound : tree.find? spot.place with
            | none => simpa [hfound, hslash, pure, Except.pure] using h
            | some node =>
                cases node with
                | directory => simp [hfound] at h
                | file | link | device => simpa [hfound, hslash, pure, Except.pure] using h
          exact ⟨rfl, hplace.1, hplace.1 ▸ hplace.2⟩

/-- What is opened to write at its end is a device, or the file that the path then leads to; it holds what was there. -/
theorem status_openAppending {handle : Handle} (h : tree.openAppending path = .ok (handle, after)) :
    (∃ device, (tree.status path).toOption = some (.device device)) ∨
      ∃ id executable, handle = .file id ∧ tree.SameWays after ∧
        (after.status path).toOption = some (.file id ((tree.status path).toOption.elim [] Node.content) executable) := by
  unfold openAppending at h
  cases hwritable : tree.writable path with
  | error cause => simp [hwritable, bind, Except.bind] at h
  | ok pair =>
      obtain ⟨place, found⟩ := pair
      obtain ⟨spot, hlocate, hslash, rfl, hfound⟩ := exists_spot_of_writable hwritable
      rw [status_of_locate hlocate hslash, hfound]
      simp only [hwritable, bind, Except.bind] at h
      cases found with
      | none =>
          have hways := sameWays_putFile hfound [] false
          obtain ⟨rfl, rfl⟩ := Prod.mk.inj (Except.ok.inj h)
          refine Or.inr ⟨tree.lastId + 1, false, rfl, hways, ?_⟩
          rw [status_of_locate (hways.locate_eq_ok_iff.mpr hlocate) hslash]
          exact find?_insert_self tree (ne_nil_of_free hfound) _
      | some node =>
          cases node with
          | file id content executable =>
              obtain ⟨rfl, rfl⟩ := Prod.mk.inj (Except.ok.inj h)
              refine Or.inr ⟨id, executable, rfl, .refl tree, ?_⟩
              rw [status_of_locate hlocate hslash, hfound]
              rfl
          | device device => exact Or.inl ⟨device, rfl⟩
          | directory | link => cases h

end Opening
end FileTree
end CompilerRelay
