import CompilerRelay.FileTree.Access
import CompilerRelay.Proofs.PackageLocation

/-!
# Where paths lead

Following a path as a derivation, and what becomes of it when entries vanish.

**Form.**  `FileTree.Walks`: parts lead from a place to another with so many links on the way.  `FileTree.Descends`:
they lead to a directory, from which other parts may be followed with the links that are left.

**Results.**
* `FileTree.walk_eq_ok_iff`: a walk that succeeds is such a derivation.
* `FileTree.Walks.exists_descends`: parts are followed up to any of them, and then the others.
* `FileTree.Descends.of_narrows`: where directories and links have only vanished, parts lead to where they led before.
* `FileTree.Walks.of_thins`: where entries have only vanished, an entry that is found was found before.
-/

namespace CompilerRelay
namespace FileTree

/-- A part of a path that is the name of an entry. -/
structure IsEntryName (name : Name) : Prop where
  ne_current : name ≠ ['.']
  ne_parent : name ≠ ['.', '.']
  size_le : (String.ofList name).utf8ByteSize ≤ nameLimit

/-- Parts lead from a place to another, with so many links on the way.  The flag says that the last part is no name. -/
inductive Walks (tree : FileTree) (follow : Bool) : Nat → Place → List Name → Place → Bool → Prop
  | stop (links : Nat) (place : Place) : Walks tree follow links place [] place true
  | here {links : Nat} {place reached : Place} {rest : List Name} {dotted : Bool}
      (hmore : Walks tree follow links place rest reached dotted) :
      Walks tree follow links place (['.'] :: rest) reached dotted
  | up {links : Nat} {place reached : Place} {rest : List Name} {dotted : Bool}
      (hmore : Walks tree follow links place.dropLast rest reached dotted) :
      Walks tree follow links place (['.', '.'] :: rest) reached dotted
  | last {links : Nat} {place : Place} {name : Name} (hname : IsEntryName name)
      (hlast : follow = true → ∀ target, tree.find? (place ++ [name]) ≠ some (.link target)) :
      Walks tree follow links place [name] (place ++ [name]) false
  | into {links : Nat} {place reached : Place} {name : Name} {rest : List Name} {dotted : Bool}
      (hname : IsEntryName name) (hrest : rest ≠ []) (hnode : tree.find? (place ++ [name]) = some .directory)
      (hmore : Walks tree follow links (place ++ [name]) rest reached dotted) :
      Walks tree follow links place (name :: rest) reached dotted
  | link {links : Nat} {place reached : Place} {name : Name} {rest : List Name} {dotted : Bool} {target : Path}
      (hname : IsEntryName name) (hrest : rest ≠ [] ∨ follow = true)
      (hnode : tree.find? (place ++ [name]) = some (.link target))
      (hmore : Walks tree follow links (startOf place target) (stepsOf target ++ rest) reached dotted) :
      Walks tree follow (links + 1) place (name :: rest) reached dotted

/-- Parts lead from a place to a directory, with so many links on the way; so many are left. -/
inductive Descends (tree : FileTree) : Nat → Place → List Name → Place → Nat → Prop
  | stop (links : Nat) (place : Place) : Descends tree links place [] place links
  | here {links left : Nat} {place reached : Place} {rest : List Name}
      (hmore : Descends tree links place rest reached left) :
      Descends tree links place (['.'] :: rest) reached left
  | up {links left : Nat} {place reached : Place} {rest : List Name}
      (hmore : Descends tree links place.dropLast rest reached left) :
      Descends tree links place (['.', '.'] :: rest) reached left
  | into {links left : Nat} {place reached : Place} {name : Name} {rest : List Name}
      (hname : IsEntryName name) (hnode : tree.find? (place ++ [name]) = some .directory)
      (hmore : Descends tree links (place ++ [name]) rest reached left) :
      Descends tree links place (name :: rest) reached left
  | link {links left : Nat} {place reached : Place} {name : Name} {rest : List Name} {target : Path}
      (hname : IsEntryName name) (hnode : tree.find? (place ++ [name]) = some (.link target))
      (hmore : Descends tree links (startOf place target) (stepsOf target ++ rest) reached left) :
      Descends tree (links + 1) place (name :: rest) reached left

section Walking

variable {tree : FileTree} {follow : Bool} {links : Nat} {place reached : Place} {steps : List Name} {dotted : Bool}

/-! ## Walks as derivations -/

theorem walkParts_cons
    {jump : Place → List Name → Except FileError (Place × Bool)} {name : Name} (hname : IsEntryName name)
    (place : Place) (rest : List Name) :
    walkParts tree follow jump place (name :: rest) =
      match tree.find? (place ++ [name]) with
      | none => if rest.isEmpty then .ok (place ++ [name], false) else .error .notFound
      | some (.link target) =>
          if rest.isEmpty && !follow then .ok (place ++ [name], false)
          else jump (startOf place target) (stepsOf target ++ rest)
      | some .directory =>
          if rest.isEmpty then .ok (place ++ [name], false) else walkParts tree follow jump (place ++ [name]) rest
      | some _ => if rest.isEmpty then .ok (place ++ [name], false) else .error .notDirectory := by
  rw [walkParts, if_neg hname.ne_current, if_neg hname.ne_parent]
  exact if_neg (Nat.not_lt_of_le hname.size_le)

/-- A part that is no step is the name of an entry, or a walk stops there. -/
theorem isEntryName_of_walkParts
    {jump : Place → List Name → Except FileError (Place × Bool)} {name : Name} {rest : List Name}
    (hcurrent : name ≠ ['.']) (hparent : name ≠ ['.', '.'])
    (h : walkParts tree follow jump place (name :: rest) = .ok (reached, dotted)) :
    IsEntryName name := by
  refine ⟨hcurrent, hparent, ?_⟩
  by_contra hlong
  rw [walkParts, if_neg hcurrent, if_neg hparent, if_pos (Nat.lt_of_not_le hlong)] at h
  cases h

/-- The parts between two links; what comes after a link is a derivation with one link less. -/
theorem Walks.of_walkParts
    {jump : Place → List Name → Except FileError (Place × Bool)}
    (hjump : ∀ place steps, jump place steps = .ok (reached, dotted) →
      ∃ left, links = left + 1 ∧ Walks tree follow left place steps reached dotted)
    (h : walkParts tree follow jump place steps = .ok (reached, dotted)) :
    Walks tree follow links place steps reached dotted := by
  induction steps generalizing place with
  | nil =>
      obtain ⟨rfl, rfl⟩ := Prod.mk.inj (Except.ok.inj h)
      exact .stop links place
  | cons name rest ih =>
      by_cases hcurrent : name = ['.']
      · subst hcurrent
        rw [walkParts, if_pos rfl] at h
        exact .here (ih h)
      by_cases hparent : name = ['.', '.']
      · subst hparent
        rw [walkParts, if_neg (by decide), if_pos rfl] at h
        exact .up (ih h)
      have hname := isEntryName_of_walkParts hcurrent hparent h
      rw [walkParts_cons hname] at h
      -- Whatever is found, the walk may end there if this is the last part, but for a link that is followed.
      have hended (hempty : rest = [])
          (hopen : follow = true → ∀ target, tree.find? (place ++ [name]) ≠ some (.link target))
          (hlast : (.ok (place ++ [name], false) : Except FileError (Place × Bool)) = .ok (reached, dotted)) :
          Walks tree follow links place (name :: rest) reached dotted := by
        obtain ⟨rfl, rfl⟩ := Prod.mk.inj (Except.ok.inj hlast)
        subst hempty
        exact .last hname hopen
      split at h
      · next hnode =>
          split at h
          · next hempty => exact hended (List.isEmpty_iff.mp hempty) (fun _ target => by simp [hnode]) h
          · cases h
      · next target hnode =>
          split at h
          · next hstay =>
              obtain ⟨hempty, hunfollowed⟩ := Bool.and_eq_true_iff.mp hstay
              exact hended (List.isEmpty_iff.mp hempty) (fun hfollow => by simp [hfollow] at hunfollowed) h
          · next hgo =>
              obtain ⟨left, rfl, hmore⟩ := hjump _ _ h
              refine .link hname ?_ hnode hmore
              by_contra hneither
              simp_all
      · next hnode =>
          split at h
          · next hempty => exact hended (List.isEmpty_iff.mp hempty) (fun _ target => by simp [hnode]) h
          · next hmore => exact .into hname (fun hnil => hmore (by simp [hnil])) hnode (ih h)
      · next node hlink _ hnode =>
          split at h
          · next hempty =>
              refine hended (List.isEmpty_iff.mp hempty) (fun _ target htarget => hlink target ?_) h
              exact Option.some.inj (hnode.symm.trans htarget)
          · cases h

theorem Walks.of_walk
    (h : tree.walk follow links place steps = .ok (reached, dotted)) :
    Walks tree follow links place steps reached dotted := by
  induction links generalizing place steps with
  | zero => exact .of_walkParts (fun _ _ hjump => by cases hjump) h
  | succ links ih => exact .of_walkParts (fun _ _ hjump => ⟨links, rfl, ih hjump⟩) h

/-- What a walk does with one part, however many links it may follow. -/
theorem walk_cons
    {name : Name} (hname : IsEntryName name) {rest : List Name} (hrest : rest ≠ [])
    (hnode : tree.find? (place ++ [name]) = some .directory) :
    tree.walk follow links place (name :: rest) = tree.walk follow links (place ++ [name]) rest := by
  cases links <;> simp [walk, walkParts_cons hname, hnode, hrest]

theorem Walks.walk_eq
    (h : Walks tree follow links place steps reached dotted) :
    tree.walk follow links place steps = .ok (reached, dotted) := by
  induction h with
  | stop links place => exact walk_nil tree follow links place
  | @here links place reached rest dotted _ ih =>
      rw [← ih]
      cases links <;> simp [walk, walkParts]
  | @up links place reached rest dotted _ ih =>
      rw [← ih]
      cases links <;> simp [walk, walkParts]
  | @last links place name hname hlast =>
      cases links <;> cases hnode : tree.find? (place ++ [name]) with
      | none => simp [walk, walkParts_cons hname, hnode]
      | some node =>
          cases node with
          | file | directory | device => simp [walk, walkParts_cons hname, hnode]
          | link target =>
              have hunfollowed : follow = false := Bool.eq_false_iff.mpr fun hfollow => hlast hfollow target hnode
              simp [walk, walkParts_cons hname, hnode, hunfollowed]
  | into hname hrest hnode _ ih => rw [walk_cons hname hrest hnode, ih]
  | @link links place reached name rest dotted target hname hrest hnode _ ih =>
      have hgo : (rest.isEmpty && !follow) = false := by
        rcases hrest with hmore | hfollow
        · simp [hmore]
        · simp [hfollow]
      simp only [walk, walkParts_cons hname, hnode, hgo, Bool.false_eq_true, if_false]
      exact ih

/-- A walk that succeeds is a derivation. -/
theorem walk_eq_ok_iff :
    tree.walk follow links place steps = .ok (reached, dotted) ↔
      Walks tree follow links place steps reached dotted :=
  ⟨.of_walk, Walks.walk_eq⟩

/-- A walk may follow more links than it needs. -/
theorem Walks.mono
    (h : Walks tree follow links place steps reached dotted) {more : Nat} (hmore : links ≤ more) :
    Walks tree follow more place steps reached dotted := by
  induction h generalizing more with
  | stop links place => exact .stop more place
  | here _ ih => exact .here (ih hmore)
  | up _ ih => exact .up (ih hmore)
  | last hname hlast => exact .last hname hlast
  | into hname hrest hnode _ ih => exact .into hname hrest hnode (ih hmore)
  | link hname hrest hnode _ ih =>
      obtain ⟨fewer, rfl⟩ := Nat.exists_eq_add_one.mpr (Nat.zero_lt_of_lt hmore)
      exact .link hname hrest hnode (ih (Nat.le_of_succ_le_succ hmore))

/-! ## Directories on the way -/

/-- Parts are followed up to any of them, and then the others. -/
theorem Walks.exists_descends
    {front rest : List Name} {name : Name}
    (h : Walks tree follow links place (front ++ name :: rest) reached dotted) :
    ∃ directory left, Descends tree links place front directory left ∧
      Walks tree follow left directory (name :: rest) reached dotted := by
  generalize hsteps : front ++ name :: rest = steps at h
  -- Where nothing is in front, the derivation itself is what is left.
  induction h generalizing front with
  | stop links place => simp at hsteps
  | @here links place reached others dotted hmore ih =>
      cases front with
      | nil =>
          obtain ⟨rfl, rfl⟩ := List.cons.inj hsteps
          exact ⟨place, links, .stop links place, .here hmore⟩
      | cons first front =>
          obtain ⟨rfl, hfront⟩ := List.cons.inj hsteps
          obtain ⟨directory, left, hdescends, hwalks⟩ := ih hfront
          exact ⟨directory, left, .here hdescends, hwalks⟩
  | @up links place reached others dotted hmore ih =>
      cases front with
      | nil =>
          obtain ⟨rfl, rfl⟩ := List.cons.inj hsteps
          exact ⟨place, links, .stop links place, .up hmore⟩
      | cons first front =>
          obtain ⟨rfl, hfront⟩ := List.cons.inj hsteps
          obtain ⟨directory, left, hdescends, hwalks⟩ := ih hfront
          exact ⟨directory, left, .up hdescends, hwalks⟩
  | @last links place other hname hlast =>
      cases front with
      | nil =>
          obtain ⟨rfl, rfl⟩ := List.cons.inj hsteps
          exact ⟨place, links, .stop links place, .last hname hlast⟩
      | cons first front => simp at hsteps
  | @into links place reached other others dotted hname hrest hnode hmore ih =>
      cases front with
      | nil =>
          obtain ⟨rfl, rfl⟩ := List.cons.inj hsteps
          exact ⟨place, links, .stop links place, .into hname hrest hnode hmore⟩
      | cons first front =>
          obtain ⟨rfl, hfront⟩ := List.cons.inj hsteps
          obtain ⟨directory, left, hdescends, hwalks⟩ := ih hfront
          exact ⟨directory, left, .into hname hnode hdescends, hwalks⟩
  | @link links place reached other others dotted target hname hrest hnode hmore ih =>
      cases front with
      | nil =>
          obtain ⟨rfl, rfl⟩ := List.cons.inj hsteps
          exact ⟨place, links + 1, .stop _ place, .link hname hrest hnode hmore⟩
      | cons first front =>
          obtain ⟨rfl, rfl⟩ := List.cons.inj hsteps
          obtain ⟨directory, left, hdescends, hwalks⟩ := ih (List.append_assoc (stepsOf target) front (name :: rest))
          exact ⟨directory, left, .link hname hnode hdescends, hwalks⟩

namespace Descends

variable {left : Nat}

/-- Parts lead to one directory. -/
theorem unique
    (h : Descends tree links place steps reached left) {other : Place} {otherLeft : Nat}
    (hother : Descends tree links place steps other otherLeft) :
    other = reached ∧ otherLeft = left := by
  induction h with
  | stop => cases hother; exact ⟨rfl, rfl⟩
  | here _ ih =>
      cases hother with
      | here hmore => exact ih hmore
      | into hname | link hname => exact absurd rfl hname.ne_current
  | up _ ih =>
      cases hother with
      | up hmore => exact ih hmore
      | into hname | link hname => exact absurd rfl hname.ne_parent
  | into hname hnode _ ih =>
      cases hother with
      | here => exact absurd rfl hname.ne_current
      | up => exact absurd rfl hname.ne_parent
      | into _ _ hmore => exact ih hmore
      | link _ hlink => rw [hnode] at hlink; cases hlink
  | link hname hnode _ ih =>
      cases hother with
      | here => exact absurd rfl hname.ne_current
      | up => exact absurd rfl hname.ne_parent
      | into _ hdirectory => rw [hnode] at hdirectory; cases hdirectory
      | link _ hlink hmore =>
          obtain rfl : _ = _ := Node.link.inj (Option.some.inj (hnode.symm.trans hlink))
          exact ih hmore

theorem left_le (h : Descends tree links place steps reached left) : left ≤ links := by
  induction h with
  | stop => exact le_rfl
  | here _ ih | up _ ih | into _ _ _ ih => exact ih
  | link _ _ _ ih => exact ih.trans (Nat.le_succ _)

/-- A walk that follows links to the end comes to the directory. -/
theorem walks
    (h : Descends tree links place steps reached left) :
    ∃ dotted, Walks tree true links place steps reached dotted := by
  induction h with
  | stop links place => exact ⟨true, .stop links place⟩
  | here _ ih =>
      obtain ⟨dotted, hmore⟩ := ih
      exact ⟨dotted, .here hmore⟩
  | up _ ih =>
      obtain ⟨dotted, hmore⟩ := ih
      exact ⟨dotted, .up hmore⟩
  | @into links left place reached name rest hname hnode hmore ih =>
      obtain ⟨dotted, hwalks⟩ := ih
      by_cases hrest : rest = []
      · subst hrest
        cases hmore
        exact ⟨false, .last hname fun _ target => by simp [hnode]⟩
      · exact ⟨dotted, .into hname hrest hnode hwalks⟩
  | link hname hnode _ ih =>
      obtain ⟨dotted, hmore⟩ := ih
      exact ⟨dotted, .link hname (Or.inr rfl) hnode hmore⟩

end Descends
end Walking

/-! ## Trees in order -/

/-- A name that an entry may have. -/
structure IsValidName (name : Name) : Prop extends IsFileName name where
  size_le : (String.ofList name).utf8ByteSize ≤ nameLimit

instance (name : Name) : Decidable (IsValidName name) :=
  decidable_of_iff (IsFileName name ∧ (String.ofList name).utf8ByteSize ≤ nameLimit)
    ⟨fun ⟨hname, hsize⟩ => { hname with size_le := hsize }, fun h => ⟨h.toIsFileName, h.size_le⟩⟩

theorem IsValidName.isEntryName
    {name : Name} (h : IsValidName name) :
    IsEntryName name :=
  ⟨h.ne_current, h.ne_parent, h.size_le⟩

/-- Every entry stands in a directory under a name, and relative paths start from a directory. -/
structure Sound (tree : FileTree) : Prop where
  above : ∀ place name node, tree.find? (place ++ [name]) = some node → tree.find? place = some .directory
  named : ∀ place name node, tree.find? (place ++ [name]) = some node → IsValidName name
  current : tree.find? tree.current = some .directory

@[simp] theorem find?_root (tree : FileTree) : tree.find? [] = some .directory := rfl

theorem ne_nil_of_leaf
    {tree : FileTree} {place : Place} (h : tree.find? place ≠ some .directory) :
    place ≠ [] :=
  fun hroot => h (hroot ▸ tree.find?_root)

namespace Sound

variable {tree after : FileTree} {place : Place} {node : Node}

theorem find?_dropLast
    (h : tree.Sound) (hplace : tree.find? place = some .directory) :
    tree.find? place.dropLast = some .directory := by
  rcases List.eq_nil_or_concat' place with rfl | ⟨front, name, rfl⟩
  · exact hplace
  · rw [List.dropLast_concat]
    exact h.above front name _ hplace

theorem find?_startOf
    (hplace : tree.find? place = some .directory) (target : Path) :
    tree.find? (startOf place target) = some .directory := by
  unfold startOf
  split
  · rfl
  · exact hplace

/-- Parts that lead to a directory do so. -/
theorem find?_of_descends
    (h : tree.Sound) {links left : Nat} {steps : List Name} {reached : Place}
    (hplace : tree.find? place = some .directory) (hdescends : Descends tree links place steps reached left) :
    tree.find? reached = some .directory := by
  induction hdescends with
  | stop => exact hplace
  | here _ ih => exact ih hplace
  | up _ ih => exact ih (h.find?_dropLast hplace)
  | into _ hnode _ ih => exact ih hnode
  | link _ _ _ ih => exact ih (find?_startOf hplace _)

/-- A walk that ends in a part that is no name ends in a directory. -/
theorem find?_of_dotted
    (h : tree.Sound) {follow : Bool} {links : Nat} {steps : List Name} {reached : Place} {dotted : Bool}
    (hplace : tree.find? place = some .directory) (hwalks : Walks tree follow links place steps reached dotted)
    (hdotted : dotted = true) :
    tree.find? reached = some .directory := by
  induction hwalks with
  | stop => exact hplace
  | here _ ih => exact ih hplace hdotted
  | up _ ih => exact ih (h.find?_dropLast hplace) hdotted
  | last => cases hdotted
  | into _ _ hnode _ ih => exact ih hnode hdotted
  | link _ _ _ _ ih => exact ih (find?_startOf hplace _) hdotted

/-- At one place, where no directory was, there may come to be a file, or nothing. -/
theorem of_change
    (h : tree.Sound) (hsame : ∀ other, other ≠ place → after.find? other = tree.find? other)
    (hcurrent : after.current = tree.current) (hleaf : tree.find? place ≠ some .directory)
    (hnew : ∀ node, after.find? place = some node → ∃ directory name, place = directory ++ [name] ∧
      tree.find? directory = some .directory ∧ IsValidName name) :
    after.Sound := by
  -- What stood in a directory still stands in one.
  have hkept {other : Place} (hother : tree.find? other = some .directory) :
      after.find? other = some .directory := by
    rw [hsame other fun hplace => hleaf (hplace ▸ hother), hother]
  have hentry (other : Place) (name : Name) (node : Node) (hnode : after.find? (other ++ [name]) = some node) :
      tree.find? other = some .directory ∧ IsValidName name := by
    by_cases hplace : other ++ [name] = place
    · obtain ⟨directory, last, hlast, hdirectory, hname⟩ := hnew node (hplace ▸ hnode)
      obtain ⟨rfl, hnames⟩ := List.append_inj' (hplace.trans hlast) rfl
      obtain rfl := List.singleton_inj.mp hnames
      exact ⟨hdirectory, hname⟩
    · rw [hsame _ hplace] at hnode
      exact ⟨h.above other name node hnode, h.named other name node hnode⟩
  exact {
    above := fun other name node hnode => hkept (hentry other name node hnode).1
    named := fun other name node hnode => (hentry other name node hnode).2
    current := by
      rw [hcurrent]
      exact hkept h.current }

theorem erase
    (h : tree.Sound) (hleaf : tree.find? place ≠ some .directory) :
    (tree.erase place).Sound := by
  refine h.of_change (fun _ hother => tree.find?_erase_of_ne hother) rfl hleaf fun node hnode => ?_
  rw [tree.find?_erase_self (ne_nil_of_leaf hleaf)] at hnode
  cases hnode

/-- A new entry in a directory, where no directory was. -/
theorem insert
    (h : tree.Sound) {directory : Place} {name : Name} (hdirectory : tree.find? directory = some .directory)
    (hname : IsValidName name) (hleaf : tree.find? (directory ++ [name]) ≠ some .directory) (node : Node) :
    (tree.insert (directory ++ [name]) node).Sound :=
  h.of_change (fun _ hother => tree.find?_insert_of_ne hother node) rfl hleaf fun _ _ =>
    ⟨directory, name, rfl, hdirectory, hname⟩

theorem empty : Sound {} where
  above := fun place name node hnode => by simp [find?, nodeAt] at hnode
  named := fun place name node hnode => by simp [find?, nodeAt] at hnode
  current := rfl

end Sound

/-! ## Entries that vanish -/

/-- Every directory and every link was there before. -/
structure Narrows (before after : FileTree) : Prop where
  current_eq : after.current = before.current
  directory : ∀ place, after.find? place = some .directory → before.find? place = some .directory
  link : ∀ place target, after.find? place = some (.link target) → before.find? place = some (.link target)

/-- Every entry was there before. -/
structure Thins (before after : FileTree) : Prop where
  current_eq : after.current = before.current
  entry : ∀ place node, after.find? place = some node → before.find? place = some node

section Vanishing

variable {before between after : FileTree} {links left : Nat} {place reached : Place} {steps : List Name}

theorem Narrows.refl (tree : FileTree) : tree.Narrows tree :=
  ⟨rfl, fun _ => id, fun _ _ => id⟩

theorem Narrows.trans
    (hfirst : before.Narrows between) (hsecond : between.Narrows after) :
    before.Narrows after where
  current_eq := hsecond.current_eq.trans hfirst.current_eq
  directory := fun place h => hfirst.directory place (hsecond.directory place h)
  link := fun place target h => hfirst.link place target (hsecond.link place target h)

theorem Thins.refl (tree : FileTree) : tree.Thins tree :=
  ⟨rfl, fun _ _ => id⟩

theorem Thins.trans
    (hfirst : before.Thins between) (hsecond : between.Thins after) :
    before.Thins after where
  current_eq := hsecond.current_eq.trans hfirst.current_eq
  entry := fun place node h => hfirst.entry place node (hsecond.entry place node h)

theorem Thins.narrows (h : before.Thins after) : before.Narrows after where
  current_eq := h.current_eq
  directory := fun place => h.entry place _
  link := fun place _ => h.entry place _

theorem thins_erase (tree : FileTree) (place : Place) : tree.Thins (tree.erase place) := by
  refine ⟨rfl, fun other node hnode => ?_⟩
  by_cases hplace : other = place
  · subst hplace
    by_cases hroot : other = []
    · subst hroot
      exact hnode
    · rw [tree.find?_erase_self hroot] at hnode
      cases hnode
  · rwa [tree.find?_erase_of_ne hplace] at hnode

/-- At one place there may come to be a file. -/
theorem Narrows.of_file
    (hcurrent : after.current = before.current)
    (hsame : ∀ other, other ≠ place → after.find? other = before.find? other)
    (hfile : (after.find? place).any Node.isFile = true) :
    before.Narrows after := by
  have hother {other : Place} {node : Node} (hnode : after.find? other = some node) (hplain : node.isFile = false) :
      before.find? other = some node := by
    rw [← hsame other, hnode]
    rintro rfl
    rw [hnode, Option.any_some, hplain] at hfile
    cases hfile
  exact ⟨hcurrent, fun _ h => hother h rfl, fun _ _ h => hother h rfl⟩

/-- Where directories and links have only vanished, parts lead to where they led before. -/
theorem Descends.of_narrows
    (hnarrows : before.Narrows after) (h : Descends after links place steps reached left) :
    Descends before links place steps reached left := by
  induction h with
  | stop links place => exact .stop links place
  | here _ ih => exact .here ih
  | up _ ih => exact .up ih
  | into hname hnode _ ih => exact .into hname (hnarrows.directory _ hnode) ih
  | link hname hnode _ ih => exact .link hname (hnarrows.link _ _ hnode) ih

/-- So does a walk that ends in a part that is no name, or that follows no link at its end. -/
theorem Walks.of_narrows
    {follow dotted : Bool} (hnarrows : before.Narrows after)
    (h : Walks after follow links place steps reached dotted) (hend : dotted = true ∨ follow = false) :
    Walks before follow links place steps reached dotted := by
  induction h with
  | stop links place => exact .stop links place
  | here _ ih => exact .here (ih hend)
  | up _ ih => exact .up (ih hend)
  | last hname _ => exact .last hname fun hfollow => by simp [hfollow] at hend
  | into hname hrest hnode _ ih => exact .into hname hrest (hnarrows.directory _ hnode) (ih hend)
  | link hname hrest hnode _ ih => exact .link hname hrest (hnarrows.link _ _ hnode) (ih hend)

/-- Where entries have only vanished, an entry that is found was found before. -/
theorem Walks.of_thins
    {follow dotted : Bool} (hthins : before.Thins after)
    (h : Walks after follow links place steps reached dotted) (hfound : (after.find? reached).isSome = true) :
    Walks before follow links place steps reached dotted := by
  induction h with
  | stop links place => exact .stop links place
  | here _ ih => exact .here (ih hfound)
  | up _ ih => exact .up (ih hfound)
  | last hname hlast =>
      refine .last hname fun hfollow target htarget => ?_
      obtain ⟨node, hnode⟩ := Option.isSome_iff_exists.mp hfound
      have hbefore := hthins.entry _ _ hnode
      rw [htarget] at hbefore
      exact hlast hfollow target (hnode.trans hbefore.symm)
  | into hname hrest hnode _ ih => exact .into hname hrest (hthins.entry _ _ hnode) (ih hfound)
  | link hname hrest hnode _ ih => exact .link hname hrest (hthins.entry _ _ hnode) (ih hfound)

end Vanishing
end FileTree
end CompilerRelay
