import CompilerRelay.FileTree.Walk
import CompilerRelay.Proofs.SiblingPaths

/-!
# Files that a walk comes to

**Input.**  A tree in order and a path that leads to a directory.

**Algorithm.**  A walk appends the name of every entry to the path of the directory that the entry stands in.

**Results.**
* `FileTree.walked_of_mem_filesBelow`: each path that a walk yields leads to a file, by the directory that the file
  stands in.
-/

namespace CompilerRelay
namespace FileTree

theorem exists_mem_of_mapM
    {α β ε : Type} {work : α → Except ε β} {items : List α} {results : List β} (h : items.mapM work = .ok results)
    {result : β} (hmem : result ∈ results) :
    ∃ item ∈ items, work item = .ok result := by
  induction items generalizing results with
  | nil =>
      obtain rfl := Except.ok.inj h
      cases hmem
  | cons first rest ih =>
      rw [List.mapM_cons] at h
      cases hfirst : work first with
      | error fault => rw [hfirst] at h; cases h
      | ok value =>
          cases hrest : rest.mapM work with
          | error fault => rw [hfirst, hrest] at h; cases h
          | ok values =>
              rw [hfirst, hrest] at h
              obtain rfl := Except.ok.inj h
              rcases List.mem_cons.mp hmem with rfl | hvalues
              · exact ⟨first, List.mem_cons_self, hfirst⟩
              · obtain ⟨item, hitem, hwork⟩ := ih hrest hvalues
                exact ⟨item, List.mem_cons_of_mem _ hitem, hwork⟩

theorem exists_nodeAt_of_mem
    {place : Place} {node : Node} {nodes : List (Place × Node)} (h : (place, node) ∈ nodes) :
    ∃ found, nodeAt place nodes = some found := by
  induction nodes with
  | nil => cases h
  | cons entry rest ih =>
      by_cases hplace : entry.1 = place
      · exact ⟨entry.2, by rw [nodeAt, if_pos hplace]⟩
      · rw [nodeAt, if_neg hplace]
        exact ih ((List.mem_cons.mp h).resolve_left fun hsame => hplace (hsame ▸ rfl))

theorem exists_find?_of_child
    {tree : FileTree} {place : Place} {name : Name} (h : name ∈ tree.sortedChildren place) :
    ∃ node, tree.find? (place ++ [name]) = some node := by
  obtain ⟨node, hmem⟩ := mem_children.mp (mem_sortedChildren.mp h)
  simpa [find?] using exists_nodeAt_of_mem hmem

/-- A file in a directory, by a path that leads to the directory and the name of the file. -/
inductive Walked (tree : FileTree) : Path → Prop
  | entry {path : Path} {directory : Place} {name : Name} (hleads : tree.Leads path directory)
      (hname : IsValidName name) (hfile : (tree.find? (directory ++ [name])).any Node.isFile = true) :
      Walked tree (path.join ⟨String.ofList name⟩)

/-- What a walk yields in a directory it yields at one of the entries. -/
theorem exists_child_of_mem_filesAt
    {tree : FileTree} {levels : Nat} {place : Place} {path : Path} {files : List Path}
    (hdirectory : tree.find? place = some .directory) (h : tree.filesAt (levels + 1) place path = .ok files)
    {file : Path} (hmem : file ∈ files) :
    ∃ name node list, tree.find? (place ++ [name]) = some node ∧
      tree.filesAt levels (place ++ [name]) (path.join ⟨String.ofList name⟩) = .ok list ∧ file ∈ list := by
  simp only [filesAt, hdirectory] at h
  split at h
  · cases h
  · cases hlists : (tree.sortedChildren place).mapM fun name =>
        tree.filesAt levels (place ++ [name]) (path.join ⟨String.ofList name⟩) with
    | error fault => rw [hlists] at h; cases h
    | ok lists =>
        rw [hlists] at h
        obtain rfl := Except.ok.inj h
        obtain ⟨list, hlist, hfile⟩ := List.mem_flatten.mp hmem
        obtain ⟨name, hchild, hbelow⟩ := exists_mem_of_mapM hlists hlist
        obtain ⟨node, hnode⟩ := exists_find?_of_child hchild
        exact ⟨name, node, list, hnode, hbelow, hfile⟩

theorem walked_of_mem_filesAt
    {tree : FileTree} (hsound : tree.Sound) {levels : Nat} {place : Place} {path : Path} {files : List Path}
    (hleads : tree.Leads path place) (hdirectory : tree.find? place = some .directory)
    (h : tree.filesAt levels place path = .ok files) :
    ∀ file ∈ files, tree.Walked file := by
  induction levels generalizing place path files with
  | zero =>
      obtain rfl := Except.ok.inj h
      exact List.forall_mem_nil _
  | succ levels ih =>
      intro file hmem
      obtain ⟨name, node, list, hnode, hbelow, hfile⟩ := exists_child_of_mem_filesAt hdirectory h hmem
      have hname := hsound.named place name node hnode
      cases node with
      | directory => exact ih (hleads.join hname.toIsFileName hnode) hnode hbelow file hfile
      | file id content executable =>
          cases levels with
          | zero =>
              obtain rfl := Except.ok.inj hbelow
              cases hfile
          | succ levels =>
              simp only [filesAt, hnode, Except.ok.injEq] at hbelow
              obtain rfl := List.mem_singleton.mp (hbelow ▸ hfile)
              exact .entry hleads hname (by rw [hnode]; rfl)
      | link | device =>
          cases levels <;> simp only [filesAt, hnode, Except.ok.injEq] at hbelow <;>
            exact absurd (hbelow ▸ hfile) List.not_mem_nil

/-- Each path that a walk yields leads to a file, by the directory that the file stands in. -/
theorem walked_of_mem_filesBelow
    {tree : FileTree} (hsound : tree.Sound) {path : Path} {files : List Path}
    (hdirectory : tree.isDirectory path = true) (h : tree.filesBelow path = .ok files) :
    ∀ file ∈ files, tree.Walked file := by
  obtain ⟨spot, hlocate, hnode⟩ := exists_spot_of_isDirectory hdirectory
  rw [filesBelow, hlocate] at h
  exact walked_of_mem_filesAt hsound (leads_of_locate hlocate) hnode h

end FileTree
end CompilerRelay
