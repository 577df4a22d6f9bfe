import CompilerRelay.Proofs.ReachingPaths
import CompilerRelay.Proofs.WalkedFiles
import Mathlib.Data.List.Lex
import Mathlib.Data.List.Nodup

/-!
# The order of a walk

**Input.**  A tree in order in which every entry is listed once, and a path that leads to a directory.

**Form.**  `FileTree.namesBelow`: the files below a place, each by the names from the place down to it.
`FileTree.ComesBefore`: where two ways down part, the name on the first is sorted before that on the second.

**Algorithm.**  A walk goes through the sorted names of a directory and down into each.  It ends, since no way down is
longer than the list of entries, and it fails only at a directory whose path is too long.

**Results.**
* `FileTree.filesBelow_eq_ok_iff`: when a walk succeeds, and the paths that it yields then.
* `FileTree.mem_namesBelow`: the names that it comes to are those of the files, and no others.
* `FileTree.pairwise_namesBelow`: it comes to them in order.
* `FileTree.eq_of_pairwise_comesBefore`: no other list has the same names in order.
-/

namespace CompilerRelay

namespace Path

/-- Names are sorted as lists of numbers are. -/
theorem numbersAtMost_iff (first second : List Nat) : numbersAtMost first second = true ↔ first ≤ second := by
  rw [← not_lt]
  induction first generalizing second with
  | nil => simp [numbersAtMost]
  | cons number numbers ih =>
      cases second with
      | nil => simp [numbersAtMost]
      | cons other others =>
          rw [numbersAtMost, List.cons_lt_cons_iff]
          split
          · next hsame => simp [hsame, ih]
          · next hother => simp [Ne.symm hother, lt_iff_le_and_ne, hother]

end Path

namespace FileTree

/-! ## The order of names -/

theorem nameAtMost_total (first second : Name) : (nameAtMost first second || nameAtMost second first) = true := by
  rw [Bool.or_eq_true]
  exact (le_total _ _).imp (Path.numbersAtMost_iff _ _).mpr (Path.numbersAtMost_iff _ _).mpr

theorem nameAtMost_trans
    {first second third : Name} (hfirst : nameAtMost first second = true) (hsecond : nameAtMost second third = true) :
    nameAtMost first third = true :=
  (Path.numbersAtMost_iff _ _).mpr
    (((Path.numbersAtMost_iff _ _).mp hfirst).trans ((Path.numbersAtMost_iff _ _).mp hsecond))

theorem nameAtMost_antisymm
    {first second : Name} (hfirst : nameAtMost first second = true) (hsecond : nameAtMost second first = true) :
    first = second :=
  List.map_injective_iff.mpr (fun _ _ h => Char.toNat_inj.mp h)
    (((Path.numbersAtMost_iff _ _).mp hfirst).antisymm ((Path.numbersAtMost_iff _ _).mp hsecond))

/-- Where two ways down part, the name on the first is sorted before that on the second. -/
def ComesBefore (first second : List Name) : Prop :=
  ∃ (common : List Name) (name other : Name) (rest more : List Name),
    first = common ++ name :: rest ∧ second = common ++ other :: more ∧ nameAtMost name other = true ∧ name ≠ other

theorem ComesBefore.cons
    {first second : List Name} (h : ComesBefore first second) (name : Name) :
    ComesBefore (name :: first) (name :: second) := by
  obtain ⟨common, left, right, rest, more, rfl, rfl, hatMost, hne⟩ := h
  exact ⟨name :: common, left, right, rest, more, rfl, rfl, hatMost, hne⟩

/-- Ways down are in one order only. -/
theorem ComesBefore.asymm
    {first second : List Name} (h : ComesBefore first second) :
    ¬ ComesBefore second first := by
  obtain ⟨common, name, other, rest, more, rfl, rfl, hatMost, hne⟩ := h
  rintro ⟨shared, left, right, below, further, hsecond, hfirst, hback, hdiffer⟩
  induction common generalizing shared with
  | nil =>
      cases shared with
      | nil =>
          obtain ⟨rfl, -⟩ := List.cons.inj hsecond
          obtain ⟨rfl, -⟩ := List.cons.inj hfirst
          exact hne (nameAtMost_antisymm hatMost hback)
      | cons head shared => exact hne ((List.cons.inj hfirst).1.trans (List.cons.inj hsecond).1.symm)
  | cons head common ih =>
      cases shared with
      | nil =>
          obtain ⟨rfl, -⟩ := List.cons.inj hsecond
          exact hdiffer (List.cons.inj hfirst).1
      | cons other shared => exact ih shared (List.cons.inj hsecond).2 (List.cons.inj hfirst).2

theorem nodup_of_pairwise_comesBefore {list : List (List Name)} (h : list.Pairwise ComesBefore) : list.Nodup :=
  h.imp fun {_ _} hbefore hsame => by
    subst hsame
    exact hbefore.asymm hbefore

/-- No two lists have the same names in order. -/
theorem eq_of_pairwise_comesBefore
    {first second : List (List Name)} (hfirst : first.Pairwise ComesBefore) (hsecond : second.Pairwise ComesBefore)
    (hmem : ∀ names, names ∈ first ↔ names ∈ second) :
    first = second := by
  have hperm : first.Perm second :=
    (List.perm_ext_iff_of_nodup (nodup_of_pairwise_comesBefore hfirst) (nodup_of_pairwise_comesBefore hsecond)).mpr hmem
  exact hperm.eq_of_pairwise (fun _ _ _ _ hbefore hback => absurd hback hbefore.asymm) hfirst hsecond

/-! ## Every entry once -/

/-- A tree in order in which no entry is listed twice. -/
structure Proper (tree : FileTree) : Prop extends Sound tree where
  distinct : (tree.nodes.map Prod.fst).Nodup

section Distinct

variable {tree after : FileTree}

theorem map_fst_insertInto (place : Place) (node : Node) (nodes : List (Place × Node)) :
    (insertInto place node nodes).map Prod.fst =
      if place ∈ nodes.map Prod.fst then nodes.map Prod.fst else nodes.map Prod.fst ++ [place] := by
  induction nodes with
  | nil => rfl
  | cons entry rest ih =>
      by_cases hsame : entry.1 = place
      · simp [insertInto, hsame]
      · rw [insertInto, if_neg hsame, List.map_cons, ih]
        by_cases hmem : place ∈ rest.map Prod.fst <;> simp [hmem, Ne.symm hsame]

theorem distinct_insert
    (h : (tree.nodes.map Prod.fst).Nodup) (place : Place) (node : Node) :
    ((tree.insert place node).nodes.map Prod.fst).Nodup := by
  rw [insert, map_fst_insertInto]
  split
  · exact h
  · next hmem =>
      refine List.nodup_append.mpr ⟨h, List.nodup_singleton place, fun first hfirst second hsecond hsame => ?_⟩
      exact hmem (List.mem_singleton.mp hsecond ▸ hsame ▸ hfirst)

theorem distinct_erase
    (h : (tree.nodes.map Prod.fst).Nodup) (place : Place) :
    ((tree.erase place).nodes.map Prod.fst).Nodup :=
  h.sublist (List.filter_sublist.map Prod.fst)

end Distinct

/-! ## What a walk comes to -/

/-- The files at and below a place, so many levels deep, each by the names down to it. -/
def namesAt (tree : FileTree) : Nat → Place → List (List Name)
  | 0, _ => []
  | levels + 1, place =>
      match tree.find? place with
      | some (.file _ _ _) => [[]]
      | some .directory =>
          (tree.sortedChildren place).flatMap fun name => (namesAt tree levels (place ++ [name])).map (name :: ·)
      | _ => []

section Walking

variable {tree : FileTree} {levels : Nat} {place : Place} {path : Path}

theorem mem_sortedChildren_iff
    {name : Name} : name ∈ tree.sortedChildren place ↔ (tree.find? (place ++ [name])).isSome = true := by
  rw [mem_sortedChildren, mem_children]
  constructor
  · rintro ⟨node, hmem⟩
    obtain ⟨found, hfound⟩ := exists_nodeAt_of_mem hmem
    simp [find?, hfound]
  · intro h
    have hlisted {nodes : List (Place × Node)} (hfound : (nodeAt (place ++ [name]) nodes).isSome = true) :
        ∃ node, (place ++ [name], node) ∈ nodes := by
      induction nodes with
      | nil => cases hfound
      | cons entry rest ih =>
          by_cases hsame : entry.1 = place ++ [name]
          · exact ⟨entry.2, by simp [← hsame]⟩
          · rw [nodeAt, if_neg hsame] at hfound
            obtain ⟨node, hmem⟩ := ih hfound
            exact ⟨node, List.mem_cons_of_mem _ hmem⟩
    exact hlisted (by simpa [find?] using h)

/-- What is above an entry is there. -/
theorem Sound.isSome_of_append
    (hsound : tree.Sound) {names rest : List Name} (h : (tree.find? (place ++ (names ++ rest))).isSome = true) :
    (tree.find? (place ++ names)).isSome = true := by
  induction rest using List.reverseRecOn with
  | nil => simpa using h
  | append_singleton rest name ih =>
      obtain ⟨node, hnode⟩ := Option.isSome_iff_exists.mp h
      refine ih ?_
      rw [← List.append_assoc, ← List.append_assoc] at hnode
      rw [← List.append_assoc, hsound.above _ name node hnode]
      rfl

/-- No way down is longer than the list of entries. -/
theorem Sound.length_le
    (hsound : tree.Sound) {names : List Name} (h : (tree.find? (place ++ names)).isSome = true) :
    names.length ≤ tree.nodes.length := by
  -- The places on the way are all listed, and no two of them are the same.
  have hplaces : ((List.range names.length).map fun depth => place ++ names.take (depth + 1)).Nodup := by
    refine List.Nodup.map_on (fun first hfirst second hsecond hsame => ?_) List.nodup_range
    have hlengths := congrArg List.length hsame
    simp only [List.length_append, List.length_take, List.mem_range] at hfirst hsecond hlengths
    omega
  have hlisted : (List.range names.length).map (fun depth => place ++ names.take (depth + 1)) ⊆
      tree.nodes.map Prod.fst := by
    intro other hother
    obtain ⟨depth, hdepth, rfl⟩ := List.mem_map.mp hother
    rw [List.mem_range] at hdepth
    have hwhole : (tree.find? (place ++ (names.take (depth + 1) ++ names.drop (depth + 1)))).isSome = true := by
      rwa [List.take_append_drop]
    have hsome := hsound.isSome_of_append hwhole
    have hlast : names.take (depth + 1) = names.take depth ++ [names[depth]] := (List.take_append_getElem hdepth).symm
    rw [hlast, ← List.append_assoc] at hsome
    obtain ⟨node, hmem⟩ := mem_children.mp (mem_sortedChildren.mp (mem_sortedChildren_iff.mpr hsome))
    rw [hlast, ← List.append_assoc]
    exact List.mem_map.mpr ⟨_, hmem, rfl⟩
  simpa using (List.subperm_of_subset hplaces hlisted).length_le

/-- What is on the way to an entry. -/
theorem Sound.directory_of_cons
    (hsound : tree.Sound) {name : Name} {names : List Name} (h : (tree.find? (place ++ name :: names)).isSome = true) :
    tree.find? place = some .directory ∧ name ∈ tree.sortedChildren place := by
  have hwhole : (tree.find? (place ++ ([name] ++ names))).isSome = true := h
  have hchild := hsound.isSome_of_append hwhole
  obtain ⟨node, hnode⟩ := Option.isSome_iff_exists.mp hchild
  exact ⟨hsound.above place name node hnode, mem_sortedChildren_iff.mpr hchild⟩

/-- The names that a walk comes to are those of the files. -/
theorem mem_namesAt
    (hsound : tree.Sound) {names : List Name} :
    names ∈ tree.namesAt levels place ↔
      names.length < levels ∧ (tree.find? (place ++ names)).any Node.isFile = true := by
  induction levels generalizing place names with
  | zero => simp [namesAt]
  | succ levels ih =>
      -- Only a directory has something below it.
      have hbelow {name : Name} {rest : List Name}
          (hfile : (tree.find? (place ++ name :: rest)).any Node.isFile = true) :
          tree.find? place = some .directory ∧ name ∈ tree.sortedChildren place :=
        hsound.directory_of_cons (Option.isSome_of_any hfile)
      unfold namesAt
      split
      · next id content executable hnode =>
          cases names with
          | nil => simp [hnode, Node.isFile]
          | cons name rest =>
              refine iff_of_false (by simp) fun h => ?_
              rw [(hbelow h.2).1] at hnode
              cases hnode
      · next hnode =>
          cases names with
          | nil => simp [hnode, Node.isFile]
          | cons name rest =>
              simp only [List.mem_flatMap, List.mem_map, List.cons.injEq, ih, List.append_assoc, List.singleton_append]
              constructor
              · rintro ⟨_, -, _, ⟨hlength, hfile⟩, rfl, rfl⟩
                exact ⟨Nat.succ_lt_succ hlength, hfile⟩
              · rintro ⟨hlength, hfile⟩
                exact ⟨name, (hbelow hfile).2, rest, ⟨Nat.lt_of_succ_lt_succ hlength, hfile⟩, rfl, rfl⟩
      · next hfile hdirectory =>
          refine iff_of_false List.not_mem_nil fun h => ?_
          cases names with
          | nil =>
              rw [List.append_nil] at h
              cases hnode : tree.find? place with
              | none => simp [hnode] at h
              | some node =>
                  cases node with
                  | file id content executable => exact hfile id content executable hnode
                  | directory | link | device => simp [hnode, Node.isFile] at h
          | cons name rest => exact hdirectory (hbelow h.2).1

/-- The names in a directory are sorted, each once. -/
theorem pairwise_sortedChildren
    (hdistinct : (tree.nodes.map Prod.fst).Nodup) (place : Place) :
    (tree.sortedChildren place).Pairwise fun name other => nameAtMost name other = true ∧ name ≠ other := by
  have htrans (first second third : Name) (hfirst : nameAtMost first second = true)
      (hsecond : nameAtMost second third = true) : nameAtMost first third = true :=
    nameAtMost_trans hfirst hsecond
  have hsorted := List.pairwise_mergeSort htrans nameAtMost_total (tree.children place)
  have hchildren : tree.children place = (tree.nodes.map Prod.fst).filterMap (childName? place) := by
    rw [children, List.filterMap_map]
    rfl
  have honce : (tree.children place).Nodup := by
    rw [hchildren]
    refine hdistinct.filterMap fun first second name hfirst hsecond => ?_
    have hplace {other : Place} (hother : name ∈ childName? place other) : other = place ++ [name] := by
      unfold childName? at hother
      split at hother
      · next habove =>
          obtain ⟨front, rfl⟩ := List.getLast?_eq_some_iff.mp hother
          rw [← habove, List.dropLast_concat]
      · cases hother
    rw [hplace hfirst, hplace hsecond]
  exact hsorted.and ((List.mergeSort_perm _ _).nodup_iff.mpr honce)

/-- A walk comes to the files in order. -/
theorem pairwise_namesAt
    (hdistinct : (tree.nodes.map Prod.fst).Nodup) (levels : Nat) (place : Place) :
    (tree.namesAt levels place).Pairwise ComesBefore := by
  induction levels generalizing place with
  | zero => exact .nil
  | succ levels ih =>
      unfold namesAt
      split
      · exact List.pairwise_singleton _ _
      · refine List.pairwise_flatMap.mpr ⟨fun name _ => ?_, ?_⟩
        · exact (ih _).map _ fun _ _ hbefore => hbefore.cons name
        · refine (pairwise_sortedChildren hdistinct place).imp fun {name other} hnames first hfirst second hsecond => ?_
          obtain ⟨rest, -, rfl⟩ := List.mem_map.mp hfirst
          obtain ⟨more, -, rfl⟩ := List.mem_map.mp hsecond
          exact ⟨[], name, other, rest, more, rfl, rfl, hnames⟩
      · exact .nil

/-! ## When a walk succeeds -/

theorem mapM_eq_ok_iff
    {α β ε : Type} {work : α → Except ε β} {good : α → Prop} {value : α → β}
    (hwork : ∀ item result, work item = .ok result ↔ good item ∧ result = value item) {items : List α}
    {results : List β} :
    items.mapM work = .ok results ↔ (∀ item ∈ items, good item) ∧ results = items.map value := by
  induction items generalizing results with
  | nil => simp [pure, Except.pure, eq_comm]
  | cons first rest ih =>
      rw [List.mapM_cons, List.forall_mem_cons, List.map_cons]
      cases hfirst : work first with
      | error fault =>
          refine iff_of_false (fun h => by cases h) fun h => ?_
          have hok := (hwork first _).mpr ⟨h.1.1, rfl⟩
          rw [hfirst] at hok
          cases hok
      | ok one =>
          obtain ⟨hgood, rfl⟩ := (hwork first one).mp hfirst
          cases hrest : rest.mapM work with
          | error fault =>
              refine iff_of_false (fun h => by cases h) fun h => ?_
              have hok := ih.mpr ⟨h.1.2, rfl⟩
              rw [hrest] at hok
              cases hok
          | ok others =>
              obtain ⟨hothers, rfl⟩ := ih.mp hrest
              change Except.ok (value first :: rest.map value) = .ok results ↔ _
              rw [Except.ok.injEq]
              exact ⟨fun h => ⟨⟨hgood, hothers⟩, h.symm⟩, fun h => h.2.symm⟩

/-- A walk that does not begin in a directory succeeds. -/
theorem filesAt_of_leaf
    (hleaf : tree.find? place ≠ some .directory) (levels : Nat) (path : Path) :
    tree.filesAt levels place path = .ok ((tree.namesAt levels place).map path.below) := by
  cases levels with
  | zero => rfl
  | succ levels =>
      unfold filesAt namesAt
      cases hnode : tree.find? place with
      | none => rfl
      | some node =>
          cases node with
          | directory => exact absurd hnode hleaf
          | file | link | device => rfl

/-- A walk that begins in a directory goes through its entries. -/
theorem filesAt_succ_eq_ok_iff
    (hdirectory : tree.find? place = some .directory) {files : List Path} :
    tree.filesAt (levels + 1) place path = .ok files ↔
      path.text.utf8ByteSize < pathLimit ∧ ∃ lists,
        ((tree.sortedChildren place).mapM fun name =>
          tree.filesAt levels (place ++ [name]) (path.join ⟨String.ofList name⟩)) = .ok lists ∧
        files = lists.flatten := by
  simp only [filesAt, hdirectory]
  split
  · next hlong => simp [Nat.not_lt_of_le hlong]
  · next hopen =>
      cases hlists : (tree.sortedChildren place).mapM fun name =>
          tree.filesAt levels (place ++ [name]) (path.join ⟨String.ofList name⟩) with
      | error fault => simp [Except.map]
      | ok lists => simp [Except.map, Nat.lt_of_not_le hopen, eq_comm]

/-- So many levels deep, the paths of all directories must be open, and those of the files are yielded. -/
theorem filesAt_eq_ok_iff
    (hsound : tree.Sound) {files : List Path} :
    tree.filesAt levels place path = .ok files ↔
      (∀ names, names.length < levels → tree.find? (place ++ names) = some .directory →
        (path.below names).text.utf8ByteSize < pathLimit) ∧
      files = (tree.namesAt levels place).map path.below := by
  induction levels generalizing place path files with
  | zero => simp [filesAt, namesAt, eq_comm]
  | succ levels ih =>
      have hlisted {name : Name} {rest : List Name} (hnode : tree.find? (place ++ name :: rest) = some .directory) :
          tree.find? place = some .directory ∧ name ∈ tree.sortedChildren place :=
        hsound.directory_of_cons (by rw [hnode]; rfl)
      by_cases hdirectory : tree.find? place = some .directory
      · -- Below each entry the names go on from that of the entry.
        have hbelow (name : Name) (list : List Path) :
            tree.filesAt levels (place ++ [name]) (path.join ⟨String.ofList name⟩) = .ok list ↔
              (∀ rest, rest.length < levels → tree.find? (place ++ name :: rest) = some .directory →
                (path.below (name :: rest)).text.utf8ByteSize < pathLimit) ∧
              list = (tree.namesAt levels (place ++ [name])).map fun rest => path.below (name :: rest) := by
          rw [ih]
          simp only [List.append_assoc, List.singleton_append]
          rfl
        have hnames : (tree.namesAt (levels + 1) place).map path.below = ((tree.sortedChildren place).map fun name =>
            (tree.namesAt levels (place ++ [name])).map fun rest => path.below (name :: rest)).flatten := by
          simp only [namesAt, hdirectory, List.flatMap_def, List.map_flatten, List.map_map]
          congr 2
          funext name
          simp only [Function.comp_apply, List.map_map]
          rfl
        simp only [filesAt_succ_eq_ok_iff hdirectory, mapM_eq_ok_iff hbelow, hnames]
        constructor
        · rintro ⟨hopen, lists, ⟨hshort, rfl⟩, rfl⟩
          refine ⟨fun names hlength hnode => ?_, rfl⟩
          cases names with
          | nil => exact hopen
          | cons name rest => exact hshort name (hlisted hnode).2 rest (Nat.lt_of_succ_lt_succ hlength) hnode
        · rintro ⟨hshort, rfl⟩
          have hopen := hshort [] (Nat.zero_lt_succ levels) (by rwa [List.append_nil])
          refine ⟨hopen, _, ⟨fun name _ rest hlength hnode => ?_, rfl⟩, rfl⟩
          exact hshort (name :: rest) (Nat.succ_lt_succ hlength) hnode
      · rw [filesAt_of_leaf hdirectory, Except.ok.injEq, eq_comm, iff_and_self]
        rintro - names - hbelow
        cases names with
        | nil => exact absurd (by simpa using hbelow) hdirectory
        | cons name rest => exact absurd (hlisted hbelow).1 hdirectory

/-! ## Everything below a place -/

/-- The files below a place, each by the names down to it. -/
def namesBelow (tree : FileTree) (place : Place) : List (List Name) :=
  tree.namesAt (tree.nodes.length + 1) place

theorem mem_namesBelow
    (hsound : tree.Sound) {names : List Name} :
    names ∈ tree.namesBelow place ↔ (tree.find? (place ++ names)).any Node.isFile = true := by
  rw [namesBelow, mem_namesAt hsound, and_iff_right_iff_imp]
  intro hfile
  exact Nat.lt_succ_of_le (hsound.length_le (Option.isSome_of_any hfile))

theorem pairwise_namesBelow
    (h : tree.Proper) (place : Place) :
    (tree.namesBelow place).Pairwise ComesBefore :=
  pairwise_namesAt h.distinct _ place

/-- A walk succeeds when the paths of all directories can be opened, and yields the paths of the files. -/
theorem filesBelow_eq_ok_iff
    (hsound : tree.Sound) {spot : Spot} (hlocate : tree.locate true path = .ok spot) {files : List Path} :
    tree.filesBelow path = .ok files ↔
      (∀ names, tree.find? (spot.place ++ names) = some .directory →
        (path.below names).text.utf8ByteSize < pathLimit) ∧
      files = (tree.namesBelow spot.place).map path.below := by
  rw [filesBelow, hlocate]
  simp only [filesAt_eq_ok_iff hsound, namesBelow]
  refine and_congr_left fun _ => forall_congr' fun names => ⟨fun hshort hnode => ?_, fun hshort _ => hshort⟩
  exact hshort (Nat.lt_succ_of_le (hsound.length_le (by rw [hnode]; rfl))) hnode

end Walking
end FileTree
end CompilerRelay
