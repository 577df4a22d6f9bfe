import CompilerRelay.OutputLog
import CompilerRelay.Proofs.ChangedFiles

/-!
# The file of the log

What the file of the log holds, before it is opened and while lines are copied.

**Form.**  `OutputLog.node?` is what the path of the log leads to, once its directory is made; so it is what enabling opens,
whether the directory is there or not.  `OutputLog.content` is what the file holds.

**Invariant.**  While the log is enabled, it is open at the file that its path leads to (`OutputLog.Holds`).  Copying a
line changes no directory and no link, so the path goes on to lead there.

**Results.**
* `OutputLog.Holds.append`: a line is copied behind what the file holds.
* `OutputLog.holds_enable`: enabling keeps what was there and puts one header behind it.
* `OutputLog.read_of_hasDirectory`: where the directory is there, what the file holds is what is read.
-/

namespace CompilerRelay

section Defs

namespace OutputLog

/-- The directory of the file is there. -/
def HasDirectory (log : OutputLog) (tree : FileTree) : Prop :=
  ∀ parent, log.path.parent? = some parent → parent.text.isEmpty = false → tree.isDirectory parent = true

/-- What the path leads to, once its directory is made. -/
def node? (log : OutputLog) (tree : FileTree) : Option Node :=
  ((log.prepare tree).bind fun ready => ready.status log.path).toOption

/-- What the file holds; nothing if there is none. -/
def content (log : OutputLog) (tree : FileTree) : Bytes :=
  (log.node? tree).elim [] Node.content

/-- The path leads to no device, which would keep nothing of what is written to it. -/
def IsOrdinary (log : OutputLog) (tree : FileTree) : Prop :=
  ∀ device, log.node? tree ≠ some (.device device)

/-- The log is open at the file that its path leads to, and the file holds these bytes. -/
def Holds (log : OutputLog) (tree : FileTree) (bytes : Bytes) : Prop :=
  ∃ id executable, log.handle = some (.file id) ∧ log.node? tree = some (.file id bytes executable)

/-- If the log is enabled, it is open at the file that its path leads to. -/
def AtFile (log : OutputLog) (tree : FileTree) : Prop :=
  log.isEnabled = true → ∃ bytes, log.Holds tree bytes

/-- The file comes to hold more bytes at its end; with any of them it is there. -/
structure Gains (log : OutputLog) (before after : FileTree) (bytes : Bytes) : Prop where
  content_eq : log.content after = log.content before ++ bytes
  any_isFile : bytes ≠ [] ∨ (log.node? before).any Node.isFile = true → (log.node? after).any Node.isFile = true

end OutputLog

end Defs

namespace OutputLog

variable {log other : OutputLog} {tree ready after : FileTree} {bytes : Bytes} {stamp : String}

/-! ## The file of a log -/

theorem prepare_eq_self_of_hasDirectory (h : log.HasDirectory tree) : log.prepare tree = .ok tree := by
  unfold prepare
  cases hparent : log.path.parent? with
  | none => rfl
  | some parent =>
      simp only
      split
      · rfl
      · next hnamed =>
          exact FileTree.makeDirectories_of_isDirectory (h parent hparent (Bool.eq_false_iff.mpr hnamed))

/-- The directory that is made is there. -/
theorem hasDirectory_of_prepare (h : log.prepare tree = .ok ready) : log.HasDirectory ready := by
  intro parent hparent hnamed
  simp only [prepare, hparent, hnamed] at h
  exact FileTree.isDirectory_of_makeDirectories h hnamed

theorem HasDirectory.of_sameWays (h : log.HasDirectory tree) (hways : tree.SameWays after) : log.HasDirectory after :=
  fun parent hparent hnamed => (hways.isDirectory_eq parent).trans (h parent hparent hnamed)

theorem node?_of_prepare (h : log.prepare tree = .ok ready) : log.node? tree = (ready.status log.path).toOption := by
  rw [node?, h]
  rfl

theorem node?_of_hasDirectory (h : log.HasDirectory tree) : log.node? tree = (tree.status log.path).toOption :=
  node?_of_prepare (prepare_eq_self_of_hasDirectory h)

/-- Only the path counts. -/
theorem node?_congr (h : other.path = log.path) (tree : FileTree) : other.node? tree = log.node? tree := by
  simp only [node?, prepare, h]

/-- Where the directory is there, the file is what is read. -/
theorem read_of_hasDirectory
    (h : log.HasDirectory tree) {node : Node} (hnode : log.node? tree = some node) (hfile : node.isFile = true) :
    tree.read log.path = .ok node.content := by
  rw [node?_of_hasDirectory h] at hnode
  cases hstatus : tree.status log.path with
  | error cause =>
      rw [hstatus] at hnode
      cases hnode
  | ok other =>
      rw [hstatus] at hnode
      obtain rfl : other = node := Option.some.inj hnode
      cases other with
      | file => simp [FileTree.read, hstatus, bind, Except.bind, pure, Except.pure, Node.content]
      | directory | link | device => cases hfile

/-! ## Writing to the file -/

section Changes

variable {change : Node → Node}

theorem prepare_changed (hchange : FileTree.OnlyFiles change) (log : OutputLog) (tree : FileTree) :
    log.prepare (tree.changed change) = (log.prepare tree).map (·.changed change) := by
  unfold prepare
  cases log.path.parent? with
  | none => rfl
  | some parent =>
      simp only
      split
      · rfl
      · exact FileTree.makeDirectories_changed hchange tree parent

theorem node?_changed (hchange : FileTree.OnlyFiles change) (log : OutputLog) (tree : FileTree) :
    log.node? (tree.changed change) = (log.node? tree).map change := by
  unfold node?
  rw [prepare_changed hchange]
  cases log.prepare tree with
  | error cause => rfl
  | ok ready =>
      simp only [Except.map, Except.bind, FileTree.status_changed hchange]
      cases ready.status log.path <;> rfl

end Changes

/-- What is written to the file stands at its end. -/
theorem node?_append
    {id : Nat} {executable : Bool} (h : log.node? tree = some (.file id bytes executable)) (more : Bytes) :
    log.node? (tree.changed (FileTree.appendTo id more)) = some (.file id (bytes ++ more) executable) := by
  rw [node?_changed (FileTree.onlyFiles_appendTo id more), h]
  simp [FileTree.appendTo]

/-- A line is copied behind what the file holds. -/
theorem Holds.append (h : log.Holds tree bytes) (line : String) :
    (log.append line tree).1 = log ∧ log.Holds (log.append line tree).2 (bytes ++ lineBytes line) := by
  obtain ⟨id, executable, hhandle, hnode⟩ := h
  have happend : log.append line tree = (log, tree.changed (FileTree.appendTo id (lineBytes line))) := by
    simp only [OutputLog.append, hhandle, FileTree.append_file]
  rw [happend]
  exact ⟨rfl, id, executable, hhandle, node?_append hnode (lineBytes line)⟩

/-- What is opened is the file that the path leads to, with what it holds, or a new one. -/
theorem node?_openAppending
    {handle : Handle} (hready : log.HasDirectory ready) (hordinary : log.IsOrdinary ready)
    (h : ready.openAppending log.path = .ok (handle, after)) :
    ∃ id executable, handle = .file id ∧ log.node? after = some (.file id (log.content ready) executable) := by
  have hnode := node?_of_hasDirectory hready
  rcases FileTree.status_openAppending h with ⟨device, hdevice⟩ | ⟨id, executable, rfl, hways, hafter⟩
  · exact absurd (hnode.trans hdevice) (hordinary device)
  · have hdirectory := hready.of_sameWays hways
    refine ⟨id, executable, rfl, ?_⟩
    rw [node?_of_hasDirectory hdirectory, hafter, content, hnode]

/-- To enable the log keeps what the file holds and puts one header behind it. -/
theorem holds_enable
    (hoff : log.isEnabled = false) (hordinary : log.IsOrdinary tree)
    (h : log.enable stamp tree = (.ok other, after)) :
    other.path = log.path ∧ other.Holds after (log.content tree ++ lineBytes (header stamp)) := by
  unfold enable at h
  rw [if_neg (by simp [hoff])] at h
  cases hprepare : log.prepare tree with
  | error cause => simp [hprepare] at h
  | ok ready =>
      have hready := hasDirectory_of_prepare hprepare
      have hsame : log.node? ready = log.node? tree := by
        rw [node?_of_prepare hprepare, node?_of_hasDirectory hready]
      simp only [hprepare] at h
      cases hopen : ready.openAppending log.path with
      | error cause => simp [hopen] at h
      | ok pair =>
          obtain ⟨handle, opened⟩ := pair
          have hordinary' : log.IsOrdinary ready := fun device => hsame ▸ hordinary device
          obtain ⟨id, executable, rfl, hnode⟩ := node?_openAppending hready hordinary' hopen
          simp only [hopen, FileTree.append_file, Prod.mk.injEq, Except.ok.injEq] at h
          obtain ⟨rfl, rfl⟩ := h
          have hheld : log.content ready = log.content tree := by rw [content, hsame, content]
          rw [hheld] at hnode
          exact ⟨rfl, id, executable, rfl, node?_append hnode (lineBytes (header stamp))⟩

/-! ## What is gained -/

section Gains

variable {before between : FileTree} {more : Bytes}

theorem gains_nil (h : log.node? after = log.node? before) : log.Gains before after [] := by
  refine ⟨by rw [content, h, content, List.append_nil], fun hthere => ?_⟩
  rw [h]
  exact hthere.resolve_left fun hne => hne rfl

theorem Gains.trans (hfirst : log.Gains before between bytes) (hsecond : log.Gains between after more) :
    log.Gains before after (bytes ++ more) := by
  refine ⟨by rw [hsecond.content_eq, hfirst.content_eq, List.append_assoc], fun hthere => hsecond.any_isFile ?_⟩
  by_cases hmore : more = []
  · refine Or.inr (hfirst.any_isFile ?_)
    rwa [hmore, List.append_nil] at hthere
  · exact Or.inl hmore

/-- Only the path counts. -/
theorem Gains.of_path_eq (h : other.Gains before after bytes) (hpath : other.path = log.path) :
    log.Gains before after bytes := by
  obtain ⟨hcontent, hthere⟩ := h
  simp only [content, node?_congr hpath] at hcontent hthere
  exact ⟨hcontent, hthere⟩

/-- A file that holds more was gained. -/
theorem Holds.gains (h : other.Holds after (log.content before ++ bytes)) (hpath : other.path = log.path) :
    log.Gains before after bytes := by
  obtain ⟨id, executable, -, hnode⟩ := h
  rw [node?_congr hpath] at hnode
  exact ⟨by rw [content, hnode]; rfl, fun _ => by rw [hnode]; rfl⟩

theorem Holds.isEnabled (h : log.Holds after bytes) : log.isEnabled = true := by
  obtain ⟨id, executable, hhandle, -⟩ := h
  rw [OutputLog.isEnabled, hhandle]
  rfl

end Gains
end OutputLog
end CompilerRelay
