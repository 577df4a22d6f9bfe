import CompilerRelay.Proofs.LifecycleRun

/-!
# Cleaning

What is left of the session, and of those who wait for its output, when the relay was asked to clean.

**Input.**  A reachable relay, whatever its files are, and everything that may go on beside the cleaning.

**Results.**
* `Template.clean_of_deep`: generated files cannot be removed if a directory below the custom packages stands too deep.
* `Relay.cleaning_law`: cleaning ends the session, unless generated files were to be removed first and that failed.
-/

namespace CompilerRelay

/-! ## Walks that stop -/

theorem Path.le_size_join
    {other : Path} (hother : other.isAbsolute = false) (path : Path) :
    path.text.utf8ByteSize + other.text.utf8ByteSize ≤ (path.join other).text.utf8ByteSize := by
  unfold join
  rw [hother, if_neg Bool.false_ne_true]
  split
  · simp
  · simp
  · simp only [String.utf8ByteSize_append]
    omega

namespace FileTree

theorem mem_of_nodeAt
    {place : Place} {node : Node} {nodes : List (Place × Node)} (h : nodeAt place nodes = some node) :
    (place, node) ∈ nodes := by
  induction nodes with
  | nil => cases h
  | cons entry rest ih =>
      unfold nodeAt at h
      split at h
      · next hplace =>
          obtain rfl := Option.some.inj h
          exact hplace ▸ List.mem_cons_self
      · exact List.mem_cons_of_mem _ (ih h)

/-- Where all nodes are alike, an entry at a place is as good as the first. -/
theorem nodeAt_of_forall
    {place : Place} {node : Node} {nodes : List (Place × Node)} (hmem : (place, node) ∈ nodes)
    (hall : ∀ entry ∈ nodes, entry.2 = node) :
    nodeAt place nodes = some node := by
  induction nodes with
  | nil => cases hmem
  | cons entry rest ih =>
      by_cases hplace : entry.1 = place
      · rw [nodeAt, if_pos hplace, hall entry List.mem_cons_self]
      · rw [nodeAt, if_neg hplace]
        refine ih ((List.mem_cons.mp hmem).resolve_left fun hsame => hplace (hsame ▸ rfl)) fun other hother => ?_
        exact hall other (List.mem_cons_of_mem _ hother)

theorem child_of_find?
    {tree : FileTree} {place : Place} {name : Name} {node : Node} (h : tree.find? (place ++ [name]) = some node) :
    name ∈ tree.sortedChildren place := by
  refine mem_sortedChildren.mpr (mem_children.mpr ⟨node, mem_of_nodeAt ?_⟩)
  simpa [find?] using h

theorem exists_error_of_mapM
    {α β ε : Type} (work : α → Except ε β) {items : List α} {item : α} (hmem : item ∈ items)
    (h : ∃ fault, work item = .error fault) :
    ∃ fault, items.mapM work = .error fault := by
  induction items with
  | nil => cases hmem
  | cons first rest ih =>
      rw [List.mapM_cons]
      cases hfirst : work first with
      | error fault => exact ⟨fault, rfl⟩
      | ok value =>
          rcases List.mem_cons.mp hmem with rfl | hrest
          · obtain ⟨fault, hfault⟩ := h
            rw [hfirst] at hfault
            cases hfault
          · obtain ⟨fault, hfault⟩ := ih hrest
            exact ⟨fault, by rw [hfault]; rfl⟩

/-- The path of what names lead to. -/
def pathBelow (path : Path) (names : List Name) : Path :=
  names.foldl (fun above name => above.join ⟨String.ofList name⟩) path

theorem le_size_pathBelow
    {names : List Name} {size : Nat}
    (hnames : ∀ name ∈ names, Path.isAbsolute ⟨String.ofList name⟩ = false ∧
      size ≤ (String.ofList name).utf8ByteSize)
    (path : Path) :
    path.text.utf8ByteSize + size * names.length ≤ (pathBelow path names).text.utf8ByteSize := by
  induction names generalizing path with
  | nil => exact le_rfl
  | cons name rest ih =>
      obtain ⟨hrelative, hsize⟩ := hnames name List.mem_cons_self
      have hjoin := Path.le_size_join hrelative path
      have hrest := ih (fun other hother => hnames other (List.mem_cons_of_mem _ hother))
        (path.join ⟨String.ofList name⟩)
      rw [List.length_cons, Nat.mul_add_one]
      exact le_trans (by dsimp only at hjoin; omega) hrest

/-- A walk stops above a directory whose path is too long. -/
theorem exists_error_of_deep
    {tree : FileTree} {names : List Name} {levels : Nat} {place : Place} {path : Path}
    (hlevels : names.length < levels)
    (hdirectory : ∀ count, count ≤ names.length → tree.find? (place ++ names.take count) = some .directory)
    (hlong : pathLimit ≤ (pathBelow path names).text.utf8ByteSize) :
    ∃ fault, tree.filesAt levels place path = .error fault := by
  induction names generalizing levels place path with
  | nil =>
      obtain ⟨more, rfl⟩ := Nat.exists_eq_add_one.mpr (Nat.zero_lt_of_lt hlevels)
      exact ⟨_, filesAt_of_long more (by simpa using hdirectory 0 le_rfl) hlong⟩
  | cons name rest ih =>
      obtain ⟨more, rfl⟩ := Nat.exists_eq_add_one.mpr (Nat.zero_lt_of_lt hlevels)
      have hhere : tree.find? place = some .directory := by simpa using hdirectory 0 (Nat.zero_le _)
      have hbelow : tree.find? (place ++ [name]) = some .directory := by
        simpa using hdirectory 1 (by simp)
      have hchild : ∃ fault,
          tree.filesAt more (place ++ [name]) (path.join ⟨String.ofList name⟩) = .error fault := by
        refine ih (by simpa using hlevels) (fun count hcount => ?_) hlong
        simpa using hdirectory (count + 1) (by simpa using hcount)
      obtain ⟨fault, hfault⟩ := exists_error_of_mapM
        (fun name => tree.filesAt more (place ++ [name]) (path.join ⟨String.ofList name⟩))
        (child_of_find? hbelow) hchild
      by_cases hpath : pathLimit ≤ path.text.utf8ByteSize
      · exact ⟨_, filesAt_of_long more hhere hpath⟩
      · exact ⟨fault, by simp only [filesAt, hhere, hpath, if_false, hfault]; rfl⟩

end FileTree

/-- Generated files cannot be removed if a directory below the custom packages stands too deep. -/
theorem Template.clean_of_deep
    {root : Path} {tree : FileTree} (hcustom : tree.isDirectory (customDirectory root) = true)
    (spot : Spot) (hspot : tree.locate true (customDirectory root) = .ok spot)
    (names : List Name) (hlevels : names.length ≤ tree.nodes.length)
    (hdirectory : ∀ count, count ≤ names.length → tree.find? (spot.place ++ names.take count) = some .directory)
    (hlong : FileTree.pathLimit ≤ (FileTree.pathBelow (customDirectory root) names).text.utf8ByteSize) :
    ∃ fault, clean root tree = (.error fault, tree) := by
  obtain ⟨fault, hfault⟩ := FileTree.exists_error_of_deep (Nat.lt_add_one_of_le hlevels) hdirectory hlong
  have hfiles : customFiles root tree = .error (.walk (customDirectory root) fault) := by
    simp only [customFiles, hcustom, if_true, FileTree.filesBelow, hspot, hfault]
    rfl
  refine ⟨.walk (customDirectory root) fault, ?_⟩
  delta clean
  rw [hfiles]

theorem WatchSlot.active_abandon (slot : WatchSlot) : slot.abandon.active = none := by
  unfold abandon settle
  split
  · assumption
  · rfl

theorem Channel.performAll_dwindles
    (state : Channel × FileTree) {acts : List ChannelAct} (hacts : acts.all (!·.isInstall) = true) :
    state.1.watch.Dwindles (performAll state acts).1.watch := by
  induction acts generalizing state with
  | nil => exact .refl _
  | cons act rest ih =>
      obtain ⟨hact, hrest⟩ := Bool.and_eq_true_iff.mp hacts
      exact (perform_dwindles state act (by simpa using hact)).trans (ih (perform state act) hrest)

namespace Relay

/-! ## The end of a session -/

/-- The slot is empty, and nobody waits for output. -/
def ended : Assertion Around fun _ => True where
  holds := fun relay => relay.slot = .stopped ∧ relay.channel.watch.active = none
  kept := fun haround ⟨hslot, hactive⟩ =>
    ⟨haround.passes.slot_eq.trans hslot, haround.passes.watch.active_eq_none hactive⟩
  sound := fun _ => trivial

/-- The slot holds what it held at first. -/
def unended (slot : Slot) : Assertion Around fun _ => True where
  holds := fun relay => relay.slot = slot
  kept := fun haround hslot => haround.passes.slot_eq.trans hslot
  sound := fun _ => trivial

variable {relay : Relay} {slot : Slot}

theorem endSession_ended {failed : Failure → Assertion Around fun _ => True} :
    Task.Ensures (unended slot) endSession (fun _ => ended) failed := by
  have hfree : Task.Ensures (unended slot) (ExceptT.lift (Task.act freeSlot) : Operation _)
      (fun _ => unended .stopped) failed :=
    ensures_take fun _ _ => rfl
  have habandon : Task.Ensures (unended .stopped) (onChannel Channel.abandon) (fun _ => ended) failed :=
    ensures_change fun middle h => ⟨h, middle.channel.watch.active_abandon⟩
  refine hfree.bind fun held => habandon.bind fun _ => ?_
  cases held with
  | stopped | starting => exact Task.ensures_pure fun _ h => h
  | running number => exact ensures_change fun _ h => h

theorem reportClean_ended (header output footer : String) {failed : Failure → Assertion Around fun _ => True} :
    Task.Ensures ended (reportClean header output footer) (fun _ => ended) failed := by
  refine ensures_change fun middle h => ⟨h.1, ?_⟩
  let acts : List ChannelAct :=
    [.write ("[INFO " ++ header ++ ":]\n" ++ rule ++ "\n"), .writeBlock output,
      .write (rule ++ "\n[INFO " ++ footer ++ "]\n")]
  have hdwindles : middle.channel.watch.Dwindles (Channel.performAll (middle.channel, middle.files) acts).1.watch :=
    Channel.performAll_dwindles _ rfl
  simp only [acts, Channel.performAll_cons, Channel.performAll_nil, Channel.perform] at hdwindles
  simp only [changeOutput]
  exact hdwindles.active_eq_none h.2

theorem cleanAndReport_ended
    (header footer : String) {failed : Failure → Assertion Around fun _ => True}
    (hfailed : ∀ cause middle, ended middle → failed (.clean cause) middle) :
    Task.Ensures (unended slot) (cleanAndReport header footer) (fun _ => ended) failed := by
  have hrun : Task.Ensures (unended slot) (ExceptT.lift (Task.act runClean) : Operation _)
      (fun _ => unended slot) failed :=
    ensures_take fun _ h => h
  refine hrun.bind fun result => endSession_ended.bind fun _ => ?_
  cases result with
  | ok written => exact reportClean_ended header written.text footer
  | error cause => exact Task.ensures_throw (hfailed cause)

theorem clean_ended : Task.Ensures (unended slot) clean (fun _ => ended) fun _ => ended := by
  have hbegin : Task.Ensures (unended slot)
      (change (·.changeOutput fun channel files => channel.clear.write files cleanLine))
      (fun _ => unended slot) fun _ => ended :=
    ensures_change fun _ h => h
  exact hbegin.bind fun _ => cleanAndReport_ended _ _ fun _ _ h => h

/-- What is left of the session when generated files were to be removed first. -/
def endedUnless (slot : Slot) : Failure → Assertion Around fun _ => True
  | .preprocess _ => unended slot
  | .start _ | .watch _ | .notRunning | .definition _ | .clean _ | .log _ _ | .invalidPattern _ => ended

theorem cleanTemplates_ended :
    Task.Ensures (unended slot) cleanTemplates (fun _ => ended) (endedUnless slot) := by
  have hclear : Task.Ensures (unended slot) clearForBuild (fun _ => unended slot) (endedUnless slot) :=
    clearForBuild_ensures fun h hsame => hsame.slot_eq.trans h
  have hremove : Task.Ensures (unended slot) (onTemplates Template.clean) (fun _ => unended slot)
      (endedUnless slot) := by
    have hattempt : ∀ result, Task.Ensures (unended slot) (attempt .preprocess result : Operation (List Path))
        (fun _ => unended slot) (endedUnless slot) := by
      intro result
      cases result with
      | ok removed => exact Task.ensures_pure fun _ h => h
      | error fault => exact Task.ensures_throw fun _ h => h
    refine Task.Ensures.bind ?_ hattempt
    exact ensures_take fun _ h => h
  have hforget : Task.Ensures (unended slot) (onChannel Channel.forgetTemplates) (fun _ => unended slot)
      (endedUnless slot) :=
    ensures_change fun _ h => h
  exact hclear.bind fun _ => hremove.bind fun _ => hforget.bind fun _ => cleanAndReport_ended _ _ fun _ _ h => h

/-- The session is over, and so is every wait for its output that had begun. -/
structure Over (relay after : Relay) : Prop where
  slot_eq : after.slot = .stopped
  active_eq : after.channel.watch.active = none
  settled : ∀ id, 1 ≤ id → id ≤ relay.channel.watch.lastId → after.channel.watch.settlement? id ≠ none

/-- A watch that was installed and does not wait any more was settled. -/
theorem over_of_ended
    {after : Relay} (hreachable : relay.Reachable) (hevolves : relay.Evolves after) (h : ended after) :
    relay.Over after where
  slot_eq := h.1
  active_eq := h.2
  settled := by
    intro id hpos hle hunsettled
    obtain ⟨watches, htracks⟩ := (hevolves.channel_reachable hreachable.channel_reachable).tracks
    obtain ⟨watch, hactive, -⟩ := htracks.exists_active hpos (hle.trans hevolves.becomes.lastId_le) hunsettled
    rw [h.2] at hactive
    cases hactive

theorem evolves_of_moves
    (demand : Demand) {operation : Operation Unit} (hdemand : demand.task = Demand.taskOf operation)
    {left : Task Relay (Except Failure Unit)} {after : Relay}
    (hmoves : Task.Moves Around operation.run relay left after) :
    relay.Evolves after := by
  have htask : Task.Moves Around demand.task relay (left.bind fun _ => .done ()) after :=
    hdemand ▸ hmoves.bind fun _ => Task.done ()
  exact (htask.related Evolves.refl Evolves.trans Around.evolves demand.within_evolves).1

theorem onTemplates_alone_error
    {α : Type} {work : Path → FileTree → Except TemplateFault α × FileTree} {fault : TemplateFault}
    (hfault : (work relay.config.projectRoot relay.files).1 = .error fault) :
    (onTemplates work).run.alone? relay =
      some (.error (.preprocess fault), { relay with files := (work relay.config.projectRoot relay.files).2 }) := by
  rw [onTemplates, alone?_take]
  simp only [hfault]
  rfl

/-- If the generated files cannot be removed, nothing else is done. -/
theorem cleanTemplates_of_fault
    {fault : TemplateFault}
    (hfault : (Template.clean relay.config.projectRoot relay.files).1 = .error fault) :
    ∃ after, cleanTemplates.run.alone? relay = some (.error (.preprocess fault), after) ∧
      after.slot = relay.slot ∧ after.sessions = relay.sessions ∧ after.channel.watch = relay.channel.watch := by
  have hstop {cleared : Relay} (halone : clearForBuild.run.alone? relay = some (.ok (), cleared))
      (hremoval : (Template.clean cleared.config.projectRoot cleared.files).1 = .error fault) :
      cleanTemplates.run.alone? relay =
        some (.error (.preprocess fault),
          { cleared with files := (Template.clean cleared.config.projectRoot cleared.files).2 }) :=
    (Task.alone?_run_bind halone).trans (Task.alone?_run_bind_error (onTemplates_alone_error hremoval))
  cases hclear : relay.config.clearOutput with
  | true =>
      have halone : clearForBuild.run.alone? relay = some (.ok (), relay.changeChannel Channel.clear) := by
        rw [clearForBuild, alone?_look, hclear]
        rfl
      exact ⟨_, hstop halone hfault, rfl, rfl, rfl⟩
  | false =>
      have halone : clearForBuild.run.alone? relay = some (.ok (), relay) := by
        rw [clearForBuild, alone?_look, hclear]
        rfl
      exact ⟨_, hstop halone hfault, rfl, rfl, rfl⟩

/-- **Cleaning stops the compiler,** unless generated files are to be removed first and that fails. -/
theorem cleaning_law
    (hreachable : relay.Reachable) :
    -- Cleaning ends the session, whatever comes of the command that cleans.
    (∀ result after, Task.Moves Around clean.run relay (.done result) after → relay.Over after) ∧
    (∀ result after, Task.Moves Around cleanTemplates.run relay (.done result) after →
      -- So it does where generated files are removed first, unless that fails;
      ((∀ fault, result ≠ .error (.preprocess fault)) → relay.Over after) ∧
      -- then the slot is left as it was.
      ∀ fault, result = .error (.preprocess fault) → after.slot = relay.slot) ∧
    -- And so are the processes and whoever waits for output, as far as nobody else disturbs them.
    ∀ fault, (Template.clean relay.config.projectRoot relay.files).1 = .error fault →
      ∃ after, cleanTemplates.run.alone? relay = some (.error (.preprocess fault), after) ∧
        after.slot = relay.slot ∧ after.sessions = relay.sessions ∧ after.channel.watch = relay.channel.watch := by
  refine ⟨fun result after hmoves => ?_, fun result after hmoves => ⟨fun hremoved => ?_, fun fault hfault => ?_⟩,
    fun fault => cleanTemplates_of_fault⟩
  · have hend := (clean_ended relay _ after (rfl : unended relay.slot relay) hmoves).2 result rfl
    have hevolves := evolves_of_moves .clean rfl hmoves
    cases result with
    | ok value => exact over_of_ended hreachable hevolves hend
    | error failure => exact over_of_ended hreachable hevolves hend
  · have hend := (cleanTemplates_ended relay _ after (rfl : unended relay.slot relay) hmoves).2 result rfl
    have hevolves := evolves_of_moves .cleanTemplates rfl hmoves
    cases result with
    | ok value => exact over_of_ended hreachable hevolves hend
    | error failure =>
        cases failure with
        | preprocess fault => exact absurd rfl (hremoved fault)
        | start | watch | notRunning | definition | clean | log | invalidPattern =>
            exact over_of_ended hreachable hevolves hend
  · subst hfault
    exact (cleanTemplates_ended relay _ after (rfl : unended relay.slot relay) hmoves).2 _ rfl

/-! ## A directory that stands too deep -/

namespace DeepDirectory

/-- The longest names are but a little longer. -/
def name : Name := List.replicate 250 'a'

/-- The place of a directory so deep below the custom packages. -/
def place (depth : Nat) : Place := "custom".toList :: List.replicate depth name

/-- Seventeen directories below the custom packages, one in the other. -/
def files : FileTree := { nodes := (List.range 18).map fun depth => (place depth, .directory) }

/-- A relay whose project is in the root of such files. -/
def idle : Relay := .new { root := ⟨"/"⟩ } {} UnnoticedExit.machine files

/-- The relay after it was asked to start the compiler. -/
def started : Relay := (Demand.start.task.alone? idle).elim idle Prod.snd

/-- The relay while a statement waits for its line. -/
def waiting : Relay := ((Demand.task (.submit UnnoticedExit.statement)).alone? started).elim started Prod.snd

theorem waiting_reachable : waiting.Reachable := by
  have hstarted : started.Reachable := .done (.new _ _ _ _) (Task.moves_of_alone? rfl : Task.Moves Around
    Demand.start.task idle (.done ()) started)
  exact .done hstarted (Task.moves_of_alone? rfl : Task.Moves Around
    (Demand.task (.submit UnnoticedExit.statement)) started (.done ()) waiting)

theorem find?_place {depth : Nat} (h : depth < 18) : files.find? (place depth) = some .directory := by
  rw [FileTree.find?, if_neg (by exact List.cons_ne_nil _ _)]
  refine FileTree.nodeAt_of_forall (List.mem_map.mpr ⟨depth, List.mem_range.mpr h, rfl⟩) fun entry hentry => ?_
  obtain ⟨depth, -, rfl⟩ := List.mem_map.mp hentry
  rfl

theorem clean_fault : ∃ fault, Template.clean ⟨"/"⟩ files = (.error fault, files) := by
  refine Template.clean_of_deep (by decide +kernel) ⟨place 0, false, false⟩ (by decide +kernel)
    (List.replicate 17 name) (by decide) (fun count hcount => ?_) ?_
  · rw [List.length_replicate] at hcount
    have hplace : place 0 ++ (List.replicate 17 name).take count = place count := by
      rw [List.take_replicate, min_eq_left hcount]
      rfl
    rw [hplace]
    exact find?_place (Nat.lt_succ_of_le hcount)
  · have hnames : ∀ other ∈ List.replicate 17 name, Path.isAbsolute ⟨String.ofList other⟩ = false ∧
        250 ≤ (String.ofList other).utf8ByteSize := by
      intro other hother
      rw [List.eq_of_mem_replicate hother]
      exact ⟨by rw [Path.isAbsolute, String.toList_ofList]; rfl, by decide +kernel⟩
    refine le_trans ?_ (FileTree.le_size_pathBelow hnames _)
    rw [List.length_replicate]
    exact Nat.le_add_left_of_le (by decide)

theorem cleaning_law_waiting :
    waiting.Reachable ∧ waiting.slot = .running 0 ∧ waiting.channel.watch.settlement? 1 = none ∧
    ∀ result after, Task.Moves Around clean.run waiting (.done result) after →
      after.slot = .stopped ∧ after.channel.watch.settlement? 1 ≠ none := by
  refine ⟨waiting_reachable, rfl, rfl, fun result after hmoves => ?_⟩
  have hover := (cleaning_law waiting_reachable).1 result after hmoves
  exact ⟨hover.slot_eq, hover.settled 1 le_rfl le_rfl⟩

/-- The session goes on, and the statement waits. -/
theorem cleanTemplates_leaves_session :
    waiting.Reachable ∧
    ∃ fault after, Task.Moves Around cleanTemplates.run waiting (.done (.error (.preprocess fault))) after ∧
      after.slot = .running 0 ∧ after.lives 0 = true ∧
      after.channel.watch.active.isSome = true ∧ after.channel.watch.settlement? 1 = none := by
  obtain ⟨fault, hfault⟩ := clean_fault
  have hroot : waiting.config.projectRoot = ⟨"/"⟩ := rfl
  have hfiles : waiting.files = files := rfl
  have hfails : (Template.clean waiting.config.projectRoot waiting.files).1 = .error fault := by
    rw [hroot, hfiles, hfault]
  obtain ⟨after, halone, hslot, hsessions, hwatch⟩ := cleanTemplates_of_fault hfails
  refine ⟨waiting_reachable, fault, after, Task.moves_of_alone? halone, hslot, ?_, ?_, ?_⟩
  · rw [lives, session?, hsessions]
    rfl
  · rw [hwatch]
    rfl
  · rw [hwatch]
    rfl

end DeepDirectory
end Relay
end CompilerRelay
