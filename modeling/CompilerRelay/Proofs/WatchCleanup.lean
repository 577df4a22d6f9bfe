import CompilerRelay.Proofs.LifecycleRun
import CompilerRelay.Proofs.WatchDeeds

/-!
# What failed operations leave in the slot

The watches of an operation that failed, and those of others.

**Input.**  A reachable relay and a demand.  Between any two steps of the demand, anything may be done that
`Relay.Evolves` allows: all that the compiler does, and every step of any other demand.

**Invariant.**  `Relay.Accounts`: what the operation installed has a number that was handed out, and what it parted with
is settled.

**Results.**
* `Demand.tidy`: a demand that fails has parted with all that it installed.
* `Relay.Accounts.handles`: a step of the demand keeps the invariant, and so does every step of the others.
* `Relay.cleanup_law`: no watch of a demand that failed is in the slot, and the watches of others are left alone.
-/

namespace CompilerRelay
namespace Relay

/-! ## Operations that start the compiler -/

section Operations

theorem leaves_spawnWatched (ready : Option Nat) : Leaves ready (spawnWatched ready) fun _ => ready := by
  refine (Leaves.lift (Task.within_act spawn_hears)).bind fun result => ?_
  cases result with
  | ok session => exact .pure session rfl
  | error cause =>
      have hclear : Leaves ready (ready.forM clearWatch) fun _ => none := by
        cases ready with
        | none => exact .pure () rfl
        | some id => exact leaves_clearWatch id
      exact hclear.bind fun _ => (Leaves.of_within (setSlot_within_hears .stopped)).bind fun _ => .throw _

theorem leaves_awaitReady (session id : Nat) : Leaves (some id) (awaitReady session id) fun _ => none := by
  refine (Leaves.lift (Task.within_look Hears.refl _)).bind fun limit => ?_
  refine (leaves_awaitWatch ⟨id, limit⟩).bind fun result => ?_
  cases result with
  | ok line => exact .of_within (Task.within_pure _)
  | error cause =>
      have hkill : (change (·.killSession session)).run.Within Hears := change_within_hears Hears.refl
      refine (Leaves.of_within hkill).bind fun _ => ?_
      exact (Leaves.of_within (setSlot_within_hears .stopped)).bind fun _ => .throw _

/-- A start ends without a watch of its own, however it ends. -/
theorem leaves_start : Leaves none start fun _ => none := by
  refine (Leaves.of_within (look_within_hears _)).bind fun running => ?_
  split
  · exact .of_within (Task.within_pure _)
  · refine (Leaves.of_within (look_within_hears _)).bind fun text => ?_
    refine (Leaves.of_within (attempt_within .invalidPattern _)).bind fun pattern => ?_
    refine (Leaves.of_within (setSlot_within_hears .starting)).bind fun _ => ?_
    have hinstall : Leaves none (pattern.mapM fun pattern => install pattern none) id := by
      cases pattern with
      | none => exact .pure none rfl
      | some pattern => exact (leaves_install pattern none).bind fun id => .pure (some id) rfl
    have hready (ready : Option Nat) (session : Nat) :
        Leaves ready (ready.forM (awaitReady session)) fun _ => none := by
      cases ready with
      | none => exact .pure () rfl
      | some id => exact leaves_awaitReady session id
    exact hinstall.bind fun ready => (leaves_spawnWatched ready).bind fun session =>
      (hready ready session).bind fun _ => .of_within (setSlot_within_hears (.running session))

theorem leaves_ensureRunning : Leaves none ensureRunning fun _ => none := by
  have hnotice : ∀ relay : Relay, relay.Hears (if relay.hasExited then { relay with slot := .stopped } else relay) := by
    intro relay
    split <;> exact .refl _
  refine (Leaves.of_within (change_within_hears hnotice)).bind fun _ => ?_
  refine (Leaves.of_within (look_within_hears _)).bind fun running => ?_
  split
  · exact leaves_start
  · exact .of_within (Task.within_pure _)

/-! ## Operations that watch -/

theorem leaves_watchFor (success : Pattern) (failure : Option Pattern) :
    Leaves none (watchFor success failure) fun watch => some watch.id :=
  (leaves_install success failure).bind fun id =>
    (Leaves.lift (Task.within_look Hears.refl _)).bind fun limit =>
      .pure (PendingWatch.mk id limit) rfl

/-- What cannot be sent is not watched. -/
theorem leaves_sendWatched (command : Command) (watch : PendingWatch) :
    Leaves (some watch.id) (sendWatched command watch) fun _ => some watch.id := by
  intro past hpast
  have hsend : (send command).run.Follows Handles Fits past fun deeds _ => deeds = past :=
    (send_within_hears command).follows (fun _ _ => .hears) hpast.fits
  refine Task.Follows.bind hsend fun deeds result hdeeds => ?_
  subst hdeeds
  cases result with
  | ok value => exact hpast
  | error failure => exact ((leaves_clearWatch watch.id).bind fun _ => .throw failure) _ hpast

theorem leaves_wait (watch : PendingWatch) : Leaves (some watch.id) watch.wait fun _ => none :=
  (leaves_awaitWatch watch).bind fun result => .of_within (attempt_within .watch result)

theorem leaves_waitLocation (watch : PendingWatch) : Leaves (some watch.id) watch.waitLocation fun _ => none :=
  (leaves_wait watch).bind fun line => .of_within (locate_within_hears line)

theorem leaves_submit (statement : Statement) :
    Leaves none (submit statement) fun watch => watch.map PendingWatch.id := by
  have hsend : Leaves none (submitCleared statement) fun watch => watch.map PendingWatch.id :=
    leaves_ensureRunning.bind fun _ => (leaves_watchFor statement.success statement.failure).bind fun watch =>
      (leaves_sendWatched (.raw statement.code) watch).bind fun _ =>
        .pure (some watch) rfl
  refine (Leaves.of_within (look_within_hears _)).bind fun running => ?_
  split
  · exact .pure none rfl
  · split
    · exact (Leaves.of_within clearForBuild_within_hears).bind fun _ => hsend
    · exact hsend

theorem leaves_runStatement (statement : Statement) : Leaves none (runStatement statement) fun _ => none := by
  refine (leaves_submit statement).bind fun submitted => ?_
  cases submitted with
  | none => exact .of_within (Task.within_pure _)
  | some watch => exact (leaves_wait watch).bind fun line => .of_within (Task.within_pure _)

theorem leaves_submitGoto (file : Path) (offset : Nat) :
    Leaves none (submitGoto file offset) fun watch => some watch.id :=
  leaves_ensureRunning.bind fun _ => (Leaves.of_within (attempt_within .invalidPattern _)).bind fun pattern =>
    (leaves_watchFor pattern none).bind fun watch => (leaves_sendWatched (.refers file offset) watch).bind fun _ =>
      .pure watch rfl

/-! ## Operations that send without watching -/

theorem leaves_runCommand (command : Command) : Leaves none (runCommand command) fun _ => none :=
  (Leaves.of_within clearForBuild_within_hears).bind fun _ =>
    (Leaves.of_within clearDiagnostics_within_hears).bind fun _ =>
      leaves_ensureRunning.bind fun _ => .of_within (send_within_hears command)

theorem leaves_compileFile (file : Path) : Leaves none (compileFile file) fun _ => none :=
  (Leaves.of_within clearForBuild_within_hears).bind fun _ =>
    (Leaves.of_within clearDiagnostics_within_hears).bind fun _ =>
      leaves_ensureRunning.bind fun _ => (Leaves.of_within (preprocess_within_hears file)).bind fun target =>
        .of_within (Task.within_bind (send_within_hears (.compileFile target)) fun _ => Task.within_pure _)

theorem leaves_runFile (file : Path) : Leaves none (runFile file) fun _ => none := by
  have hrest : Leaves none (clearDiagnostics >>= fun _ => ensureRunning >>= fun _ => (do
      let target ← preprocess file
      send (.runFile target)
      return target : Operation Path)) fun _ => none :=
    (Leaves.of_within clearDiagnostics_within_hears).bind fun _ =>
      leaves_ensureRunning.bind fun _ => (Leaves.of_within (preprocess_within_hears file)).bind fun target =>
        .of_within (Task.within_bind (send_within_hears (.runFile target)) fun _ => Task.within_pure _)
  unfold runFile
  split
  · exact (Leaves.of_within clearForBuild_within_hears).bind fun _ => hrest
  · exact hrest

theorem leaves_loadAll (file : Path) : Leaves none (loadAll file) fun _ => none :=
  (Leaves.of_within clearDiagnostics_within_hears).bind fun _ =>
    leaves_ensureRunning.bind fun _ => .of_within (send_within_hears (.loadAll file))

theorem leaves_compileFolders (directories : List Path) : Leaves none (compileFolders directories) fun _ => none :=
  leaves_ensureRunning.bind fun _ => (Leaves.of_within (onTemplates_within_hears _)).bind fun _ =>
    (Leaves.of_within forgetTemplates_within_hears).bind fun _ => leaves_runCommand _

theorem leaves_reset : Leaves none reset fun _ => none :=
  (Leaves.of_within endSession_within_hears).bind fun _ =>
    (Leaves.of_within clearForBuild_within_hears).bind fun _ => leaves_start

end Operations

/-- An operation that fails has parted with all that it installed. -/
def Tidy {α : Type} (operation : Operation α) : Prop :=
  operation.run.Follows Handles Fits [] fun deeds result => ∀ failure, result = .error failure → Expects none deeds

theorem Leaves.tidy
    {α : Type} {operation : Operation α} {after : α → Option Nat} (h : Leaves none operation after) :
    Tidy (Demand.answered operation) := by
  refine Task.follows_bind (h [] .nothing) (fun deeds value hdeeds => ?_) fun deeds failure hfailed _ _ => hfailed
  exact fun failure hfailure => by cases hfailure

theorem tidy_of_within
    {α : Type} {operation : Operation α} (h : operation.run.Within Hears) :
    Tidy (Demand.answered operation) :=
  (Leaves.of_within h).tidy

end Relay

open Relay in
/-- A demand that fails has parted with all that it installed. -/
theorem Demand.tidy (demand : Demand) : Tidy demand.operation := by
  cases demand with
  | start => exact leaves_start.tidy
  | reset => exact leaves_reset.tidy
  | stop =>
      refine tidy_of_within <| Task.within_bind (look_within_hears _) fun running => ?_
      split
      · refine Task.within_bind clearForBuild_within_hears fun _ => Task.within_bind ?_ fun _ => endSession_within_hears
        exact changeOutput_within_hears [.write killedLine] rfl fun _ _ => rfl
      · exact Task.within_pure _
  | endSession => exact tidy_of_within endSession_within_hears
  | clean =>
      refine tidy_of_within <| Task.within_bind ?_ fun _ => cleanAndReport_within_hears _ _
      exact changeOutput_within_hears [.clear, .write cleanLine] rfl fun _ _ => rfl
  | cleanTemplates =>
      exact tidy_of_within <| Task.within_bind clearForBuild_within_hears fun _ =>
        Task.within_bind (onTemplates_within_hears _) fun _ =>
          Task.within_bind forgetTemplates_within_hears fun _ => cleanAndReport_within_hears _ _
  | quitDebug =>
      refine tidy_of_within <| Task.within_bind (look_within_hears _) fun running => ?_
      split
      · exact send_within_hears .quitDebug
      · exact Task.within_pure _
  | startLog => exact tidy_of_within (Task.within_act beginLog_hears)
  | stopLog =>
      exact tidy_of_within (changeOutput_within_hears [.disableLog, .write logEndLine] rfl fun _ _ => rfl)
  | run code => exact (leaves_runCommand _).tidy
  | runIfStarted code =>
      refine tidy_of_within <| Task.within_bind clearForBuild_within_hears fun _ =>
        Task.within_bind clearDiagnostics_within_hears fun _ =>
          Task.within_bind (look_within_hears _) fun running => ?_
      split
      · exact Task.within_bind (send_within_hears _) fun _ => Task.within_pure _
      · exact Task.within_pure _
  | submit statement => exact (leaves_submit statement).tidy
  | runStatement statement => exact (leaves_runStatement statement).tidy
  | compileFile file => exact (leaves_compileFile file).tidy
  | runFile file => exact (leaves_runFile file).tidy
  | loadAll file => exact (leaves_loadAll file).tidy
  | compileFolders directories => exact (leaves_compileFolders directories).tidy
  | submitGoto file offset => exact (leaves_submitGoto file offset).tidy
  | goto file offset =>
      exact Leaves.tidy ((leaves_submitGoto file offset).bind leaves_waitLocation)

theorem WatchSlot.Tracks.performAll
    {watches : List Watch} {slot : WatchSlot} (h : slot.Tracks watches) (requests : List WatchRequest) :
    ∃ others, (slot.performAll requests).Tracks others := by
  induction requests generalizing watches slot with
  | nil => exact ⟨watches, h⟩
  | cons request rest ih => exact ih (h.perform request)

namespace Relay

/-! ## Runs -/

/-- What the operation installed has a number that was handed out, and what it parted with is settled. -/
structure Accounts (past : List WatchDeed) (relay : Relay) : Prop where
  tracks : ∃ watches, relay.channel.watch.Tracks watches
  installed : ∀ id, .installs id ∈ past → 1 ≤ id ∧ id ≤ relay.channel.watch.lastId
  parted : ∀ id, .parts id ∈ past → relay.channel.watch.settlement? id ≠ none

namespace Accounts

variable {past now : List WatchDeed} {before after : Relay}

/-- Whatever is asked of the slot keeps the account. -/
theorem becomes
    (h : Accounts past before) (hbecomes : before.channel.watch.Becomes after.channel.watch) :
    Accounts past after := by
  obtain ⟨watches, htracks⟩ := h.tracks
  obtain ⟨requests, hafter⟩ := id hbecomes
  refine ⟨hafter ▸ htracks.performAll requests, fun id hid => ?_, fun id hid => ?_⟩
  · obtain ⟨hpos, hle⟩ := h.installed id hid
    exact ⟨hpos, hle.trans hbecomes.lastId_le⟩
  · obtain ⟨settlement, hsettled⟩ := Option.ne_none_iff_exists'.mp (h.parted id hid)
    rw [hafter, htracks.settlement?_performAll_of_settled requests hsettled]
    simp

/-- A watch that is given up is settled, whoever has settled it. -/
theorem settlement?_of_clearIf
    (h : Accounts past after) {id : Nat} (hinstalled : .installs id ∈ past)
    (hwatch : after.channel.watch = before.channel.watch.clearIf id) :
    after.channel.watch.settlement? id ≠ none := by
  obtain ⟨watches, htracks⟩ := h.tracks
  obtain ⟨hpos, hle⟩ := h.installed id hinstalled
  intro hunsettled
  obtain ⟨watch, hactive, rfl⟩ := htracks.exists_active hpos hle hunsettled
  rw [hwatch, WatchSlot.clearIf] at hactive
  split at hactive
  · cases hslot : before.channel.watch.active <;> simp [WatchSlot.settle, hslot] at hactive
  · next hother => simp [hactive] at hother

/-- A step of the operation keeps the account. -/
theorem handles
    (h : Accounts past before) (hstep : before.Handles after now) (hfits : Fits (past ++ now)) :
    Accounts (past ++ now) after := by
  have hold : Accounts past after := h.becomes hstep.becomes
  cases hstep with
  | hears => rwa [List.append_nil]
  | @installs success failure hwatch =>
      have hlast : after.channel.watch.lastId = before.channel.watch.lastId + 1 := by
        rw [hwatch]
        exact WatchSlot.lastId_perform before.channel.watch (.install success failure)
      refine ⟨hold.tracks, fun id hid => ?_, fun id hid => hold.parted id (by simpa using hid)⟩
      rcases List.mem_append.mp hid with hid | hid
      · exact hold.installed id hid
      · rw [WatchDeed.installs.inj (List.mem_singleton.mp hid), hlast]
        exact ⟨Nat.le_add_left _ _, le_rfl⟩
  | givesUp id hwatch =>
      refine ⟨hold.tracks, fun other hother => hold.installed other (by simpa using hother), fun other hother => ?_⟩
      rcases List.mem_append.mp hother with hother | hother
      · exact hold.parted other hother
      · obtain rfl := WatchDeed.parts.inj (List.mem_singleton.mp hother)
        exact hold.settlement?_of_clearIf (by simpa using hfits other (by simp)) hwatch
  | @sees id hwatch hsettled =>
      refine ⟨hold.tracks, fun other hother => hold.installed other (by simpa using hother), fun other hother => ?_⟩
      rcases List.mem_append.mp hother with hother | hother
      · exact hold.parted other hother
      · rwa [WatchDeed.parts.inj (List.mem_singleton.mp hother), hwatch]

end Accounts

theorem Reachable.accounts
    {relay : Relay} (h : relay.Reachable) :
    Accounts [] relay where
  tracks := h.channel_reachable.tracks
  installed := by simp
  parted := by simp

section Runs

variable {α : Type} {task left : Task Relay α} {past : List WatchDeed} {holds : List WatchDeed → α → Prop}
  {before after : Relay} {surroundings : Relay → Relay → Prop}

/-- A run keeps the account, with what the operation did meanwhile. -/
theorem Accounts.moves
    (h : Accounts past before) (hfollows : task.Follows Handles Fits past holds)
    (hothers : ∀ {first second}, surroundings first second → first.Evolves second)
    (hmoves : Task.Moves surroundings task before left after) :
    ∃ more, left.Follows Handles Fits (past ++ more) holds ∧ Accounts (past ++ more) after := by
  induction hmoves generalizing past with
  | refl task relay => exact ⟨[], by rwa [List.append_nil], by rwa [List.append_nil]⟩
  | around hchange _ ih => exact ih (h.becomes (hothers hchange).becomes) hfollows
  | own htaken _ ih =>
      obtain ⟨now, hstep, hfits, hrest⟩ := hfollows.advance htaken
      obtain ⟨more, hleft, hafter⟩ := ih (h.handles hstep hfits) hrest
      exact ⟨now ++ more, by rwa [← List.append_assoc], by rwa [← List.append_assoc]⟩

/-- What others may do who do not give a watch up. -/
def EvolvesSparing (id : Nat) (before after : Relay) : Prop :=
  before.Evolves after ∧
    (after.channel.watch.settlement? id = some .dropped → before.channel.watch.settlement? id = some .dropped)

/-- A watch that others installed is given up by others only. -/
theorem Accounts.spared_of_moves
    {id : Nat} (h : Accounts past before) (hfollows : task.Follows Handles Fits past holds)
    (hother : .installs id ∉ past) (hle : id ≤ before.channel.watch.lastId)
    (hkept : before.channel.watch.settlement? id ≠ some .dropped)
    (hmoves : Task.Moves (EvolvesSparing id) task before left after) :
    id ≤ after.channel.watch.lastId ∧ after.channel.watch.settlement? id ≠ some .dropped := by
  induction hmoves generalizing past with
  | refl => exact ⟨hle, hkept⟩
  | around hchange _ ih =>
      exact ih (h.becomes hchange.1.becomes) hfollows hother (hle.trans hchange.1.becomes.lastId_le)
        (mt hchange.2 hkept)
  | @own task left last before between after htaken _ ih =>
      obtain ⟨now, hstep, hfits, hrest⟩ := hfollows.advance htaken
      have hbetween := h.handles hstep hfits
      -- What the step installs has a number of its own.
      have hstill : .installs id ∉ past ++ now := by
        rw [List.mem_append, not_or]
        refine ⟨hother, fun hnew => ?_⟩
        cases hstep with
        | hears | givesUp | sees => simp at hnew
        | @installs success failure hwatch =>
            have hlast := WatchSlot.lastId_perform before.channel.watch (.install success failure)
            rw [WatchDeed.installs.inj (List.mem_singleton.mp hnew), hwatch] at hle
            exact absurd (hlast.symm.trans_le hle) (Nat.not_succ_le_self _)
      refine ih hbetween hrest hstill (hle.trans hstep.becomes.lastId_le) fun hdropped => ?_
      rcases hstep.dropped hdropped with hold | hparts
      · exact hkept hold
      · exact hstill (hfits id (List.mem_append_right _ hparts))

end Runs

/-- A watch was installed between two moments. -/
def InstalledBetween (id : Nat) (before after : Relay) : Prop :=
  before.channel.watch.lastId < id ∧ id ≤ after.channel.watch.lastId

theorem Handles.installs_of_between
    {before after : Relay} {deeds : List WatchDeed} (h : before.Handles after deeds)
    {id : Nat} (hid : InstalledBetween id before after) :
    .installs id ∈ deeds := by
  obtain ⟨hlate, hle⟩ := hid
  cases h with
  | hears hheard => exact absurd (hheard.lastId_eq ▸ hle) hlate.not_ge
  | @installs success failure hwatch =>
      have hlast := WatchSlot.lastId_perform before.channel.watch (.install success failure)
      have hsame : id = after.channel.watch.lastId := by
        refine le_antisymm hle ?_
        rw [hwatch]
        exact hlast.trans_le hlate
      rw [hsame]
      exact List.mem_singleton_self _
  | givesUp other hwatch =>
      have hlast := WatchSlot.lastId_perform before.channel.watch (.clearIf other)
      rw [hwatch] at hle
      exact absurd (hle.trans_eq hlast) hlate.not_ge
  | sees hwatch => exact absurd (hwatch ▸ hle) hlate.not_ge

/-- **A failed operation leaves no watch behind, and takes no other away.** -/
theorem cleanup_law
    {relay : Relay} (hreachable : relay.Reachable) (demand : Demand)
    {task : Task Relay (Except Failure Unit)} {before : Relay}
    (hmoves : Task.Moves Evolves demand.operation.run relay task before) :
    -- A watch that a step of the demand installs is not in the slot after the demand has failed, whatever others do.
    (∀ left between id failure after,
      task.advance? before = some (left, between) → InstalledBetween id before between →
      Task.Moves Evolves left between (.done (.error failure)) after →
      after.channel.watch.settlement? id ≠ none ∧
      ∀ watch, after.channel.watch.active = some watch → watch.id ≠ id) ∧
    -- A watch that others install meanwhile waits or has come out, unless others give it up.
    (∀ between id left after,
      before.EvolvesSparing id between → InstalledBetween id before between →
      Task.Moves (EvolvesSparing id) task between left after →
      (∃ watch, after.channel.watch.active = some watch ∧ watch.id = id) ∨
      ∃ outcome, after.channel.watch.settlement? id = some (.answered outcome)) := by
  obtain ⟨past, hfollows, haccounts⟩ := hreachable.accounts.moves demand.tidy id hmoves
  refine ⟨fun left between id failure after htaken hid hrest => ?_, fun between id left after hsparing hid hrest => ?_⟩
  · obtain ⟨now, hstep, hfits, hleft⟩ := hfollows.advance htaken
    obtain ⟨more, hend, hafter⟩ := (haccounts.handles hstep hfits).moves hleft (fun h => h) hrest
    have hexpects : Expects none _ := hend failure rfl
    have hinstalled : .installs id ∈ [] ++ past ++ now ++ more :=
      List.mem_append_left _ (List.mem_append_right _ (hstep.installs_of_between hid))
    have hsettled := hafter.parted id ((hexpects.parted id hinstalled).resolve_right (by simp))
    refine ⟨hsettled, fun watch hactive hsame => ?_⟩
    obtain ⟨watches, htracks⟩ := hafter.tracks
    exact hsettled (hsame ▸ htracks.active_unsettled hactive)
  · obtain ⟨hlate, hle⟩ := hid
    obtain ⟨watches, htracks⟩ := haccounts.tracks
    have hnew : .installs id ∉ [] ++ past := fun hold => absurd (haccounts.installed id hold).2 hlate.not_ge
    have hkept : between.channel.watch.settlement? id ≠ some .dropped := by
      refine mt hsparing.2 ?_
      rw [htracks.settlement?_of_late hlate]
      simp
    have hbetween := haccounts.becomes hsparing.1.becomes
    obtain ⟨hlast, hspared⟩ := hbetween.spared_of_moves hfollows hnew hle hkept hrest
    obtain ⟨more, -, hafter⟩ := hbetween.moves hfollows And.left hrest
    obtain ⟨others, hothers⟩ := hafter.tracks
    cases hsettlement : after.channel.watch.settlement? id with
    | none => exact .inl (hothers.exists_active (Nat.one_le_of_lt hlate) hlast hsettlement)
    | some settlement =>
        cases settlement with
        | answered outcome => exact .inr ⟨outcome, rfl⟩
        | dropped => exact absurd hsettlement hspared

/-! ## A statement that is overtaken -/

namespace UnnoticedExit

/-- What is left of a statement after so many steps, and the relay. -/
def course (count : Nat) : Task Relay (Except Failure Unit) × Relay :=
  ((Demand.operation (.runStatement statement)).run.steps? count started).getD (.done (.ok ()), started)

/-- The relay when somebody else begins to wait for a line. -/
def overtaken : Relay :=
  { (course 9).2 with channel := ((course 9).2.channel.install (fun _ => false) none).2 }

/-- The relay when the statement has noticed it. -/
def failed : Relay :=
  ((course 9).1.advance? overtaken).elim overtaken Prod.snd

theorem cleanup_law_overtaken :
    started.Reachable ∧
    -- The statement installs a watch and fails, and the watch is in the slot no more.
    InstalledBetween 1 (course 5).2 (course 6).2 ∧
    Task.Moves Evolves (course 6).1 (course 6).2 (.done (.error (.watch .superseded))) failed ∧
    failed.channel.watch.settlement? 1 ≠ none ∧
    -- The watch that overtook it is left alone.
    InstalledBetween 2 (course 9).2 overtaken ∧
    ((∃ watch, failed.channel.watch.active = some watch ∧ watch.id = 2) ∨
      ∃ outcome, failed.channel.watch.settlement? 2 = some (.answered outcome)) := by
  have hsteps {surroundings : Relay → Relay → Prop} (count : Nat)
      (h : (Demand.operation (.runStatement statement)).run.steps? count started = some (course count)) :
      Task.Moves surroundings (Demand.operation (.runStatement statement)).run started (course count).1
        (course count).2 :=
    Task.moves_of_steps? h
  have hovertakes : (course 9).2.EvolvesSparing 2 overtaken :=
    ⟨Evolves.of_output [.install (fun _ => false) none] rfl, fun h => by cases h⟩
  have hnotices {surroundings : Relay → Relay → Prop} :
      Task.Moves surroundings (course 9).1 overtaken (.done (.error (.watch .superseded))) failed :=
    Task.moves_of_steps? (rfl : (course 9).1.steps? 1 overtaken = some (_, failed))
  have hrest : Task.Moves Evolves (course 6).1 (course 6).2 (.done (.error (.watch .superseded))) failed :=
    (Task.moves_of_steps? (rfl : (course 6).1.steps? 3 (course 6).2 = some (course 9))).trans
      (.around hovertakes.1 hnotices)
  have hfirst : InstalledBetween 1 (course 5).2 (course 6).2 := ⟨by decide, by decide⟩
  have hsecond : InstalledBetween 2 (course 9).2 overtaken := ⟨by decide, by decide⟩
  refine ⟨started_reachable, hfirst, hrest, ?_, hsecond, ?_⟩
  · exact ((cleanup_law started_reachable (.runStatement statement) (hsteps 5 rfl)).1 _ _ 1 _ _ rfl hfirst hrest).1
  · exact (cleanup_law started_reachable (.runStatement statement) (hsteps 9 rfl)).2 _ 2 _ _ hovertakes hsecond hnotices

end UnnoticedExit
end Relay
end CompilerRelay
