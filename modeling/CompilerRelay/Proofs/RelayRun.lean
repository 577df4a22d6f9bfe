import CompilerRelay.Proofs.RelayEvolution

/-!
# Runs of the relay

Everything that may be asked of the relay, in any order, with everything that may go on beside it.

**Input.**  A list of demands.  Between any two steps of one, the surroundings may change the relay, and those who
wait for the outcome of an earlier demand may give up or take in what they waited for.

**Results.**
* `Demand.within_evolves`: every step of every demand keeps the invariant.
* `Relay.Runs.evolves`: so does every run.
* `Relay.Reachable.channel_reachable`: the channel of a reachable relay is reachable.
-/

namespace CompilerRelay

/-! ## Demands -/

/-- What may be asked of the relay. -/
inductive Demand where
  | start
  | reset
  | stop
  | endSession
  | clean
  | cleanTemplates
  | quitDebug
  | startLog
  | stopLog
  | run (code : String)
  | runIfStarted (code : String)
  | submit (statement : Statement)
  | runStatement (statement : Statement)
  | compileFile (file : Path)
  | runFile (file : Path)
  | loadAll (file : Path)
  | compileFolders (directories : List Path)
  | submitGoto (file : Path) (offset : Nat)
  | goto (file : Path) (offset : Nat)

namespace Demand

/-- The task of an operation whose result nobody looks at. -/
def taskOf (operation : Operation α) : Task Relay Unit :=
  operation.run.bind fun _ => .done ()

theorem taskOf_bind (operation : Operation α) (follow : α → Operation β) :
    taskOf (operation >>= follow) = operation.run.bind fun
      | .ok value => taskOf (follow value)
      | .error _ => .done () := by
  refine (Task.bind_assoc operation.run _ _).trans (congrArg _ ?_)
  funext result
  cases result <;> rfl

/-- What the relay does at a demand. -/
def task : Demand → Task Relay Unit
  | .start => taskOf Relay.start
  | .reset => taskOf Relay.reset
  | .stop => taskOf Relay.stop
  | .endSession => taskOf Relay.endSession
  | .clean => taskOf Relay.clean
  | .cleanTemplates => taskOf Relay.cleanTemplates
  | .quitDebug => taskOf Relay.quitDebug
  | .startLog => taskOf Relay.startLog
  | .stopLog => taskOf Relay.stopLog
  | .run code => taskOf (Relay.run code)
  | .runIfStarted code => taskOf (Relay.runIfStarted code)
  | .submit statement => taskOf (Relay.submit statement)
  | .runStatement statement => taskOf (Relay.runStatement statement)
  | .compileFile file => taskOf (Relay.compileFile file)
  | .runFile file => taskOf (Relay.runFile file)
  | .loadAll file => taskOf (Relay.loadAll file)
  | .compileFolders directories => taskOf (Relay.compileFolders directories)
  | .submitGoto file offset => taskOf (Relay.submitGoto file offset)
  | .goto file offset => taskOf (Relay.goto file offset)

/-- Carry demands out, one after the other. -/
def taskOfAll : List Demand → Task Relay Unit
  | [] => .done ()
  | demand :: rest => demand.task.bind fun _ => taskOfAll rest

theorem taskOf_within
    {relation : Relay → Relay → Prop} {operation : Operation α}
    (h : operation.run.Within relation) :
    (taskOf operation).Within relation :=
  h.bind fun _ => Task.within_done _

open Relay in
/-- Every step of every demand keeps the invariant. -/
theorem within_evolves (demand : Demand) : demand.task.Within Relay.Evolves := by
  cases demand with
  | start => exact taskOf_within start_within
  | reset => exact taskOf_within Evolves.keeps.reset_within
  | stop =>
      refine taskOf_within <| Task.within_bind (look_within _) fun running => ?_
      split
      · exact Task.within_bind clearForBuild_within fun _ =>
          Task.within_bind (say_within killedLine) fun _ => endSession_within
      · exact Task.within_pure _
  | endSession => exact taskOf_within endSession_within
  | clean =>
      refine taskOf_within <| Task.within_bind (change_within fun relay => ?_) fun _ =>
        cleanAndReport_within _ _
      exact Evolves.changeOutput [.clear, .write cleanLine] rfl
  | cleanTemplates =>
      exact taskOf_within <| Task.within_bind clearForBuild_within fun _ =>
        Task.within_bind (onTemplates_within _) fun _ =>
          Task.within_bind forgetTemplates_within fun _ => cleanAndReport_within _ _
  | quitDebug =>
      refine taskOf_within <| Task.within_bind (look_within _) fun running => ?_
      split
      · exact send_within .quitDebug
      · exact Task.within_pure _
  | startLog => exact taskOf_within (act_within Evolves.beginLog)
  | stopLog =>
      refine taskOf_within <| change_within fun relay => ?_
      exact Evolves.changeOutput [.disableLog, .write logEndLine] rfl
  | run code => exact taskOf_within (runCommand_within _)
  | runIfStarted code =>
      refine taskOf_within <| Task.within_bind clearForBuild_within fun _ =>
        Task.within_bind clearDiagnostics_within fun _ =>
          Task.within_bind (look_within _) fun running => ?_
      split
      · exact Task.within_bind (send_within _) fun _ => Task.within_pure _
      · exact Task.within_pure _
  | submit statement => exact taskOf_within (submit_within statement)
  | runStatement statement =>
      refine taskOf_within <| Task.within_bind (submit_within statement) fun submitted => ?_
      cases submitted with
      | none => exact Task.within_pure _
      | some watch => exact Task.within_bind (wait_within watch) fun _ => Task.within_pure _
  | compileFile file =>
      exact taskOf_within <| Task.within_bind clearForBuild_within fun _ =>
        Task.within_bind clearDiagnostics_within fun _ =>
          Task.within_bind ensureRunning_within fun _ =>
            Task.within_bind (preprocess_within file) fun _ =>
              Task.within_bind (send_within _) fun _ => Task.within_pure _
  | runFile file =>
      have hrest : ∀ _ : PUnit, (do
          clearDiagnostics
          ensureRunning
          let target ← preprocess file
          send (.runFile target)
          return target : Operation Path).run.Within Evolves := fun _ =>
        Task.within_bind clearDiagnostics_within fun _ =>
          Task.within_bind ensureRunning_within fun _ =>
            Task.within_bind (preprocess_within file) fun _ =>
              Task.within_bind (send_within _) fun _ => Task.within_pure _
      refine taskOf_within ?_
      unfold Relay.runFile
      split
      · exact Task.within_bind clearForBuild_within hrest
      · exact hrest ⟨⟩
  | loadAll file =>
      exact taskOf_within <| Task.within_bind clearDiagnostics_within fun _ =>
        Task.within_bind ensureRunning_within fun _ => send_within _
  | compileFolders directories =>
      exact taskOf_within <| Task.within_bind ensureRunning_within fun _ =>
        Task.within_bind (onTemplates_within _) fun _ =>
          Task.within_bind forgetTemplates_within fun _ => runCommand_within _
  | submitGoto file offset => exact taskOf_within (submitGoto_within file offset)
  | goto file offset =>
      exact taskOf_within <| Task.within_bind (submitGoto_within file offset) waitLocation_within

theorem taskOfAll_within (demands : List Demand) :
    (taskOfAll demands).Within Relay.Evolves := by
  induction demands with
  | nil => exact Task.within_done _
  | cons demand rest ih => exact demand.within_evolves.bind fun _ => ih

end Demand

namespace Relay

/-! ## Runs -/

/-- What may go on beside the demand that is carried out: something happens, or one who waits for the outcome of an
earlier demand gives up or takes in the line that came. -/
inductive Around : Relay → Relay → Prop
  | happens {before after : Relay} (hchanges : before.Changes after) : Around before after
  | givesUp (relay : Relay) (id : Nat) : Around relay (relay.changeChannel (·.clearWatch id))
  | takesIn (relay : Relay) (line : String) : Around relay (locate line relay).2

theorem Around.evolves
    {before after : Relay}
    (h : before.Around after) :
    before.Evolves after := by
  cases h with
  | happens hchanges =>
      obtain ⟨happening, -, rfl⟩ := hchanges
      exact Evolves.happens before happening
  | givesUp id => exact Evolves.changeChannel (.clearWatch id) rfl
  | takesIn line => exact Evolves.locate line before

/-- The relay that demands lead to by some run, finished or not. -/
def Runs (before : Relay) (demands : List Demand) (after : Relay) : Prop :=
  ∃ left, Task.Moves Around (Demand.taskOfAll demands) before left after

/-- A run keeps the invariant. -/
theorem Runs.evolves
    {before after : Relay} {demands : List Demand}
    (h : before.Runs demands after) :
    before.Evolves after := by
  obtain ⟨left, hmoves⟩ := h
  exact (hmoves.related Evolves.refl Evolves.trans Around.evolves
    (Demand.taskOfAll_within demands)).1

/-- The states of the relay between two demands.  A demand may be dropped midway. -/
inductive Reachable : Relay → Prop
  | new (config : CompilerConfig) (environment : Environment) (host : Host) (files : FileTree) :
      Reachable (.new config environment host files)
  | around {before after : Relay}
      (hbefore : Reachable before) (haround : before.Around after) :
      Reachable after
  | done {before after : Relay} {demand : Demand}
      (hbefore : Reachable before)
      (hmoves : Task.Moves Around demand.task before (.done ()) after) :
      Reachable after
  | dropped {before after : Relay} {demand : Demand} {left : Task Relay Unit}
      (hbefore : Reachable before)
      (hmoves : Task.Moves Around demand.task before left after) :
      Reachable after.dropStart

theorem Evolves.channel_reachable
    {before after : Relay}
    (h : before.Evolves after)
    (hbefore : before.channel.Reachable) :
    after.channel.Reachable := by
  obtain ⟨acts, hacts⟩ := h.output
  have hreachable := hbefore.performAll before.files acts
  rwa [hacts] at hreachable

/-- The channel of a reachable relay is reachable. -/
theorem Reachable.channel_reachable
    {relay : Relay}
    (h : relay.Reachable) :
    relay.channel.Reachable := by
  have hmoved {before after : Relay} {demand : Demand} {left : Task Relay Unit}
      (hmoves : Task.Moves Around demand.task before left after) :
      before.Evolves after :=
    (hmoves.related Evolves.refl Evolves.trans Around.evolves demand.within_evolves).1
  induction h with
  | new config environment host files => exact Channel.reachable_new _ _
  | around _ haround ih => exact haround.evolves.channel_reachable ih
  | done _ hmoves ih => exact (hmoved hmoves).channel_reachable ih
  | dropped _ hmoves ih => exact ((hmoved hmoves).trans (Evolves.dropStart _)).channel_reachable ih

end Relay
end CompilerRelay
