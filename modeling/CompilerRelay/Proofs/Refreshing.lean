import CompilerRelay.Proofs.Cleaning
import CompilerRelay.Proofs.FreshAnswers
import CompilerRelay.Proofs.TaskEndings

/-!
# Passes over templates

What is known of templates after a demand had work done on them.

**Input.**  A demand that has such work done, any relay, whatever it knows and whatever its files are, and everything
that may go on beside the demand.

**Form.**  `Preparation`: a demand as three parts, what comes before the pass over the templates, the pass, and what
comes after the answers were forgotten.  `Demand.preparation?`: the demands that have these parts.

**Results.**
* `Demand.operation_eq`: such a demand is its parts, one after the other.
* `Relay.refresh_law`: after a pass that succeeded all is asked anew, and after one that failed the old answers stay.
-/

namespace CompilerRelay

/-! ## Tasks as programs -/

instance (σ : Type) : LawfulMonad (Task σ) :=
  .mk' (Task σ) (fun task => Task.bind_done task) (fun _ _ => rfl) fun task second third => Task.bind_assoc task second third

namespace Relay

/-! ## Demands with a pass -/

/-- An operation with a pass over templates. -/
structure Preparation where
  lead : Operation Unit
  pass : Path → FileTree → Except TemplateFault Unit × FileTree
  /-- What comes after the answers were forgotten. -/
  rest : Operation Unit

/-- Prepare, forget the answers, and go on. -/
def Preparation.operation (preparation : Preparation) : Operation Unit := do
  preparation.lead
  onTemplates preparation.pass
  onChannel Channel.forgetTemplates
  preparation.rest

/-- Work of which only the failure is looked at. -/
def passOf {α : Type} (work : Path → FileTree → Except TemplateFault α × FileTree) :
    Path → FileTree → Except TemplateFault Unit × FileTree :=
  fun root tree => ((work root tree).1.map fun _ => (), (work root tree).2)

/-- Work on templates may be replaced by work that changes the files alike and is followed by the same. -/
theorem onTemplates_bind_congr
    {α β γ : Type} {work : Path → FileTree → Except TemplateFault α × FileTree} {follow : α → Operation γ}
    {other : Path → FileTree → Except TemplateFault β × FileTree} {instead : β → Operation γ}
    (hfiles : ∀ root tree, (work root tree).2 = (other root tree).2)
    (hfollow : ∀ root tree, (attempt .preprocess (work root tree).1 >>= follow) =
      (attempt .preprocess (other root tree).1 >>= instead)) :
    (onTemplates work >>= follow) = (onTemplates other >>= instead) := by
  have hstep {δ : Type} (work : Path → FileTree → Except TemplateFault δ × FileTree) (follow : δ → Operation γ) :
      (onTemplates work >>= follow).run = .step (fun _ => true)
        (fun relay => { relay with files := (work relay.config.projectRoot relay.files).2 })
        fun relay _ => (attempt .preprocess (work relay.config.projectRoot relay.files).1 >>= follow).run :=
    rfl
  refine ExceptT.ext ?_
  rw [hstep, hstep]
  congr 1
  · funext relay
    rw [hfiles]
  · funext relay _
    rw [hfollow]

theorem onTemplates_passOf
    {α γ : Type} (work : Path → FileTree → Except TemplateFault α × FileTree) (follow : Operation γ) :
    (onTemplates work >>= fun _ => follow) = (onTemplates (passOf work) >>= fun _ => follow) := by
  refine onTemplates_bind_congr (fun _ _ => rfl) fun root tree => ?_
  unfold passOf
  cases (work root tree).1 <;> rfl

end Relay

/-- What is generated from a template is another file. -/
theorem Path.generated_same_of_isTemplate
    {file : Path} (htemplate : file.isTemplate = true) :
    file.generated.same file = false := by
  have hextension : file.extension? = some "cmx".toList := by simpa [isTemplate] using htemplate
  obtain ⟨front, stem, -, hfile, -, hset⟩ := exists_components_of_extension? hextension (by decide)
  rw [generated, if_pos htemplate]
  refine Bool.eq_false_iff.mpr fun hsame => ?_
  rw [same_iff, hfile, hset "cm".toList (by decide) (by decide), List.append_singleton_inj] at hsame
  split at hsame <;> simp at hsame

/-- What is generated from a template is told, if nothing fails. -/
theorem Template.generate_fst_of_isTemplate
    {file : Path} (htemplate : file.isTemplate = true) (root : Path) (tree : FileTree) :
    (generate root file tree).1 = .ok file.generated ∨ ∃ fault, (generate root file tree).1 = .error fault := by
  unfold generate
  rw [htemplate]
  simp only [Bool.not_true, Bool.false_eq_true, if_false]
  split
  · exact .inr ⟨_, rfl⟩
  · split
    · exact .inr ⟨_, rfl⟩
    · split
      · exact .inr ⟨_, rfl⟩
      · exact .inl rfl

namespace Relay

/-- After the file of a template was generated, the answers are forgotten. -/
theorem preprocess_bind
    {α : Type} {file : Path} (htemplate : file.isTemplate = true) (follow : Path → Operation α) :
    (preprocess file >>= follow) =
      (onTemplates (passOf fun root files => Template.generate root file files) >>= fun _ =>
        onChannel Channel.forgetTemplates >>= fun _ => follow file.generated) := by
  rw [preprocess, bind_assoc]
  refine onTemplates_bind_congr (fun _ _ => rfl) fun root tree => ?_
  unfold passOf
  rcases Template.generate_fst_of_isTemplate htemplate root tree with htarget | ⟨fault, hfault⟩
  · rw [htarget]
    simp only [attempt_ok, pure_bind, Except.map, Path.generated_same_of_isTemplate htemplate, Bool.not_false, if_true,
      bind_assoc]
  · rw [hfault]
    rfl

end Relay

namespace Demand

open Relay

/-- The parts of a demand that has work done on templates. -/
def preparation? : Demand → Option Preparation
  | .compileFile file =>
      if file.isTemplate then
        some {
          lead := do
            clearForBuild
            clearDiagnostics
            ensureRunning
          pass := passOf fun root files => Template.generate root file files
          rest := send (.compileFile file.generated) }
      else none
  | .runFile file =>
      if file.isTemplate then
        some {
          lead := do
            if !isLoader file then clearForBuild
            clearDiagnostics
            ensureRunning
          pass := passOf fun root files => Template.generate root file files
          rest := send (.runFile file.generated) }
      else none
  | .compileFolders directories =>
      some { lead := ensureRunning, pass := passOf Template.generateAll, rest := runCommand (.compileAllBelow directories) }
  | .cleanTemplates =>
      some {
        lead := clearForBuild
        pass := passOf Template.clean
        rest := cleanAndReport "make clean-cmx" "CMX Clean" }
  | .start | .reset | .stop | .endSession | .clean | .quitDebug | .startLog | .stopLog | .run _ | .runIfStarted _
  | .submit _ | .runStatement _ | .loadAll _ | .submitGoto _ _ | .goto _ _ => none

/-- Such a demand is its parts, one after the other. -/
theorem operation_eq
    {demand : Demand} {preparation : Preparation} (h : demand.preparation? = some preparation) :
    demand.operation = preparation.operation := by
  cases demand with
  | compileFile file =>
      rw [preparation?] at h
      split at h
      · next htemplate =>
          obtain rfl := Option.some.inj h
          simp only [operation, answered, Relay.compileFile, Preparation.operation, bind_assoc, preprocess_bind htemplate,
            pure_bind, bind_pure_unit]
      · cases h
  | runFile file =>
      rw [preparation?] at h
      split at h
      · next htemplate =>
          obtain rfl := Option.some.inj h
          simp only [operation, answered, Relay.runFile, Preparation.operation, preprocess_bind htemplate]
          split <;> simp only [bind_assoc, pure_bind, bind_pure_unit]
      · cases h
  | compileFolders directories =>
      obtain rfl := Option.some.inj h
      simp only [operation, answered, Relay.compileFolders, Preparation.operation, bind_pure_unit]
      rw [onTemplates_passOf]
  | cleanTemplates =>
      obtain rfl := Option.some.inj h
      simp only [operation, answered, Relay.cleanTemplates, Preparation.operation, bind_pure_unit]
      rw [onTemplates_passOf]
  | start | reset | stop | endSession | clean | quitDebug | startLog | stopLog | run | runIfStarted | submit
  | runStatement | loadAll | submitGoto | goto => cases h

end Demand

namespace Relay

/-! ## What is known -/

/-- What is known of a template. -/
def known? (relay : Relay) (template : Path) : Option Bool :=
  relay.channel.origins.known.find? template

/-- What was known is still known, as it was. -/
def Recalls (before after : Relay) : Prop :=
  ∀ template answer, before.known? template = some answer → after.known? template = some answer

namespace Recalls

variable {before between after : Relay}

theorem refl (relay : Relay) : relay.Recalls relay := fun _ _ h => h

theorem trans (hfirst : before.Recalls between) (hsecond : between.Recalls after) : before.Recalls after :=
  fun template answer h => hsecond template answer (hfirst template answer h)

/-- Acts that do not forget. -/
theorem of_acts
    (acts : List ChannelAct) (hacts : ∀ act ∈ acts, act.isForgetting = false)
    (h : Channel.performAll (before.channel, before.files) acts = (after.channel, after.files)) :
    before.Recalls after := by
  intro template answer hknown
  have hlater := Channel.find?_performAll (before.channel, before.files) hknown hacts
  rwa [h] at hlater

/-- Nothing that goes on beside a demand forgets. -/
theorem of_around (h : before.Around after) : before.Recalls after := by
  cases h with
  | givesUp id => exact fun _ _ h => h
  | takesIn line =>
      unfold Relay.locate
      split
      · next location _ => exact of_acts [.locate location] (by simp [ChannelAct.isForgetting]) rfl
      · exact refl _
      · exact refl _
  | happens hchanges =>
      obtain ⟨happening, -, rfl⟩ := hchanges
      cases happening with
      | output number chunk => exact of_acts [.writeBytes chunk] (by simp [ChannelAct.isForgetting]) rfl
      | outputEnd number reason =>
          exact of_acts [.finish, .sessionStopped reason] (by simp [ChannelAct.isForgetting]) rfl
      | report number chunk =>
          simp only [Relay.after, Relay.report]
          split
          · exact refl _
          · exact of_acts [.notify errorNotification, .write (errorLine _)]
              (by simp [ChannelAct.isForgetting]) rfl
      | reportEnd | exit | written | writeFailed | time | files => exact fun _ _ h => h

/-- What was known decides, whatever the files are. -/
theorem origin_eq
    (h : before.Recalls after) {path template : Path} {answer : Bool} (htemplate : path.template? = some template)
    (hknown : before.known? template = some answer) :
    (after.channel.origins.origin after.files path).1 = if answer then template else path := by
  have hlater : after.channel.origins.known.find? template = some answer := h template answer hknown
  rw [TemplateOrigins.origin_fst, Path.edited_of_template? htemplate, TemplateOrigins.isThere, hlater, Option.getD_some]

end Recalls

/-! ## The law -/

/-- The relay when the work of a preparation was done, whether or not it failed. -/
def passed (preparation : Preparation) (relay : Relay) : Relay :=
  { relay with files := (preparation.pass relay.config.projectRoot relay.files).2 }

/-- **What is known after a pass.**  After a pass that succeeded all is asked anew; a pass that failed ends the demand,
and the old answers stay. -/
theorem refresh_law
    {demand : Demand} {preparation : Preparation} (hprepares : demand.preparation? = some preparation)
    {before after : Relay} {result : Except Failure Unit}
    (hmoves : Task.Moves Around demand.operation.run before (.done result) after) :
    -- What comes before the pass failed, so that there was none,
    (∃ failure, result = .error failure ∧
      Task.Moves Around preparation.lead.run before (.done (.error failure)) after) ∨
    -- or the templates were worked on, whatever was known then.
    ∃ passing, Task.Moves Around preparation.lead.run before (.done (.ok ())) passing ∧
      -- If that succeeded, the next step forgets all answers, and from then on the files are asked.
      ((preparation.pass passing.config.projectRoot passing.files).1 = .ok () →
        ∃ fresh, Task.Moves Around (onChannel Channel.forgetTemplates).run (passing.passed preparation)
            (onChannel Channel.forgetTemplates).run fresh ∧
          Channel.AsksAnew (fresh.channel.forgetTemplates, fresh.files) ∧
          Task.Moves Around preparation.rest.run (fresh.changeChannel Channel.forgetTemplates) (.done result) after) ∧
      -- If it failed, the demand ends at once, and what was known before decides, whatever the files are by then.
      ∀ fault, (preparation.pass passing.config.projectRoot passing.files).1 = .error fault →
        result = .error (.preprocess fault) ∧
        Task.Moves Around (.done result) (passing.passed preparation) (.done result) after ∧
        ∀ path template answer, path.template? = some template → passing.known? template = some answer →
          (after.channel.origins.origin after.files path).1 = if answer then template else path := by
  rw [Demand.operation_eq hprepares] at hmoves
  rcases hmoves.of_run_bind with hfailed | ⟨⟨⟩, reached, hlead, hrest⟩
  · exact .inl hfailed
  obtain ⟨passing, hpassing, hpassed⟩ := Task.Moves.of_act_bind
    (fun outcome => (attempt .preprocess outcome >>= fun _ =>
      onChannel Channel.forgetTemplates >>= fun _ => preparation.rest).run) hrest
  refine .inr ⟨passing, hlead.trans (hpassing.beside _), fun hok => ?_, fun fault hfault => ?_⟩
  · simp only [hok] at hpassed
    obtain ⟨fresh, hfresh, hforgotten⟩ := Task.Moves.of_act_bind (fun _ => preparation.rest.run) hpassed
    exact ⟨fresh, hfresh.beside _, Channel.asksAnew_forgetTemplates fresh.channel fresh.files, hforgotten⟩
  · simp only [hfault] at hpassed
    obtain rfl := Task.done.inj hpassed.eq_of_done
    have hrecalls : (passing.passed preparation).Recalls after :=
      (hpassed.related Recalls.refl Recalls.trans Recalls.of_around (Task.within_done _)).1
    exact ⟨rfl, hpassed.beside _, fun path template answer htemplate hknown =>
      hrecalls.origin_eq htemplate hknown⟩

namespace StaleAnswer

open UnnoticedExit (started started_reachable)

/-- A generated file of which the compiler reports errors. -/
def generated : Path := ⟨"./custom/a/w.cm"⟩

/-- Its template. -/
def template : Path := ⟨"./custom/a/w.cmx"⟩

/-- Files in which the template is there, and is no text. -/
def files : FileTree :=
  { nodes :=
      [(["custom".toList], .directory), (["custom".toList, "a".toList], .directory),
        (["custom".toList, "a".toList, "w.cmx".toList], .file 1 [0xFF] false)]
    lastId := 1 }

/-- The relay after an error of the generated file, when there was no template. -/
def asked : Relay := started.after (.output 0 (Utf8.encode "[ERROR:custom/a/w.cm:1:1] x\n"))

/-- The relay when the template was written. -/
def written : Relay := asked.after (.files files)

theorem asked_reachable : asked.Reachable :=
  .around started_reachable (.happens ⟨_, rfl, rfl⟩)

theorem written_reachable : written.Reachable :=
  .around asked_reachable (.happens ⟨_, rfl, rfl⟩)

/-- A demand to compile the custom packages. -/
def demand : Demand := .compileFolders [⟨"./custom"⟩]

/-- The relay after the demand, when there was no template. -/
def compiled : Relay := (demand.operation.run.alone? asked).elim asked Prod.snd

/-- The relay after the demand, when the template was written. -/
def failed : Relay :=
  { written with files := (Template.generateAll written.config.projectRoot written.files).2 }

theorem refresh_law_asked :
    ∃ preparation, demand.preparation? = some preparation ∧
      Task.Moves Around demand.operation.run asked (.done (.ok ())) compiled ∧
      asked.known? template = some false ∧
      ∃ fresh : Relay, Channel.AsksAnew (fresh.channel.forgetTemplates, fresh.files) ∧
        Task.Moves Around preparation.rest.run (fresh.changeChannel Channel.forgetTemplates) (.done (.ok ())) compiled := by
  have hmoves : Task.Moves Around demand.operation.run asked (.done (.ok ())) compiled := Task.moves_of_alone? rfl
  refine ⟨_, rfl, hmoves, by decide +kernel, ?_⟩
  rcases refresh_law rfl hmoves with ⟨failure, hfailure, -⟩ | ⟨passing, -, hsucceeds, hfails⟩
  · cases hfailure
  · cases hpass : (passOf Template.generateAll passing.config.projectRoot passing.files).1 with
    | ok value =>
        obtain ⟨fresh, -, hanew, hrest⟩ := hsucceeds hpass
        exact ⟨fresh, hanew, hrest⟩
    | error fault => cases (hfails fault hpass).1

/-- The template is there, and what the compiler reports is published against the generated file. -/
theorem failed_pass_keeps_answer :
    written.Reachable ∧
    Task.Moves Around demand.operation.run written
      (.done (.error (.preprocess (.file .reading template .notText)))) failed ∧
    generated.template? = some template ∧ failed.files.isFile template = true ∧
    failed.channel.Publishes failed.files "[ERROR:custom/a/w.cm:1:1] y" generated ∧
    (failed.channel.editedLocation failed.files ⟨generated, 0, 0⟩).1.path = generated := by
  have hfault : (passOf Template.generateAll written.config.projectRoot written.files).1 =
      .error (.file .reading template .notText) := by decide +kernel
  have hmoves : demand.operation.run.alone? written =
      some (.error (.preprocess (.file .reading template .notText)), failed) := by
    have hprepares : demand.preparation? = some _ := rfl
    rw [Demand.operation_eq hprepares]
    have hlead : ensureRunning.run.alone? written = some (.ok (), written) := rfl
    exact (Task.alone?_run_bind hlead).trans (Task.alone?_run_bind_error (onTemplates_alone_error hfault))
  have hparse : OutputLine.parse "[ERROR:custom/a/w.cm:1:1] y" failed.channel.root =
      .diagnostic generated ⟨.error, "y", 0, 0⟩ := by decide +kernel
  have hpublishes := Channel.publishes_of_diagnostic hparse failed.files
  rw [show generated.edited (failed.channel.origins.isThere failed.files) = generated from by decide +kernel] at hpublishes
  exact ⟨written_reachable, Task.moves_of_alone? hmoves, by decide +kernel, by decide +kernel, hpublishes,
    by decide +kernel⟩

end StaleAnswer
end Relay
end CompilerRelay
