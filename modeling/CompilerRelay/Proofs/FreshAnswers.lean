import CompilerRelay.Proofs.ChangedFiles
import CompilerRelay.Proofs.TemplateAnswers

/-!
# Answers that are no older than a moment

Where the answers about templates come from, once all of them were forgotten.

**Input.**  A channel that knows no answer, and any acts, with changes of the files by others among them; the output
may be copied to the log meanwhile.

**Form.**  `Channel.AnsweredBy trees channel`: every answer that is known is that of the files in one of these states.
`Channel.AsksAnew state`: from this moment on, a template is looked up in the files when it is first asked for, and every
answer is one of the files at this moment or later.

**Algorithm.**  Copying a line changes the content of a file and nothing else, so that while lines are handled every
path leads where it led.

**Results.**
* `OutputLog.isFile_append`: which files are there does not depend on what is copied to the log.
* `Channel.AnsweredBy.perform`: what an act looks up is answered by the files as they were when it began.
* `Channel.asksAnew_forgetTemplates`: when all is forgotten, all is asked anew.
-/

namespace CompilerRelay

/-- Which files are there does not depend on what is copied to the log. -/
theorem OutputLog.isFile_append (log : OutputLog) (line : String) (tree : FileTree) (path : Path) :
    (log.append line tree).2.isFile path = tree.isFile path := by
  unfold append
  split
  · rfl
  · split
    · rfl
    · next hafter => exact FileTree.isFile_append hafter path

/-! ## Where answers come from -/

namespace Channel

/-- Every answer that is known is that of the files in one of these states, for some spelling of the template. -/
def AnsweredBy (trees : FileTree → Prop) (channel : Channel) : Prop :=
  ∀ template answer, channel.origins.known.find? template = some answer →
    ∃ tree other, trees tree ∧ other.same template = true ∧ answer = tree.isFile other

namespace AnsweredBy

variable {trees : FileTree → Prop} {channel : Channel}

theorem mono (h : AnsweredBy trees channel) {more : FileTree → Prop} (himp : ∀ tree, trees tree → more tree) :
    AnsweredBy more channel := by
  intro template answer hknown
  obtain ⟨tree, other, htree, hanswer⟩ := h template answer hknown
  exact ⟨tree, other, himp tree htree, hanswer⟩

/-- Only what is known counts. -/
theorem of_origins_eq (h : AnsweredBy trees channel) {other : Channel} (horigins : other.origins = channel.origins) :
    AnsweredBy trees other := by
  intro template answer hknown
  rw [horigins] at hknown
  exact h template answer hknown

/-- A path is looked up in files that are as in one of the states. -/
theorem origin
    (h : AnsweredBy trees channel) {first : FileTree} (hfirst : trees first)
    {tree : FileTree} (hsame : ∀ path, tree.isFile path = first.isFile path) (path : Path) :
    AnsweredBy trees { channel with origins := (channel.origins.origin tree path).2 } := by
  intro template answer hknown
  rw [TemplateOrigins.find?_origin] at hknown
  rcases Option.or_eq_some_iff.mp hknown with hold | ⟨-, hnew⟩
  · exact h template answer hold
  · obtain ⟨other, hother, rfl⟩ := Option.map_eq_some_iff.mp hnew
    exact ⟨first, other, hfirst, (Option.filter_eq_some_iff.mp hother).2, hsame other⟩

theorem handleLine
    (h : AnsweredBy trees channel) {first : FileTree} (hfirst : trees first)
    {tree : FileTree} (hsame : ∀ path, tree.isFile path = first.isFile path) (line : String) :
    AnsweredBy trees (channel.handleLine tree line).1 ∧
      ∀ path, (channel.handleLine tree line).2.isFile path = first.isFile path := by
  have hclassified : AnsweredBy trees (channel.classify tree line) := by
    unfold classify
    split
    · exact (h.origin hfirst hsame _).of_origins_eq rfl
    · exact h
    · exact h
  exact ⟨hclassified.of_origins_eq rfl, fun path =>
    (OutputLog.isFile_append (channel.classify tree line).log line tree path).trans (hsame path)⟩

theorem handleLines
    (h : AnsweredBy trees channel) {first : FileTree} (hfirst : trees first)
    {tree : FileTree} (hsame : ∀ path, tree.isFile path = first.isFile path) (lines : List String) :
    AnsweredBy trees (channel.handleLines tree lines).1 ∧
      ∀ path, (channel.handleLines tree lines).2.isFile path = first.isFile path := by
  induction lines generalizing channel tree with
  | nil => exact ⟨h, hsame⟩
  | cons line rest ih =>
      obtain ⟨hline, hkept⟩ := h.handleLine hfirst hsame line
      exact ih hline hkept

theorem writeBytes
    (h : AnsweredBy trees channel) {first : FileTree} (hfirst : trees first)
    {tree : FileTree} (hsame : ∀ path, tree.isFile path = first.isFile path) (chunk : Bytes) :
    AnsweredBy trees (channel.writeBytes tree chunk).1 ∧
      ∀ path, (channel.writeBytes tree chunk).2.isFile path = first.isFile path := by
  have hpushed : AnsweredBy trees { channel with buffer := (channel.buffer.push chunk).2.takeDropped.2 } :=
    h.of_origins_eq rfl
  exact hpushed.handleLines hfirst hsame _

/-- What an act looks up is answered by the files as they were when it began. -/
theorem perform
    {state : Channel × FileTree} (h : AnsweredBy trees state.1) (hstate : trees state.2) (act : ChannelAct) :
    AnsweredBy trees (perform state act).1 := by
  have hself : ∀ path, state.2.isFile path = state.2.isFile path := fun _ => rfl
  cases act with
  | writeBytes chunk => exact (h.writeBytes hstate hself chunk).1
  | write text => exact (h.writeBytes hstate hself (Utf8.encode text)).1
  | writeBlock text =>
      obtain ⟨hwritten, hkept⟩ := h.writeBytes hstate hself (Utf8.encode text)
      simp only [Channel.perform, writeBlock]
      split
      · exact hwritten
      · exact (hwritten.writeBytes hstate hkept (Utf8.encode "\n")).1
  | line line => exact (h.handleLine hstate hself line).1
  | finish =>
      have hflushed : AnsweredBy trees { state.1 with buffer := state.1.buffer.flush.2 } := h.of_origins_eq rfl
      exact (hflushed.handleLines hstate hself state.1.buffer.flush.1.toList).1.of_origins_eq rfl
  | locate location => exact h.origin hstate hself location.path
  | enableLog stamp =>
      refine h.of_origins_eq ?_
      simp only [Channel.perform, enableLog]
      split <;> rfl
  | forgetTemplates => exact fun template answer hknown => by cases hknown
  | clear | clearDiagnostics | install | clearWatch | abandon | disableLog | notify | sessionStopped | files =>
      exact h.of_origins_eq rfl

end AnsweredBy

/-! ## Asking anew -/

/-- From this moment on, a template is looked up in the files when it is first asked for, and every answer that is known
is that of the files at this moment or later. -/
structure AsksAnew (state : Channel × FileTree) : Prop where
  unknown : ∀ template, state.1.origins.known.find? template = none
  editedLocation_eq : ∀ acts location,
    (∀ template, location.path.template? = some template →
      (performAll state acts).1.origins.known.find? template = none) →
    ((performAll state acts).1.editedLocation (performAll state acts).2 location).1 =
      { location with path := location.path.edited (performAll state acts).2.isFile }
  answeredBy : ∀ acts, AnsweredBy (fun tree => ∃ taken, taken <+: acts ∧ tree = (performAll state taken).2)
    (performAll state acts).1

/-- When nothing is known, all is asked anew. -/
theorem asksAnew_of_unknown
    {state : Channel × FileTree} (hunknown : ∀ template, state.1.origins.known.find? template = none) :
    AsksAnew state where
  unknown := hunknown
  editedLocation_eq := by
    intro acts location hnone
    have hpath : location.path.edited ((performAll state acts).1.origins.isThere (performAll state acts).2) =
        location.path.edited (performAll state acts).2.isFile := by
      refine Path.edited_congr fun template htemplate => ?_
      rw [TemplateOrigins.isThere, hnone template htemplate]
      rfl
    simp only [editedLocation, TemplateOrigins.origin_fst, hpath]
  answeredBy := by
    intro acts
    induction acts using List.reverseRecOn with
    | nil =>
        intro template answer hknown
        rw [performAll_nil, hunknown] at hknown
        cases hknown
    | append_singleton acts act ih =>
        rw [performAll_append]
        refine AnsweredBy.perform (ih.mono fun tree htree => ?_) ⟨acts, List.prefix_append _ _, rfl⟩ act
        obtain ⟨taken, htaken, hsame⟩ := htree
        exact ⟨taken, htaken.trans (List.prefix_append _ _), hsame⟩

/-- When all is forgotten, all is asked anew. -/
theorem asksAnew_forgetTemplates (channel : Channel) (tree : FileTree) : AsksAnew (channel.forgetTemplates, tree) :=
  asksAnew_of_unknown fun _ => rfl

end Channel
end CompilerRelay
