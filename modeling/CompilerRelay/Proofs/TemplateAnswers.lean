import CompilerRelay.Proofs.ExtensionPairs
import CompilerRelay.Proofs.StoreMirror

/-!
# Answers about templates

Whether a template is there is looked up once, and from then on the answer is the same until all is forgotten.

**Input.**  A channel with any answers, and any acts, with changes of the files by others among them.

**Form.**  `Path.edited isThere path`: the file that the user edits for a path, by a table of the templates that are
there.  `TemplateOrigins.isThere` is such a table: the answers that are known, laid over those of the files.
`Channel.Publishes channel tree line file`: a line is published against this file.

**Invariant.**  A look-up adds an answer and changes none.

**Results.**
* `TemplateOrigins.find?_origin`: what is known after a path was looked up.
* `Channel.find?_performAll`: an answer that is known stays until all is forgotten.
* `Channel.publishes_of_diagnostic`: the file that a diagnostic is published against.
* `Path.edited_same`: files with one template are edited in one place.
-/

namespace CompilerRelay

/-- A path is in every spelling the same as the others. -/
theorem Path.same_congr {path other : Path} (hsame : path.same other = true) (file : Path) :
    file.same path = file.same other := by
  rw [same_iff] at hsame
  rw [same, same, hsame]

/-- A value is found at every spelling of its path. -/
theorem PathMap.find?_congr
    {α : Type} {path other : Path} (hsame : path.same other = true) (map : PathMap α) :
    map.find? path = map.find? other := by
  have hholds : holds (α := α) path = holds other := funext fun entry => Path.same_congr hsame entry.1
  rw [find?, find?, hholds]

namespace Path

/-- The file that the user edits for a path, by a table of the templates that are there. -/
def edited (isThere : Path → Bool) (path : Path) : Path :=
  (path.template?.filter isThere).getD path

theorem edited_of_template?
    {path template : Path} (htemplate : path.template? = some template) (isThere : Path → Bool) :
    path.edited isThere = if isThere template then template else path := by
  rw [edited, htemplate]
  by_cases hthere : isThere template <;> simp [Option.filter, hthere]

theorem edited_of_no_template
    {path : Path} (hnone : path.template? = none) (isThere : Path → Bool) :
    path.edited isThere = path := by
  rw [edited, hnone]
  rfl

/-- Only what the table says of the template matters. -/
theorem edited_congr
    {path : Path} {isThere other : Path → Bool}
    (h : ∀ template, path.template? = some template → isThere template = other template) :
    path.edited isThere = path.edited other := by
  cases htemplate : path.template? with
  | none => rw [edited_of_no_template htemplate, edited_of_no_template htemplate]
  | some template =>
      rw [edited_of_template? htemplate, edited_of_template? htemplate, h template htemplate]

/-- Files with one template are edited in one place: the template, or else they are one file. -/
theorem edited_same
    {first second template other : Path} (hfirst : first.template? = some template)
    (hsecond : second.template? = some other) (hsame : template.same other = true)
    {isThere : Path → Bool} (hanswer : isThere template = isThere other) :
    (first.edited isThere).same (second.edited isThere) = true := by
  rw [edited_of_template? hfirst, edited_of_template? hsecond, hanswer]
  split
  · exact hsame
  · exact template?_injective hfirst hsecond hsame

end Path

namespace TemplateOrigins

theorem origin_fst (origins : TemplateOrigins) (tree : FileTree) (path : Path) :
    (origins.origin tree path).1 = path.edited (origins.isThere tree) := by
  unfold origin
  cases htemplate : path.template? with
  | none => rw [Path.edited_of_no_template htemplate]
  | some template => rw [Path.edited_of_template? htemplate]

theorem find?_remember (origins : TemplateOrigins) (tree : FileTree) (template other : Path) :
    (origins.remember tree template).known.find? other =
      (origins.known.find? other).or (if template.same other then some (tree.isFile template) else none) := by
  unfold remember
  split
  · next answer hknown =>
      by_cases hsame : template.same other = true
      · rw [← PathMap.find?_congr hsame, hknown]
        rfl
      · simp [hsame]
  · next hunknown =>
      rw [PathMap.find?_insert]
      by_cases hsame : template.same other = true
      · rw [← PathMap.find?_congr hsame, hunknown]
        simp [hsame]
      · simp [hsame]

/-- What is known after a path was looked up: what was known before, and the answer of the files on its template. -/
theorem find?_origin (origins : TemplateOrigins) (tree : FileTree) (path other : Path) :
    (origins.origin tree path).2.known.find? other =
      (origins.known.find? other).or ((path.template?.filter (·.same other)).map tree.isFile) := by
  unfold origin
  cases path.template? with
  | none => simp
  | some template =>
      rw [find?_remember]
      by_cases hsame : template.same other <;> simp [Option.filter, hsame]

/-- A path that was looked up has an answer from then on: the one that was given. -/
theorem exists_answer
    (origins : TemplateOrigins) (tree : FileTree) {path template : Path} (htemplate : path.template? = some template) :
    (origins.origin tree path).2.known.find? template = some (origins.isThere tree template) := by
  rw [find?_origin, htemplate]
  cases hknown : origins.known.find? template <;> simp [isThere, hknown, Option.filter]

theorem find?_origin_of_some
    {origins : TemplateOrigins} {other : Path} {answer : Bool} (hknown : origins.known.find? other = some answer)
    (tree : FileTree) (path : Path) :
    (origins.origin tree path).2.known.find? other = some answer := by
  rw [find?_origin, hknown]
  rfl

end TemplateOrigins

/-! ## Answers in the course of a run -/

/-- Whether an act forgets which templates are there. -/
def ChannelAct.isForgetting : ChannelAct → Bool
  | .forgetTemplates => true
  | _ => false

namespace Channel

variable {channel : Channel} {template : Path} {answer : Bool}

theorem find?_handleLine
    (hknown : channel.origins.known.find? template = some answer) (tree : FileTree) (line : String) :
    (channel.handleLine tree line).1.origins.known.find? template = some answer := by
  change (channel.classify tree line).origins.known.find? template = some answer
  unfold classify
  split
  · exact TemplateOrigins.find?_origin_of_some hknown tree _
  · exact hknown
  · exact hknown

theorem find?_handleLines
    (hknown : channel.origins.known.find? template = some answer) (tree : FileTree) (lines : List String) :
    (channel.handleLines tree lines).1.origins.known.find? template = some answer := by
  induction lines generalizing channel tree with
  | nil => exact hknown
  | cons line rest ih => exact ih (find?_handleLine hknown tree line) _

theorem find?_writeBytes
    (hknown : channel.origins.known.find? template = some answer) (tree : FileTree) (chunk : Bytes) :
    (channel.writeBytes tree chunk).1.origins.known.find? template = some answer := by
  let pushed : Channel := { channel with buffer := (channel.buffer.push chunk).2.takeDropped.2 }
  have hpushed : pushed.origins.known.find? template = some answer := hknown
  exact find?_handleLines hpushed tree _

/-- An act that does not forget keeps what is known. -/
theorem find?_perform
    {state : Channel × FileTree} (hknown : state.1.origins.known.find? template = some answer)
    {act : ChannelAct} (hact : act.isForgetting = false) :
    (perform state act).1.origins.known.find? template = some answer := by
  cases act with
  | writeBytes chunk => exact find?_writeBytes hknown state.2 chunk
  | write text => exact find?_writeBytes hknown state.2 (Utf8.encode text)
  | writeBlock text =>
      simp only [perform, writeBlock]
      have hwritten := find?_writeBytes hknown state.2 (Utf8.encode text)
      split
      · exact hwritten
      · exact find?_writeBytes hwritten _ (Utf8.encode "\n")
  | line line => exact find?_handleLine hknown state.2 line
  | finish =>
      let flushed : Channel := { state.1 with buffer := state.1.buffer.flush.2 }
      have hflushed : flushed.origins.known.find? template = some answer := hknown
      exact find?_handleLines hflushed state.2 _
  | locate location => exact TemplateOrigins.find?_origin_of_some hknown state.2 location.path
  | enableLog stamp =>
      simp only [perform, enableLog]
      split <;> exact hknown
  | forgetTemplates => cases hact
  | clear | clearDiagnostics | install | clearWatch | abandon | disableLog | notify | sessionStopped | files =>
      exact hknown

/-- An answer that is known stays until all is forgotten, whatever becomes of the files. -/
theorem find?_performAll
    (state : Channel × FileTree) (hknown : state.1.origins.known.find? template = some answer)
    {acts : List ChannelAct} (hacts : ∀ act ∈ acts, act.isForgetting = false) :
    (performAll state acts).1.origins.known.find? template = some answer := by
  induction acts generalizing state with
  | nil => exact hknown
  | cons act rest ih =>
      obtain ⟨hact, hrest⟩ := List.forall_mem_cons.mp hacts
      exact ih _ (find?_perform hknown hact) hrest

/-! ## Where diagnostics are published -/

/-- Handling a line publishes the list of this file, and shows the line. -/
def Publishes (channel : Channel) (tree : FileTree) (line : String) (file : Path) : Prop :=
  ∃ items, (channel.handleLine tree line).1.events = channel.events ++ [.diagnostics file items, .output line]

/-- A diagnostic is published against the file that the user edits. -/
theorem publishes_of_diagnostic
    {line : String} {path : Path} {diagnostic : Diagnostic}
    (hparse : OutputLine.parse line channel.root = .diagnostic path diagnostic) (tree : FileTree) :
    channel.Publishes tree line (path.edited (channel.origins.isThere tree)) := by
  have hclassified : (channel.classify tree line).events =
      channel.events ++ [.diagnostics (path.edited (channel.origins.isThere tree))
        ((channel.recorded.find? (path.edited (channel.origins.isThere tree))).getD [] ++ [diagnostic])] := by
    unfold classify
    rw [hparse, ← TemplateOrigins.origin_fst]
    exact events_emit _ _
  have hshown : (channel.handleLine tree line).1.events = (channel.classify tree line).events ++ [.output line] :=
    events_emit _ _
  rw [Publishes, hshown, hclassified, List.append_assoc]
  exact ⟨_, rfl⟩

/-- A diagnostic leaves an answer on the template of its file: the one that was given. -/
theorem find?_of_diagnostic
    {line : String} {path : Path} {diagnostic : Diagnostic}
    (hparse : OutputLine.parse line channel.root = .diagnostic path diagnostic) (tree : FileTree)
    (htemplate : path.template? = some template) :
    (channel.handleLine tree line).1.origins.known.find? template = some (channel.origins.isThere tree template) := by
  change (channel.classify tree line).origins.known.find? template = _
  unfold classify
  rw [hparse]
  exact TemplateOrigins.exists_answer channel.origins tree htemplate

/-- Once a table has given its answer on the template of a path, one that knows the answer leads to the same file. -/
theorem edited_eq_of_known
    {path : Path} {first second : Channel} {tree : FileTree}
    (h : ∀ template, path.template? = some template →
      second.origins.known.find? template = some (first.origins.isThere tree template)) (other : FileTree) :
    path.edited (second.origins.isThere other) = path.edited (first.origins.isThere tree) := by
  refine Path.edited_congr fun template htemplate => ?_
  rw [TemplateOrigins.isThere, h template htemplate]
  rfl

end Channel
end CompilerRelay
