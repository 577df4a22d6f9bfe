import CompilerRelay.Proofs.LogFiles
import CompilerRelay.Proofs.OutputStream

/-!
# What is copied to the log

The file of the log, told by the periods in which the output is copied.

**Input.**  A channel whose log is not enabled, and any acts.  Every enabling succeeds, and others may change the files,
but leave alone what the path of the log leads to.

**Form.**  `Channel.Periods state acts periods`: the acts are cut where the log is first enabled and where it is then
first disabled, and what follows is cut in the same way.  A period has the time at which it begins and the lines that
are shown until it ends.

**Algorithm.**  Every act shows the lines that it completes, and nothing else is shown or copied.  So what an act adds to
the file is a matter of whether the log is enabled when lines are completed, and not of when their bytes arrived.

**Results.**
* `Channel.shown_perform`: an act shows the lines that it completes.
* `Channel.copies_perform`: they are copied if the log is open, and nothing is copied otherwise.
* `Channel.holds_period`: a period puts its header and its lines into the file.
* `Channel.copying_law`: the file holds what it held, and behind that the periods.
-/

namespace CompilerRelay

section Defs

/-- A time during which the output is copied. -/
structure LogPeriod where
  /-- When it begins. -/
  stamp : String
  lines : List String
  deriving DecidableEq, Repr

/-- What is copied in a period: the header, and each line. -/
def LogPeriod.bytes (period : LogPeriod) : Bytes :=
  OutputLog.lineBytes (OutputLog.header period.stamp) ++ period.lines.flatMap OutputLog.lineBytes

namespace ChannelAct

/-- Whether the log is to be enabled after an act. -/
def toggles (enabled : Bool) : ChannelAct → Bool
  | .enableLog _ => true
  | .disableLog => false
  | .writeBytes _ | .write _ | .writeBlock _ | .line _ | .finish | .clear | .clearDiagnostics | .install _ _
  | .clearWatch _ | .abandon | .forgetTemplates | .locate _ | .notify _ | .sessionStopped _ | .files _ => enabled

/-- The lines that an act completes, whatever was pending. -/
def completed (buffer : LineBuffer) : ChannelAct → List String
  | .writeBytes chunk => (buffer.push chunk).1
  | .write text => (buffer.push (Utf8.encode text)).1
  | .writeBlock text =>
      let (lines, between) := buffer.push (Utf8.encode text)
      if text.isEmpty || text.toList.getLast? == some '\n' then lines
      else lines ++ (between.takeDropped.2.push (Utf8.encode "\n")).1
  | .line text => [text]
  | .finish => buffer.flush.1.toList
  | .clear | .clearDiagnostics | .install _ _ | .clearWatch _ | .abandon | .forgetTemplates | .locate _ | .enableLog _
  | .disableLog | .notify _ | .sessionStopped _ | .files _ => []

end ChannelAct

namespace Channel

/-- Enabling the log succeeds, and others leave alone what its path leads to. -/
def Unhindered (state : Channel × FileTree) : ChannelAct → Prop
  | .enableLog stamp => (state.1.enableLog stamp state.2).1 = .ok ()
  | .files after => state.1.log.node? after = state.1.log.node? state.2
  | .writeBytes _ | .write _ | .writeBlock _ | .line _ | .finish | .clear | .clearDiagnostics | .install _ _
  | .clearWatch _ | .abandon | .forgetTemplates | .locate _ | .disableLog | .notify _ | .sessionStopped _ => True

/-- So it is with each of the acts. -/
def UnhinderedAll (state : Channel × FileTree) : List ChannelAct → Prop
  | [] => True
  | act :: rest => Unhindered state act ∧ UnhinderedAll (perform state act) rest

/-- The lines that are shown while acts are done. -/
def ShowsMeanwhile (state : Channel × FileTree) (acts : List ChannelAct) (lines : List String) : Prop :=
  (performAll state acts).1.shown = state.1.shown ++ lines

/-- The periods in which the output is copied, if it is not copied at first.  To enable the log once more begins no new
period, and to disable it once more ends none. -/
inductive Periods : Channel × FileTree → List ChannelAct → List LogPeriod → Prop
  | never {state : Channel × FileTree} {off : List ChannelAct} (hoff : ∀ stamp, .enableLog stamp ∉ off) :
      Periods state off []
  | last {state : Channel × FileTree} {off on : List ChannelAct} {stamp : String} {lines : List String}
      (hoff : ∀ stamp, .enableLog stamp ∉ off) (hon : .disableLog ∉ on)
      (hlines : ShowsMeanwhile (performAll state (off ++ [.enableLog stamp])) on lines) :
      Periods state (off ++ .enableLog stamp :: on) [⟨stamp, lines⟩]
  | more {state : Channel × FileTree} {off on rest : List ChannelAct} {stamp : String} {lines : List String}
      {periods : List LogPeriod} (hoff : ∀ stamp, .enableLog stamp ∉ off) (hon : .disableLog ∉ on)
      (hlines : ShowsMeanwhile (performAll state (off ++ [.enableLog stamp])) on lines)
      (h : Periods (performAll state (off ++ .enableLog stamp :: (on ++ [.disableLog]))) rest periods) :
      Periods state (off ++ .enableLog stamp :: (on ++ .disableLog :: rest)) (⟨stamp, lines⟩ :: periods)

end Channel
end Defs

namespace Channel

variable {state before between after : Channel × FileTree} {acts : List ChannelAct} {lines more : List String}

/-! ## What is shown -/

/-- A line is shown by the act that completes it. -/
theorem shown_perform (state : Channel × FileTree) (act : ChannelAct) :
    (perform state act).1.shown = state.1.shown ++ act.completed state.1.buffer := by
  have hemit (channel : Channel) {event : Event} (hevent : event.outputLine? = none) :
      (channel.emit event).shown = channel.shown ++ [] := by
    rw [shown_emit channel hevent, List.append_nil]
  cases act with
  | writeBytes chunk => exact shown_writeBytes state.1 state.2 chunk
  | write text => exact shown_writeBytes state.1 state.2 (Utf8.encode text)
  | writeBlock text =>
      have htext := shown_writeBytes state.1 state.2 (Utf8.encode text)
      simp only [perform, writeBlock, ChannelAct.completed]
      split
      · exact htext
      · -- The newline ends what is pending behind the text.
        have hnewline := shown_writeBytes (state.1.write state.2 text).1 (state.1.write state.2 text).2
          (Utf8.encode "\n")
        rw [write, pending, writeBytes_buffer, htext, List.append_assoc] at hnewline
        exact hnewline
  | line line => exact handleLines_outputLines state.1 state.2 [line]
  | finish => exact handleLines_outputLines _ state.2 _
  | clear => exact hemit state.1 rfl
  | clearDiagnostics => exact hemit { state.1 with recorded := {} } rfl
  | notify message => exact hemit state.1 rfl
  | sessionStopped reason => exact hemit state.1 rfl
  | enableLog stamp =>
      simp only [perform, enableLog, ChannelAct.completed, List.append_nil]
      split <;> rfl
  | install | clearWatch | abandon | forgetTemplates | locate | disableLog | files =>
      exact (List.append_nil _).symm

theorem exists_showsMeanwhile (state : Channel × FileTree) (acts : List ChannelAct) :
    ∃ lines, ShowsMeanwhile state acts lines := by
  induction acts generalizing state with
  | nil => exact ⟨[], (List.append_nil _).symm⟩
  | cons act rest ih =>
      obtain ⟨lines, hlines⟩ := ih (perform state act)
      refine ⟨act.completed state.1.buffer ++ lines, ?_⟩
      rw [ShowsMeanwhile, performAll_cons, hlines, shown_perform, List.append_assoc]

/-! ## What is copied -/

/-- The log stays as it is, and lines are copied if it is open. -/
structure Copies (before : Channel × FileTree) (lines : List String) (after : Channel × FileTree) : Prop where
  log_eq : after.1.log = before.1.log
  of_disabled : before.1.log.isEnabled = false → before.1.log.node? after.2 = before.1.log.node? before.2
  of_open : ∀ bytes, before.1.log.Holds before.2 bytes →
    before.1.log.Holds after.2 (bytes ++ lines.flatMap OutputLog.lineBytes)

namespace Copies

/-- Nothing is copied, and the file is the same. -/
theorem of_same
    (hlog : after.1.log = before.1.log) (hnode : before.1.log.node? after.2 = before.1.log.node? before.2) :
    Copies before [] after := by
  refine ⟨hlog, fun _ => hnode, ?_⟩
  rintro bytes ⟨id, executable, hhandle, hbefore⟩
  rw [List.flatMap_nil, List.append_nil]
  exact ⟨id, executable, hhandle, hnode.trans hbefore⟩

theorem trans (hfirst : Copies before lines between) (hsecond : Copies between more after) :
    Copies before (lines ++ more) after := by
  obtain ⟨hlog, hdisabled, hopen⟩ := hsecond
  rw [hfirst.log_eq] at hlog hdisabled hopen
  refine ⟨hlog, ?_, ?_⟩
  · intro hoff
    rw [hdisabled hoff, hfirst.of_disabled hoff]
  · intro bytes hbytes
    rw [List.flatMap_append, ← List.append_assoc]
    exact hopen _ (hfirst.of_open bytes hbytes)

theorem atFile (h : Copies before lines after) (hfile : before.1.log.AtFile before.2) : after.1.log.AtFile after.2 := by
  rw [h.log_eq]
  intro hon
  obtain ⟨bytes, hbytes⟩ := hfile hon
  exact ⟨_, h.of_open bytes hbytes⟩

end Copies

/-- Handling a line copies it. -/
theorem copies_handleLine {channel : Channel} {tree : FileTree} (hfile : channel.log.AtFile tree) (line : String) :
    Copies (channel, tree) [line] (channel.handleLine tree line) := by
  have hfiles := handleLine_files channel tree line
  refine ⟨(handleLine_log channel tree line).trans ?_, fun hoff => ?_, fun bytes hopen => ?_⟩
  · cases hon : channel.log.isEnabled with
    | false => rw [OutputLog.append_of_disabled line tree hon]
    | true =>
        obtain ⟨bytes, hopen⟩ := hfile hon
        exact (hopen.append line).1
  · rw [hfiles, OutputLog.append_of_disabled line tree hoff]
  · rw [hfiles, List.flatMap_singleton]
    exact (hopen.append line).2

theorem copies_handleLines
    {channel : Channel} {tree : FileTree} (hfile : channel.log.AtFile tree) (lines : List String) :
    Copies (channel, tree) lines (channel.handleLines tree lines) := by
  induction lines generalizing channel tree with
  | nil => exact .of_same rfl rfl
  | cons line rest ih =>
      have hline := copies_handleLine hfile line
      exact hline.trans (ih (hline.atFile hfile))

/-- Which bytes are pending makes no difference to what is copied of lines. -/
theorem copies_withBuffer
    {channel : Channel} {tree : FileTree} (hfile : channel.log.AtFile tree) (buffer : LineBuffer) (lines : List String) :
    Copies (channel, tree) lines ((channel.withBuffer buffer).handleLines tree lines) := by
  have hcut : (channel.withBuffer buffer).log.AtFile tree := hfile
  obtain ⟨hlog, hdisabled, hopen⟩ := copies_handleLines hcut lines
  exact ⟨hlog, hdisabled, hopen⟩

theorem copies_writeBytes {channel : Channel} {tree : FileTree} (hfile : channel.log.AtFile tree) (chunk : Bytes) :
    Copies (channel, tree) (channel.buffer.push chunk).1 (channel.writeBytes tree chunk) :=
  copies_withBuffer hfile (channel.buffer.push chunk).2.takeDropped.2 (channel.buffer.push chunk).1

/-- An act that does not turn the log on or off: the lines that it completes are copied if the log is open. -/
theorem copies_perform
    {act : ChannelAct} (hstays : act.toggles state.1.log.isEnabled = state.1.log.isEnabled)
    (hfile : state.1.log.AtFile state.2) (hwell : Unhindered state act) :
    Copies state (act.completed state.1.buffer) (perform state act) := by
  cases act with
  | writeBytes chunk => exact copies_writeBytes hfile chunk
  | write text => exact copies_writeBytes hfile (Utf8.encode text)
  | writeBlock text =>
      have htext : Copies state _ (state.1.write state.2 text) := copies_writeBytes hfile (Utf8.encode text)
      simp only [perform, writeBlock, ChannelAct.completed]
      split
      · exact htext
      · have hnewline := copies_writeBytes (htext.atFile hfile) (Utf8.encode "\n")
        rw [write, writeBytes_buffer] at hnewline
        exact htext.trans hnewline
  | line line => exact copies_handleLine hfile line
  | finish =>
      obtain ⟨hlog, hdisabled, hopen⟩ :=
        copies_withBuffer hfile state.1.buffer.flush.2 state.1.buffer.flush.1.toList
      exact ⟨hlog, hdisabled, hopen⟩
  | enableLog stamp =>
      have hon : state.1.log.isEnabled = true := hstays.symm
      have hsame : perform state (.enableLog stamp) = state := by
        simp [perform, enableLog, OutputLog.enable, hon]
      rw [hsame]
      exact .of_same rfl rfl
  | disableLog =>
      have hoff : state.1.log.handle = none := by
        have hdisabled : state.1.log.isEnabled = false := hstays.symm
        simpa [OutputLog.isEnabled] using hdisabled
      refine .of_same ?_ rfl
      change state.1.log.disable = state.1.log
      rw [OutputLog.disable, ← hoff]
  | files after => exact .of_same rfl hwell
  | clear | clearDiagnostics | install | clearWatch | abandon | forgetTemplates | locate | notify | sessionStopped =>
      exact .of_same rfl rfl

/-! ## Runs -/

theorem unhinderedAll_append {first second : List ChannelAct} :
    UnhinderedAll state (first ++ second) ↔
      UnhinderedAll state first ∧ UnhinderedAll (performAll state first) second := by
  induction first generalizing state with
  | nil => simp [UnhinderedAll]
  | cons act rest ih => rw [List.cons_append, UnhinderedAll, UnhinderedAll, ih, performAll_cons, and_assoc]

/-- While the log is not turned on or off, the lines that are shown are copied if it is open. -/
theorem copies_performAll
    (hstays : ∀ act ∈ acts, act.toggles state.1.log.isEnabled = state.1.log.isEnabled)
    (hfile : state.1.log.AtFile state.2) (hwell : UnhinderedAll state acts) (hlines : ShowsMeanwhile state acts lines) :
    Copies state lines (performAll state acts) := by
  induction acts generalizing state lines with
  | nil =>
      obtain rfl : lines = [] := List.append_right_eq_self.mp hlines.symm
      exact .of_same rfl rfl
  | cons act rest ih =>
      have hact := copies_perform (hstays act List.mem_cons_self) hfile hwell.1
      obtain ⟨more, hmore⟩ := exists_showsMeanwhile (perform state act) rest
      obtain rfl : lines = act.completed state.1.buffer ++ more := by
        refine List.append_cancel_left (hlines.symm.trans ?_)
        rw [performAll_cons, hmore, shown_perform, List.append_assoc]
      have hrest : ∀ other ∈ rest, other.toggles (perform state act).1.log.isEnabled =
          (perform state act).1.log.isEnabled := by
        rw [hact.log_eq]
        exact fun other hother => hstays other (List.mem_cons_of_mem act hother)
      exact hact.trans (ih hrest (hact.atFile hfile) hwell.2 hmore)

end Channel

/-- An act that does not enable the log leaves it off. -/
theorem ChannelAct.toggles_off {off : List ChannelAct} (hoff : ∀ stamp, .enableLog stamp ∉ off) :
    ∀ act ∈ off, act.toggles false = false := by
  intro act hact
  cases act with
  | enableLog stamp => exact absurd hact (hoff stamp)
  | _ => rfl

/-- An act that does not disable the log leaves it on. -/
theorem ChannelAct.toggles_on {on : List ChannelAct} (hon : .disableLog ∉ on) :
    ∀ act ∈ on, act.toggles true = true := by
  intro act hact
  cases act with
  | disableLog => exact absurd hact hon
  | _ => rfl

theorem ChannelAct.foldl_toggles {enabled : Bool} {acts : List ChannelAct}
    (hstays : ∀ act ∈ acts, act.toggles enabled = enabled) :
    acts.foldl toggles enabled = enabled := by
  induction acts with
  | nil => rfl
  | cons act rest ih =>
      rw [List.foldl_cons, hstays act List.mem_cons_self]
      exact ih fun other hother => hstays other (List.mem_cons_of_mem act hother)

namespace Channel

variable {state : Channel × FileTree} {off on acts : List ChannelAct} {stamp : String} {lines : List String}

/-- While the log is off, the file is left alone. -/
theorem performAll_off
    (hdisabled : state.1.log.isEnabled = false) (hoff : ∀ stamp, .enableLog stamp ∉ off)
    (hwell : UnhinderedAll state off) :
    (performAll state off).1.log = state.1.log ∧
      state.1.log.node? (performAll state off).2 = state.1.log.node? state.2 := by
  obtain ⟨lines, hlines⟩ := exists_showsMeanwhile state off
  have hstays : ∀ act ∈ off, act.toggles state.1.log.isEnabled = state.1.log.isEnabled := by
    rw [hdisabled]
    exact ChannelAct.toggles_off hoff
  have hfile : state.1.log.AtFile state.2 := fun hon => by simp [hdisabled] at hon
  have hcopies := copies_performAll hstays hfile hwell hlines
  exact ⟨hcopies.log_eq, hcopies.of_disabled hdisabled⟩

/-- To enable the log puts one header into the file. -/
theorem holds_enableLog
    (hdisabled : state.1.log.isEnabled = false) (hordinary : state.1.log.IsOrdinary state.2)
    (hwell : Unhindered state (.enableLog stamp)) :
    (perform state (.enableLog stamp)).1.log.path = state.1.log.path ∧
      (perform state (.enableLog stamp)).1.log.Holds (perform state (.enableLog stamp)).2
        (state.1.log.content state.2 ++ OutputLog.lineBytes (OutputLog.header stamp)) := by
  unfold Unhindered at hwell
  simp only [perform, enableLog] at hwell ⊢
  cases henable : state.1.log.enable stamp state.2 with
  | mk result after =>
      cases result with
      | error cause => simp [henable] at hwell
      | ok opened => exact OutputLog.holds_enable hdisabled hordinary henable

/-- A period puts its header and its lines into the file. -/
theorem holds_period
    (hdisabled : state.1.log.isEnabled = false) (hordinary : state.1.log.IsOrdinary state.2)
    (hoff : ∀ stamp, .enableLog stamp ∉ off) (hon : .disableLog ∉ on)
    (hwell : UnhinderedAll state (off ++ .enableLog stamp :: on))
    (hlines : ShowsMeanwhile (performAll state (off ++ [.enableLog stamp])) on lines) :
    (performAll state (off ++ .enableLog stamp :: on)).1.log.path = state.1.log.path ∧
      (performAll state (off ++ .enableLog stamp :: on)).1.log.Holds (performAll state (off ++ .enableLog stamp :: on)).2
        (state.1.log.content state.2 ++ LogPeriod.bytes ⟨stamp, lines⟩) := by
  obtain ⟨hwellOff, hwellEnable, hwellOn⟩ := unhinderedAll_append.mp hwell
  obtain ⟨hlog, hnode⟩ := performAll_off hdisabled hoff hwellOff
  rw [performAll_append, performAll_cons, performAll_nil] at hlines
  rw [performAll_append, performAll_cons]
  generalize performAll state off = ready at hlog hnode hwellEnable hwellOn hlines ⊢
  have hready : ready.1.log.IsOrdinary ready.2 := by
    intro device
    rw [hlog, hnode]
    exact hordinary device
  obtain ⟨hpath, hopened⟩ := holds_enableLog (by rw [hlog, hdisabled]) hready hwellEnable
  have hcontent : ready.1.log.content ready.2 = state.1.log.content state.2 := by
    rw [hlog, OutputLog.content, hnode, OutputLog.content]
  rw [hcontent] at hopened
  have hstays : ∀ act ∈ on, act.toggles (perform ready (.enableLog stamp)).1.log.isEnabled =
      (perform ready (.enableLog stamp)).1.log.isEnabled := by
    rw [hopened.isEnabled]
    exact ChannelAct.toggles_on hon
  have hcopies := copies_performAll hstays (fun _ => ⟨_, hopened⟩) hwellOn hlines
  rw [hcopies.log_eq]
  refine ⟨hpath.trans (congrArg OutputLog.path hlog), ?_⟩
  rw [LogPeriod.bytes, ← List.append_assoc]
  exact hcopies.of_open _ hopened

/-- Either the log is never enabled, or there is a first time. -/
theorem exists_first_enableLog (acts : List ChannelAct) :
    (∀ stamp, .enableLog stamp ∉ acts) ∨
      ∃ off stamp on, acts = off ++ .enableLog stamp :: on ∧ ∀ stamp, ChannelAct.enableLog stamp ∉ off := by
  induction acts with
  | nil => exact Or.inl fun stamp => List.not_mem_nil
  | cons act rest ih =>
      by_cases hhere : ∃ stamp, act = .enableLog stamp
      · obtain ⟨stamp, rfl⟩ := hhere
        exact Or.inr ⟨[], stamp, rest, rfl, fun stamp => List.not_mem_nil⟩
      · have hcons {front : List ChannelAct} (hfront : ∀ stamp, ChannelAct.enableLog stamp ∉ front) (stamp : String) :
            .enableLog stamp ∉ act :: front := fun hmem =>
          (List.mem_cons.mp hmem).elim (fun hsame => hhere ⟨stamp, hsame.symm⟩) (hfront stamp)
        rcases ih with hnever | ⟨off, stamp, on, rfl, hoff⟩
        · exact Or.inl (hcons hnever)
        · exact Or.inr ⟨act :: off, stamp, on, rfl, hcons hoff⟩

/-- All acts have periods. -/
theorem exists_periods (state : Channel × FileTree) (acts : List ChannelAct) : ∃ periods, Periods state acts periods := by
  induction hlength : acts.length using Nat.strong_induction_on generalizing state acts with
  | _ length ih =>
      rcases exists_first_enableLog acts with hnever | ⟨off, stamp, on, rfl, hoff⟩
      · exact ⟨[], .never hnever⟩
      · by_cases hdisabled : .disableLog ∈ on
        · obtain ⟨on, rest, rfl, hon⟩ := List.eq_append_cons_of_mem hdisabled
          obtain ⟨lines, hlines⟩ := exists_showsMeanwhile (performAll state (off ++ [.enableLog stamp])) on
          obtain ⟨periods, hperiods⟩ := ih rest.length (by simp at hlength; omega)
            (performAll state (off ++ .enableLog stamp :: (on ++ [.disableLog]))) rest rfl
          exact ⟨_, .more hoff hon hlines hperiods⟩
        · obtain ⟨lines, hlines⟩ := exists_showsMeanwhile (performAll state (off ++ [.enableLog stamp])) on
          exact ⟨_, .last hoff hdisabled hlines⟩

/-- What is copied over all periods. -/
theorem Periods.gains
    {periods : List LogPeriod} (h : Periods state acts periods) (hdisabled : state.1.log.isEnabled = false)
    (hordinary : state.1.log.IsOrdinary state.2) (hwell : UnhinderedAll state acts) :
    (performAll state acts).1.log.path = state.1.log.path ∧
      (performAll state acts).1.log.isEnabled = acts.foldl ChannelAct.toggles false ∧
      state.1.log.Gains state.2 (performAll state acts).2 (periods.flatMap LogPeriod.bytes) := by
  induction h with
  | never hoff =>
      obtain ⟨hlog, hnode⟩ := performAll_off hdisabled hoff hwell
      rw [hlog, hdisabled, ChannelAct.foldl_toggles (ChannelAct.toggles_off hoff)]
      exact ⟨rfl, rfl, OutputLog.gains_nil hnode⟩
  | last hoff hon hlines =>
      obtain ⟨hpath, hholds⟩ := holds_period hdisabled hordinary hoff hon hwell hlines
      rw [List.foldl_append, List.foldl_cons, ChannelAct.foldl_toggles (ChannelAct.toggles_off hoff),
        List.flatMap_singleton]
      refine ⟨hpath, ?_, hholds.gains hpath⟩
      exact hholds.isEnabled.trans (ChannelAct.foldl_toggles (ChannelAct.toggles_on hon)).symm
  | @more state off on rest stamp lines periods hoff hon hlines _ ih =>
      have hparts : off ++ .enableLog stamp :: (on ++ .disableLog :: rest) =
          (off ++ .enableLog stamp :: on) ++ .disableLog :: rest := by simp
      have hended : performAll state (off ++ .enableLog stamp :: (on ++ [.disableLog])) =
          perform (performAll state (off ++ .enableLog stamp :: on)) .disableLog := by
        rw [← List.cons_append, ← List.append_assoc, performAll_append]
        rfl
      rw [hended] at ih
      rw [hparts] at hwell ⊢
      rw [performAll_append, performAll_cons, List.foldl_append, List.foldl_cons, List.flatMap_cons]
      obtain ⟨hwellOn, -, hwellRest⟩ := unhinderedAll_append.mp hwell
      obtain ⟨hpath, hholds⟩ := holds_period hdisabled hordinary hoff hon hwellOn hlines
      -- What comes next begins with the log disabled, and the file there.
      generalize performAll state (off ++ .enableLog stamp :: on) = ended at ih hwellRest hpath hholds ⊢
      have hordinaryEnded : (perform ended .disableLog).1.log.IsOrdinary (perform ended .disableLog).2 := by
        obtain ⟨id, executable, -, hnode⟩ := hholds
        intro device hdevice
        cases hdevice.symm.trans hnode
      obtain ⟨hpathRest, henabled, hgains⟩ := ih rfl hordinaryEnded hwellRest
      have hpathEnded : (perform ended .disableLog).1.log.path = state.1.log.path := hpath
      exact ⟨hpathRest.trans hpath, henabled, (hholds.gains hpath).trans (hgains.of_path_eq hpathEnded)⟩

/-! ## The law -/

/-- **The file of the log is a copy of the periods in which it is enabled.**  If every enabling succeeds and others leave
the file alone, it holds what it held at first, and behind that the periods in their order, each with one header and the
lines that were shown in it.  The log is enabled exactly from an enabling to the next disabling.  A line is shown, and so
belongs to a period, by the act that completes it, whatever of it was pending before. -/
theorem copying_law
    (hdisabled : state.1.log.isEnabled = false) (hordinary : state.1.log.IsOrdinary state.2)
    (hwell : UnhinderedAll state acts) :
    (∃ periods, Periods state acts periods) ∧
    (∀ periods, Periods state acts periods →
      state.1.log.content (performAll state acts).2 =
        state.1.log.content state.2 ++ periods.flatMap LogPeriod.bytes ∧
      (periods ≠ [] → state.1.log.HasDirectory (performAll state acts).2 →
        (performAll state acts).2.read state.1.log.path =
          .ok (state.1.log.content state.2 ++ periods.flatMap LogPeriod.bytes))) ∧
    (performAll state acts).1.log.isEnabled = acts.foldl ChannelAct.toggles false ∧
    ∀ (before : Channel × FileTree) (act : ChannelAct),
      (perform before act).1.shown = before.1.shown ++ act.completed before.1.buffer := by
  obtain ⟨periods, hperiods⟩ := exists_periods state acts
  refine ⟨⟨periods, hperiods⟩, ?_, (hperiods.gains hdisabled hordinary hwell).2.1, shown_perform⟩
  intro periods hperiods
  obtain ⟨-, -, hcontent, hthere⟩ := hperiods.gains hdisabled hordinary hwell
  refine ⟨hcontent, fun hsome hdirectory => ?_⟩
  have hbytes : periods.flatMap LogPeriod.bytes ≠ [] := by
    obtain ⟨period, rest, rfl⟩ := List.exists_cons_of_ne_nil hsome
    simp [LogPeriod.bytes, OutputLog.lineBytes]
  obtain ⟨node, hnode, hfile⟩ := (Option.any_eq_true _ _).mp (hthere (Or.inl hbytes))
  rw [OutputLog.read_of_hasDirectory hdirectory hnode hfile, ← hcontent, OutputLog.content, hnode]
  rfl

namespace Toggled

/-- A channel whose log is in a directory that is not there yet. -/
def start : Channel × FileTree :=
  (Channel.new ⟨"/w"⟩ ⟨"/w/log"⟩, {})

/-- What follows once the log is disabled: a line ends, the log is disabled and enabled once more, and the output ends. -/
def later : List ChannelAct :=
  [.writeBytes [0x0A], .disableLog] ++ .enableLog "3" :: [.writeBytes [0x64], .finish]

/-- A line is pending when the log is enabled; another is when it is disabled. -/
def run : List ChannelAct :=
  [.writeBytes [0x61]] ++ .enableLog "1" :: ([.writeBytes [0x62, 0x0A, 0x63], .enableLog "2"] ++ .disableLog :: later)

/-- What is copied. -/
def copied : List LogPeriod :=
  [⟨"1", ["ab"]⟩, ⟨"3", ["d"]⟩]

end Toggled

open Toggled in
/-- The line that ends while the log is disabled is in no period, and to enable the log twice makes one. -/
theorem copying_law_toggled :
    start.1.log.isEnabled = false ∧ start.1.log.IsOrdinary start.2 ∧ UnhinderedAll start run ∧
      Periods start run copied ∧
      (performAll start run).2.read start.1.log.path =
        .ok (Utf8.encode "--- cm output 1 ---\nab\n--- cm output 3 ---\nd\n") := by
  have hordinary : start.1.log.IsOrdinary start.2 := by
    have hnone : start.1.log.node? start.2 = none := by decide +kernel
    simp [OutputLog.IsOrdinary, hnone]
  have hwell : UnhinderedAll start run := by
    refine ⟨trivial, ?_, trivial, ?_, trivial, trivial, trivial, ?_, trivial, trivial, trivial⟩
    all_goals
      unfold Unhindered
      decide +kernel
  have hperiods : Periods start run copied := by
    refine @Periods.more start [.writeBytes [0x61]] [.writeBytes [0x62, 0x0A, 0x63], .enableLog "2"] later "1" ["ab"] _
      (by simp) (by simp) ?_ (@Periods.last _ [.writeBytes [0x0A], .disableLog] [.writeBytes [0x64], .finish] "3" ["d"]
        (by simp) (by simp) ?_)
    · unfold ShowsMeanwhile
      decide +kernel
    · unfold ShowsMeanwhile
      decide +kernel
  have hdirectory : start.1.log.HasDirectory (performAll start run).2 := by
    intro parent hparent _
    obtain rfl : ⟨"/w"⟩ = parent := by
      exact Option.some.inj ((by decide +kernel : start.1.log.path.parent? = some ⟨"/w"⟩).symm.trans hparent)
    decide +kernel
  refine ⟨rfl, hordinary, hwell, hperiods, ?_⟩
  have hread := ((copying_law rfl hordinary hwell).2.1 copied hperiods).2 (by simp [copied]) hdirectory
  exact hread.trans (by decide +kernel)

end Channel
end CompilerRelay
