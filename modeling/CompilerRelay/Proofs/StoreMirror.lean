import CompilerRelay.Proofs.ChannelRun
import CompilerRelay.Store

/-!
# The store mirrors the channel

The editor keeps a store of diagnostics of its own, which takes in events.  The channel keeps its record for itself.

**Input.**  A fresh channel, any files, and any acts, with changes of the files by others among them.

**History.**  `Channel.reports` is what the lines that were handled say of files, in order, and when all was
forgotten.  It is read off the run alone; neither the record nor the events take part.

**Invariant.**  `Channel.Mirrors` relates the record, the events and the store that takes them in to the history.

**Results.**
* `Channel.Mirrors.perform`: one act keeps the invariant.
* `Channel.mirror_law`: after every run the store holds what the channel has recorded, and every list that was
  emitted is complete and one item longer than the one before.
-/

namespace CompilerRelay
namespace PathMap

variable {α : Type}

/-- Setting the value at a path sets it at every spelling of the path, and nowhere else. -/
theorem find?_insert (map : PathMap α) (path : Path) (value : α) (other : Path) :
    (map.insert path value).find? other =
      if path.same other then some value else map.find? other := by
  unfold find? insert
  induction map.entries with
  | nil => by_cases hsame : path.same other <;> simp [insertInto, holds, hsame]
  | cons entry rest ih =>
      unfold insertInto
      by_cases hpath : entry.1.same path
      · have hsame : entry.1.same other = path.same other := by
          rw [Bool.eq_iff_iff]
          exact ⟨Path.same_trans (Path.same_symm hpath), Path.same_trans hpath⟩
        by_cases hother : path.same other <;> simp [holds, hpath, hsame, hother]
      · have hkept : ¬ holds path entry := hpath
        rw [if_neg hkept]
        by_cases hother : entry.1.same other
        · have hdiffers : ¬ path.same other := by
            intro hsame
            exact hpath (Path.same_trans hother (Path.same_symm hsame))
          simp [holds, hother, hdiffers]
        · simpa [holds, hother] using ih

end PathMap

/-- What is said of diagnostics: that a file has one more, or that all are forgotten. -/
inductive Report where
  | found (path : Path) (diagnostic : Diagnostic)
  | cleared
  deriving DecidableEq, Repr

namespace Report

/-- The diagnostics of a file, after one more report. -/
def extend (path : Path) (items : List Diagnostic) : Report → List Diagnostic
  | .found other diagnostic => if other.same path then items ++ [diagnostic] else items
  | .cleared => []

/-- All that was found in a file since all was last forgotten. -/
def listOf (path : Path) (history : List Report) : List Diagnostic :=
  history.foldl (extend path) []

@[simp] theorem listOf_append_singleton (path : Path) (history : List Report) (report : Report) :
    listOf path (history ++ [report]) = extend path (listOf path history) report := by
  simp [listOf]

/-- A file has one list, however it is spelled. -/
theorem listOf_congr
    {path other : Path}
    (hsame : path.same other)
    (history : List Report) :
    listOf path history = listOf other history := by
  induction history using List.reverseRecOn with
  | nil => rfl
  | append_singleton history report ih =>
      rw [listOf_append_singleton, listOf_append_singleton, ih]
      cases report with
      | found third diagnostic =>
          have hthird : third.same path = third.same other := by
            rw [Bool.eq_iff_iff]
            exact ⟨fun h => Path.same_trans h hsame,
              fun h => Path.same_trans h (Path.same_symm hsame)⟩
          simp [extend, hthird]
      | cleared => rfl

/-- The event that tells of a report, after earlier ones. -/
def announce (earlier : List Report) : Report → Event
  | .found path diagnostic => .diagnostics path (listOf path earlier ++ [diagnostic])
  | .cleared => .diagnosticsCleared

/-- The events that tell of reports, after earlier ones. -/
def announceAll (earlier : List Report) : List Report → List Event
  | [] => []
  | report :: rest => announce earlier report :: announceAll (earlier ++ [report]) rest

theorem announceAll_append (earlier first second : List Report) :
    announceAll earlier (first ++ second) =
      announceAll earlier first ++ announceAll (earlier ++ first) second := by
  induction first generalizing earlier with
  | nil => simp [announceAll]
  | cons report first ih => simp [announceAll, ih]

/-- Each of the events tells of one report, after the reports that the events before it tell of. -/
theorem exists_of_announceAll_eq
    {earlier history : List Report} {before after : List Event} {event : Event}
    (h : announceAll earlier history = before ++ event :: after) :
    ∃ first report second,
      history = first ++ report :: second ∧
      announceAll earlier first = before ∧
      announce (earlier ++ first) report = event := by
  induction history generalizing earlier before with
  | nil => simp [announceAll] at h
  | cons report history ih =>
      cases before with
      | nil =>
          obtain ⟨hevent, -⟩ := List.cons.inj h
          exact ⟨[], report, history, rfl, rfl, by simpa using hevent⟩
      | cons told before =>
          obtain ⟨htold, hrest⟩ := List.cons.inj h
          obtain ⟨first, later, second, hhistory, hbefore, hevent⟩ := ih hrest
          refine ⟨report :: first, later, second, by rw [hhistory]; rfl, ?_, by simpa using hevent⟩
          simp [announceAll, htold, hbefore]

end Report

namespace Event

/-- Whether an event is about diagnostics. -/
def isDiagnostics : Event → Bool
  | .diagnostics _ _ | .diagnosticsCleared => true
  | _ => false

/-- What a file has, as told last, after one more event. -/
def replaceList (path : Path) (items : List Diagnostic) : Event → List Diagnostic
  | .diagnostics other newer => if other.same path then newer else items
  | .diagnosticsCleared => []
  | _ => items

/-- The list that the last event for a file carries, unless all was forgotten since. -/
def lastList (path : Path) (events : List Event) : List Diagnostic :=
  events.foldl (replaceList path) []

theorem lastList_filter (path : Path) (events : List Event) :
    lastList path (events.filter isDiagnostics) = lastList path events := by
  unfold lastList
  generalize ([] : List Diagnostic) = items
  induction events generalizing items with
  | nil => rfl
  | cons event rest ih =>
      cases event with
      | diagnostics other newer => exact ih _
      | diagnosticsCleared => exact ih []
      | output | outputCleared | notification | sessionStopped => exact ih items

/-- What the events told last of a file is what the reports behind them say of it. -/
theorem lastList_announceAll (path : Path) (history : List Report) :
    lastList path (Report.announceAll [] history) = Report.listOf path history := by
  induction history using List.reverseRecOn with
  | nil => rfl
  | append_singleton history report ih =>
      have htold :
          lastList path (Report.announceAll [] (history ++ [report])) =
            replaceList path (lastList path (Report.announceAll [] history))
              (Report.announce history report) := by
        simp [Report.announceAll_append, Report.announceAll, lastList]
      rw [htold, ih, Report.listOf_append_singleton]
      cases report with
      | found other diagnostic =>
          by_cases hsame : other.same path
          · simp [Report.announce, replaceList, Report.extend, hsame,
              Report.listOf_congr hsame]
          · simp [Report.announce, replaceList, Report.extend, hsame]
      | cleared => rfl

end Event

namespace Channel

/-! ## What the lines say -/

/-- What a line says of a file that the user edits, if it does. -/
def reportOf? (channel : Channel) (tree : FileTree) (line : String) : Option Report :=
  match OutputLine.parse line channel.root with
  | .diagnostic path diagnostic => some (.found (channel.origins.origin tree path).1 diagnostic)
  | .definition _ | .plain => none

/-- What lines say, each as it is handled. -/
def lineReports (channel : Channel) (tree : FileTree) : List String → List Report
  | [] => []
  | line :: rest =>
      (channel.reportOf? tree line).toList ++
        (channel.handleLine tree line).1.lineReports (channel.handleLine tree line).2 rest

/-- What the lines say that a chunk ends. -/
def byteReports (channel : Channel) (tree : FileTree) (chunk : Bytes) : List Report :=
  lineReports { channel with buffer := (channel.buffer.push chunk).2.takeDropped.2 } tree
    (channel.buffer.push chunk).1

/-- What is said of diagnostics in the course of an act. -/
def actReports (state : Channel × FileTree) : ChannelAct → List Report
  | .writeBytes chunk => state.1.byteReports state.2 chunk
  | .write text => state.1.byteReports state.2 (Utf8.encode text)
  | .writeBlock text =>
      state.1.byteReports state.2 (Utf8.encode text) ++
        if text.isEmpty || text.toList.getLast? == some '\n' then []
        else (state.1.write state.2 text).1.byteReports (state.1.write state.2 text).2 (Utf8.encode "\n")
  | .line line => (state.1.reportOf? state.2 line).toList
  | .finish =>
      lineReports { state.1 with buffer := state.1.buffer.flush.2 } state.2
        state.1.buffer.flush.1.toList
  | .clearDiagnostics => [.cleared]
  | .clear | .install _ _ | .clearWatch _ | .abandon | .forgetTemplates | .locate _ | .enableLog _
  | .disableLog | .notify _ | .sessionStopped _ | .files _ => []

/-- What is said of diagnostics in the course of a run. -/
def reports (state : Channel × FileTree) : List ChannelAct → List Report
  | [] => []
  | act :: rest => actReports state act ++ reports (perform state act) rest

/-! ## The invariant -/

/-- The record and the events say what the history says, and the store that takes the events in is the record. -/
structure Mirrors (channel : Channel) (history : List Report) : Prop where
  record_eq : ∀ path, (channel.recorded.find? path).getD [] = Report.listOf path history
  record_ne : ∀ path, channel.recorded.find? path ≠ some []
  events_eq : channel.events.filter Event.isDiagnostics = Report.announceAll [] history
  store_eq : (Store.ofEvents channel.events).files = channel.recorded

theorem ofEvents_append_singleton (events : List Event) (event : Event) :
    Store.ofEvents (events ++ [event]) = (Store.ofEvents events).apply event := by
  simp [Store.ofEvents]

/-- An event that is not about diagnostics changes no store. -/
theorem apply_of_not_isDiagnostics
    (store : Store) {event : Event}
    (h : event.isDiagnostics = false) :
    store.apply event = store := by
  cases event <;> first | rfl | cases h

namespace Mirrors

variable {channel : Channel} {history : List Report}

theorem fresh (root log : Path) : (Channel.new root log).Mirrors [] where
  record_eq := fun _ => rfl
  record_ne := by simp [Channel.new]
  events_eq := rfl
  store_eq := rfl

/-- The invariant is a matter of the record and the events alone. -/
theorem of_eq
    (h : channel.Mirrors history) {other : Channel}
    (hrecorded : other.recorded = channel.recorded)
    (hevents : other.events = channel.events) :
    other.Mirrors history := by
  obtain ⟨hrecord, hne, htold, hstore⟩ := h
  constructor
  · rwa [hrecorded]
  · rwa [hrecorded]
  · rwa [hevents]
  · rwa [hevents, hrecorded]

/-- Other events may be emitted at any time. -/
theorem emit
    (h : channel.Mirrors history) {event : Event}
    (hevent : event.isDiagnostics = false) :
    (channel.emit event).Mirrors history := by
  constructor
  · exact h.record_eq
  · exact h.record_ne
  · rw [events_emit, List.filter_append, h.events_eq]
    simp [hevent]
  · rw [events_emit, ofEvents_append_singleton, apply_of_not_isDiagnostics _ hevent]
    exact h.store_eq

/-- Recording a diagnostic keeps the invariant, with the diagnostic reported. -/
theorem record
    (h : channel.Mirrors history) (path : Path) (diagnostic : Diagnostic) :
    (channel.record path diagnostic).Mirrors (history ++ [.found path diagnostic]) := by
  have hrecorded : (channel.record path diagnostic).recorded =
      channel.recorded.insert path (Report.listOf path history ++ [diagnostic]) := by
    rw [← h.record_eq path]
    rfl
  have hevents : (channel.record path diagnostic).events =
      channel.events ++ [.diagnostics path (Report.listOf path history ++ [diagnostic])] := by
    rw [← h.record_eq path]
    exact events_emit _ _
  constructor
  · intro other
    rw [hrecorded, PathMap.find?_insert, Report.listOf_append_singleton]
    by_cases hsame : path.same other
    · simp [hsame, Report.extend, Report.listOf_congr hsame]
    · simp [hsame, Report.extend, h.record_eq other]
  · intro other
    rw [hrecorded, PathMap.find?_insert]
    by_cases hsame : path.same other
    · simp [hsame]
    · simpa [hsame] using h.record_ne other
  · rw [hevents, List.filter_append, h.events_eq, Report.announceAll_append]
    rfl
  · rw [hevents, ofEvents_append_singleton, hrecorded, ← h.store_eq]
    simp [Store.apply, Store.set]

theorem clearDiagnostics (h : channel.Mirrors history) :
    channel.clearDiagnostics.Mirrors (history ++ [.cleared]) := by
  have hevents : channel.clearDiagnostics.events = channel.events ++ [.diagnosticsCleared] :=
    events_emit _ _
  constructor
  · intro path
    rw [Report.listOf_append_singleton]
    rfl
  · intro path
    simp [Channel.clearDiagnostics, Channel.emit]
  · rw [hevents, List.filter_append, h.events_eq, Report.announceAll_append]
    rfl
  · rw [hevents, ofEvents_append_singleton]
    rfl

/-- A line is recorded if it says something of a file, and then shown. -/
theorem handleLine
    (h : channel.Mirrors history) (tree : FileTree) (line : String) :
    (channel.handleLine tree line).1.Mirrors
      (history ++ (channel.reportOf? tree line).toList) := by
  have hclassified : (channel.classify tree line).Mirrors
      (history ++ (channel.reportOf? tree line).toList) := by
    cases hline : OutputLine.parse line channel.root with
    | diagnostic path diagnostic =>
        simp only [classify, reportOf?, hline]
        have hlooked : Mirrors { channel with origins := (channel.origins.origin tree path).2 } history :=
          h.of_eq rfl rfl
        exact hlooked.record (channel.origins.origin tree path).1 diagnostic
    | definition location => simpa [classify, reportOf?, hline] using h
    | plain => simpa [classify, reportOf?, hline] using h
  have hoffered : Mirrors
      { channel.classify tree line with
        watch := ((channel.classify tree line).watch.offer line).2
        log := ((channel.classify tree line).log.append line tree).1 }
      (history ++ (channel.reportOf? tree line).toList) :=
    hclassified.of_eq rfl rfl
  exact hoffered.emit rfl

theorem handleLines
    (h : channel.Mirrors history) (tree : FileTree) (lines : List String) :
    (channel.handleLines tree lines).1.Mirrors (history ++ channel.lineReports tree lines) := by
  induction lines generalizing channel tree history with
  | nil => simpa [lineReports] using h
  | cons line rest ih =>
      rw [handleLines_cons, lineReports, ← List.append_assoc]
      exact ih (h.handleLine tree line) (channel.handleLine tree line).2

theorem writeBytes
    (h : channel.Mirrors history) (tree : FileTree) (chunk : Bytes) :
    (channel.writeBytes tree chunk).1.Mirrors (history ++ channel.byteReports tree chunk) := by
  have hpushed : Mirrors { channel with buffer := (channel.buffer.push chunk).2.takeDropped.2 } history :=
    h.of_eq rfl rfl
  exact hpushed.handleLines tree (channel.buffer.push chunk).1

theorem writeBlock
    (h : channel.Mirrors history) (tree : FileTree) (text : String) :
    (channel.writeBlock tree text).1.Mirrors
      (history ++ actReports (channel, tree) (.writeBlock text)) := by
  have hwritten : (channel.write tree text).1.Mirrors _ := h.writeBytes tree (Utf8.encode text)
  simp only [Channel.writeBlock, actReports]
  split
  · simpa using hwritten
  · rw [← List.append_assoc]
    exact hwritten.writeBytes _ (Utf8.encode "\n")

theorem finish
    (h : channel.Mirrors history) (tree : FileTree) :
    (channel.finish tree).1.Mirrors (history ++ actReports (channel, tree) .finish) := by
  have hflushed : Mirrors { channel with buffer := channel.buffer.flush.2 } history :=
    h.of_eq rfl rfl
  have hhandled := hflushed.handleLines tree channel.buffer.flush.1.toList
  exact hhandled.of_eq rfl rfl

/-- One act keeps the invariant, with what is said in its course. -/
theorem perform
    {state : Channel × FileTree} (h : state.1.Mirrors history)
    (act : ChannelAct) :
    (Channel.perform state act).1.Mirrors (history ++ actReports state act) := by
  cases act with
  | writeBytes chunk => exact h.writeBytes state.2 chunk
  | write text => exact h.writeBytes state.2 (Utf8.encode text)
  | writeBlock text => exact h.writeBlock state.2 text
  | line line => exact h.handleLine state.2 line
  | finish => exact h.finish state.2
  | clearDiagnostics => exact h.clearDiagnostics
  -- The other acts leave the record as it is and emit at most what is not about diagnostics.
  | clear =>
      simp only [actReports, List.append_nil]
      exact h.emit rfl
  | notify message =>
      simp only [actReports, List.append_nil]
      exact h.emit rfl
  | sessionStopped reason =>
      simp only [actReports, List.append_nil]
      exact h.emit rfl
  | enableLog stamp =>
      simp only [actReports, List.append_nil]
      refine h.of_eq ?_ ?_ <;> simp only [Channel.perform, enableLog] <;> split <;> rfl
  | install | clearWatch | abandon | forgetTemplates | locate | disableLog | files =>
      simp only [actReports, List.append_nil]
      exact h.of_eq rfl rfl

/-- A run keeps the invariant. -/
theorem performAll
    {state : Channel × FileTree} (h : state.1.Mirrors history)
    (acts : List ChannelAct) :
    (Channel.performAll state acts).1.Mirrors (history ++ reports state acts) := by
  induction acts generalizing state history with
  | nil => simpa [reports] using h
  | cons act rest ih =>
      rw [performAll_cons, reports, ← List.append_assoc]
      exact ih (h.perform act)

/-- A list that was emitted is what was found in the file so far, and one item longer than the list before. -/
theorem emitted_list
    (h : channel.Mirrors history)
    {before after : List Event} {path : Path} {items : List Diagnostic}
    (hevents : channel.events = before ++ .diagnostics path items :: after) :
    ∃ earlier diagnostic later,
      history = earlier ++ .found path diagnostic :: later ∧
      items = Report.listOf path (earlier ++ [.found path diagnostic]) ∧
      items = Event.lastList path before ++ [diagnostic] := by
  have htold := h.events_eq
  rw [hevents, List.filter_append, List.filter_cons_of_pos (by rfl)] at htold
  obtain ⟨earlier, report, later, hhistory, hbefore, hevent⟩ :=
    Report.exists_of_announceAll_eq htold.symm
  have hlast : Event.lastList path before = Report.listOf path earlier := by
    rw [← Event.lastList_filter, ← hbefore, Event.lastList_announceAll]
  cases report with
  | found other diagnostic =>
      obtain ⟨rfl, hitems⟩ := Event.diagnostics.inj hevent
      refine ⟨earlier, diagnostic, later, hhistory, ?_, ?_⟩
      · simp [← hitems, Report.extend]
      · simp [← hitems, hlast]
  | cleared => cases hevent

end Mirrors

/-! ## The law -/

/-- **The store mirrors the channel.**  It holds after every run, and so after every act. -/
theorem mirror_law
    (root log : Path) (tree : FileTree) (acts : List ChannelAct) :
    let start := (Channel.new root log, tree)
    let channel := (performAll start acts).1
    -- The store that takes in all events so far holds what the channel has recorded.
    (Store.ofEvents channel.events).files = channel.recorded ∧
    (∀ path, (Store.ofEvents channel.events).find? path = channel.recorded.find? path) ∧
    -- What is recorded of a file is all that lines said of it since all was last forgotten.
    (∀ path, (channel.recorded.find? path).getD [] = Report.listOf path (reports start acts)) ∧
    (∀ path, channel.recorded.find? path ≠ some []) ∧
    -- The events tell of each report, in order, and of nothing else.
    channel.events.filter Event.isDiagnostics = Report.announceAll [] (reports start acts) ∧
    -- A list that is emitted is complete and one item longer than the list before.
    (∀ before path items after,
      channel.events = before ++ .diagnostics path items :: after →
      items ≠ [] ∧
      (∃ earlier diagnostic later,
        reports start acts = earlier ++ .found path diagnostic :: later ∧
        items = Report.listOf path (earlier ++ [.found path diagnostic]) ∧
        items = Event.lastList path before ++ [diagnostic])) := by
  intro start channel
  have hfresh : start.1.Mirrors [] := Mirrors.fresh root log
  have hmirrors : channel.Mirrors (reports start acts) := hfresh.performAll acts
  refine ⟨hmirrors.store_eq, ?_, hmirrors.record_eq, hmirrors.record_ne, hmirrors.events_eq, ?_⟩
  · intro path
    rw [Store.find?, hmirrors.store_eq]
  · intro before path items after hevents
    obtain ⟨earlier, diagnostic, later, hhistory, hcomplete, hitems⟩ := hmirrors.emitted_list hevents
    exact ⟨by simp [hitems], earlier, diagnostic, later, hhistory, hcomplete, hitems⟩

end Channel
end CompilerRelay
