import CompilerRelay.Proofs.DefinitionLines
import CompilerRelay.Proofs.EndedTexts
import CompilerRelay.Proofs.OutputSources
import CompilerRelay.Proofs.StoreMirror

/-!
# What a report of errors can pass for

A report puts what a process wrote to its errors into one pair of brackets.  The whole is then cut into lines like all
that is shown, and each line is read on its own.

**Input.**  A channel on which nothing is pending, and any bytes.

**Form.**  `Announcement.headline text` is the first line of the report of a text, and `Announcement.followers text` are
the others: those of the text after its first newline, the last with the bracket that ends the report.

**Algorithm.**  The first line begins with the marker of the relay's own lines, so that it is plain whatever follows.
Nothing stands before the others.

**Results.**
* `Announcement.heard_reportLine`: the lines of a report.
* `Channel.counts_handleLines`: the record grows by one for every line that is a diagnostic.
* `Relay.report_law`: exactly the lines after the first are read as the text has them.
* `Relay.ForgedDiagnostic.report_forges`: a report whose second line is a diagnostic.
-/

namespace CompilerRelay
namespace Announcement

/-- What every report begins with. -/
def banner : List Char :=
  "[INFO: CM_Process_Error -> ".toList

/-- The first line of the report of a text. -/
def headline (text : String) : String :=
  String.ofList (banner ++ LineBuffer.dropReturnChar ((Text.splitOn '\n' (text.toList ++ [']'])).headD []))

/-- The lines of the report of a text after the first: those of the text, the last with the bracket that ends the
report. -/
def followers (text : String) : List String :=
  (Text.splitOn '\n' (text.toList ++ [']'])).tail.map fun line => String.ofList (LineBuffer.dropReturnChar line)

/-- Only the end of a text matters for the return that a line loses. -/
theorem dropReturnChar_append_banner (piece : List Char) :
    LineBuffer.dropReturnChar (banner ++ piece) = banner ++ LineBuffer.dropReturnChar piece := by
  cases piece with
  | nil => decide
  | cons char rest =>
      unfold LineBuffer.dropReturnChar
      rw [List.getLast?_append_of_ne_nil _ (List.cons_ne_nil char rest),
        List.dropLast_append_of_ne_nil (List.cons_ne_nil char rest)]
      split <;> rfl

/-- The lines of a report. -/
theorem heard_reportLine (text : String) : Channel.heard (reportLine text) = headline text :: followers text := by
  obtain ⟨piece, rest, hpieces⟩ := List.exists_cons_of_ne_nil (Text.splitOn_ne_nil '\n' (text.toList ++ [']']))
  have hsplit : Text.splitOn '\n' (reportLine text).toList = (banner ++ piece) :: rest := by
    rw [toList_reportLine, List.append_assoc]
    exact Text.splitOn_append_of_notMem (by decide) hpieces
  rw [Channel.heard_eq, hsplit, headline, followers, hpieces]
  simp [dropReturnChar_append_banner]

/-- The first line is plain, whatever the text is. -/
theorem parse_headline (text : String) (root : Path) : OutputLine.parse (headline text) root = .plain := by
  have hbanner : "[INFO:".toList <+: banner := by decide +kernel
  have hline : (headline text).toList = banner ++ _ := String.toList_ofList
  refine OutputLine.parse_of_info ?_ root
  rw [hline]
  exact hbanner.trans (List.prefix_append banner _)

theorem not_definition_headline (text : String) : ¬ OutputLine.definitionStart <+: (headline text).toList := by
  rw [headline, String.toList_ofList]
  intro hstart
  have hboth : OutputLine.definitionStart <+: banner :=
    List.prefix_of_prefix_length_le hstart (List.prefix_append banner _) (by decide +kernel)
  exact absurd hboth (by decide +kernel)

/-- A text on one line is reported on one line. -/
theorem followers_eq_nil_iff (text : String) : followers text = [] ↔ '\n' ∉ text.toList := by
  rw [followers, List.map_eq_nil_iff]
  constructor
  · intro hnone hmem
    obtain ⟨first, second, hsplit⟩ := List.append_of_mem hmem
    rw [hsplit, List.append_assoc, List.cons_append, Text.splitOn_append_cons] at hnone
    obtain ⟨piece, pieces, hpieces⟩ := List.exists_cons_of_ne_nil (Text.splitOn_ne_nil '\n' first)
    rw [hpieces] at hnone
    exact Text.splitOn_ne_nil _ _ (List.append_eq_nil_iff.mp hnone).2
  · intro hopen
    rw [Text.splitOn_of_notMem (by simpa using hopen)]
    rfl

end Announcement

namespace Channel

/-- How many diagnostics are recorded. -/
def recordedCount (channel : Channel) : Nat :=
  (channel.recorded.entries.map (·.2.length)).sum

theorem sum_insertInto (entries : List (Path × List Diagnostic)) (path : Path) (item : Diagnostic) :
    ((PathMap.insertInto path (((entries.find? (PathMap.holds path)).map Prod.snd).getD [] ++ [item]) entries).map
      (·.2.length)).sum = (entries.map (·.2.length)).sum + 1 := by
  induction entries with
  | nil => rfl
  | cons entry rest ih =>
      rw [PathMap.insertInto, List.find?_cons]
      cases hholds : PathMap.holds path entry with
      | true => simp; omega
      | false => simp [ih]; omega

theorem recordedCount_record (channel : Channel) (path : Path) (item : Diagnostic) :
    (channel.record path item).recordedCount = channel.recordedCount + 1 :=
  sum_insertInto channel.recorded.entries path item

/-- How many events about diagnostics were emitted. -/
def diagnosticsEventCount (channel : Channel) : Nat :=
  channel.events.countP Event.isDiagnostics

/-- A line that is a diagnostic is recorded and told, and another line is neither. -/
theorem counts_handleLine (channel : Channel) (tree : FileTree) (line : String) :
    (channel.handleLine tree line).1.recordedCount =
        channel.recordedCount + (if (OutputLine.parse line channel.root).isDiagnostic then 1 else 0) ∧
      (channel.handleLine tree line).1.diagnosticsEventCount =
        channel.diagnosticsEventCount + if (OutputLine.parse line channel.root).isDiagnostic then 1 else 0 := by
  have hsize : (channel.handleLine tree line).1.recordedCount = (channel.classify tree line).recordedCount := rfl
  have htold : (channel.handleLine tree line).1.diagnosticsEventCount =
      (channel.classify tree line).diagnosticsEventCount := by
    have hevents : (channel.handleLine tree line).1.events = (channel.classify tree line).events ++ [.output line] :=
      events_emit _ _
    simp [diagnosticsEventCount, hevents, Event.isDiagnostics]
  rw [hsize, htold]
  unfold classify
  cases OutputLine.parse line channel.root with
  | diagnostic path item =>
      refine ⟨recordedCount_record _ _ _, ?_⟩
      simp only [diagnosticsEventCount, record, events_emit, List.countP_append]
      rfl
  | definition | plain => exact ⟨rfl, rfl⟩

theorem counts_handleLines (channel : Channel) (tree : FileTree) (lines : List String) :
    (channel.handleLines tree lines).1.recordedCount =
        channel.recordedCount + lines.countP (fun line => (OutputLine.parse line channel.root).isDiagnostic) ∧
      (channel.handleLines tree lines).1.diagnosticsEventCount =
        channel.diagnosticsEventCount + lines.countP fun line => (OutputLine.parse line channel.root).isDiagnostic := by
  induction lines generalizing channel tree with
  | nil => exact ⟨rfl, rfl⟩
  | cons line rest ih =>
      obtain ⟨hsize, htold⟩ := counts_handleLine channel tree line
      obtain ⟨hsizes, htolds⟩ := ih (channel.handleLine tree line).1 (channel.handleLine tree line).2
      rw [handleLine_root] at hsizes htolds
      rw [handleLines_cons, List.countP_cons]
      constructor <;> omega

/-- Lines that are no diagnostics leave the record, and nothing is told of diagnostics. -/
theorem handleLines_of_no_diagnostic
    {channel : Channel} {lines : List String}
    (hnone : ∀ line ∈ lines, (OutputLine.parse line channel.root).isDiagnostic = false) (tree : FileTree) :
    (channel.handleLines tree lines).1.recorded = channel.recorded ∧
      (channel.handleLines tree lines).1.events.filter Event.isDiagnostics =
        channel.events.filter Event.isDiagnostics := by
  induction lines generalizing channel tree with
  | nil => exact ⟨rfl, rfl⟩
  | cons line rest ih =>
      obtain ⟨hline, hrest⟩ := List.forall_mem_cons.mp hnone
      have hlater : ∀ other ∈ rest,
          (OutputLine.parse other (channel.handleLine tree line).1.root).isDiagnostic = false := by
        rwa [handleLine_root]
      obtain ⟨hrecorded, hevents⟩ := ih hlater (channel.handleLine tree line).2
      have hclassified : channel.classify tree line = channel := by
        unfold classify
        cases hparse : OutputLine.parse line channel.root with
        | diagnostic path item => rw [hparse] at hline; cases hline
        | definition | plain => rfl
      have hhere : (channel.handleLine tree line).1.recorded = channel.recorded := by
        change (channel.classify tree line).recorded = _
        rw [hclassified]
      have hshown : (channel.handleLine tree line).1.events = channel.events ++ [.output line] := by
        refine (events_emit _ _).trans ?_
        change (channel.classify tree line).events ++ _ = _
        rw [hclassified]
      rw [handleLines_cons, hrecorded, hevents, hhere, hshown, List.filter_append]
      exact ⟨rfl, List.append_nil _⟩

/-- The record is kept exactly if no line is a diagnostic. -/
theorem recorded_handleLines_iff (channel : Channel) (tree : FileTree) (lines : List String) :
    (channel.handleLines tree lines).1.recorded = channel.recorded ↔
      ∀ line ∈ lines, (OutputLine.parse line channel.root).isDiagnostic = false := by
  refine ⟨fun hsame => ?_, fun hnone => (handleLines_of_no_diagnostic hnone tree).1⟩
  have hsize := (counts_handleLines channel tree lines).1
  have hkept : (channel.handleLines tree lines).1.recordedCount = channel.recordedCount := by
    rw [recordedCount, recordedCount, hsame]
  have hzero : lines.countP (fun line => (OutputLine.parse line channel.root).isDiagnostic) = 0 := by omega
  exact fun line hline => Bool.eq_false_iff.mpr (List.countP_eq_zero.mp hzero line hline)

/-- Nothing is told of diagnostics exactly if no line is one. -/
theorem filter_handleLines_iff (channel : Channel) (tree : FileTree) (lines : List String) :
    (channel.handleLines tree lines).1.events.filter Event.isDiagnostics =
        channel.events.filter Event.isDiagnostics ↔
      ∀ line ∈ lines, (OutputLine.parse line channel.root).isDiagnostic = false := by
  refine ⟨fun hsame => ?_, fun hnone => (handleLines_of_no_diagnostic hnone tree).2⟩
  have htold := (counts_handleLines channel tree lines).2
  have hkept : (channel.handleLines tree lines).1.diagnosticsEventCount = channel.diagnosticsEventCount := by
    rw [diagnosticsEventCount, diagnosticsEventCount, List.countP_eq_length_filter, List.countP_eq_length_filter, hsame]
  have hzero : lines.countP (fun line => (OutputLine.parse line channel.root).isDiagnostic) = 0 := by omega
  exact fun line hline => Bool.eq_false_iff.mpr (List.countP_eq_zero.mp hzero line hline)

/-- The watch for a definition goes on waiting exactly if no line has the marker of definitions. -/
theorem watch_handleLines_iff
    {channel : Channel} {pattern : Pattern} (hpattern : Pattern.compile Relay.definitionPattern = .ok pattern) {id : Nat}
    (hactive : channel.watch.active = some ⟨id, pattern.occursIn, none⟩) (tree : FileTree) (lines : List String) :
    (channel.handleLines tree lines).1.watch = channel.watch ↔
      ∀ line ∈ lines, ¬ OutputLine.definitionStart <+: line.toList := by
  have hnone : lines.findSome? (Watch.outcomeOf? ⟨id, pattern.occursIn, none⟩) = none ↔
      ∀ line ∈ lines, ¬ OutputLine.definitionStart <+: line.toList := by
    rw [List.findSome?_eq_none_iff]
    refine forall₂_congr fun line _ => ?_
    rw [Watch.outcomeOf?_definition hpattern]
    by_cases hline : OutputLine.definitionStart <+: line.toList <;> simp [hline]
  rw [handleLines_watch, WatchSlot.performAll_offers hactive, ← hnone]
  cases hfirst : lines.findSome? (Watch.outcomeOf? ⟨id, pattern.occursIn, none⟩) with
  | none => simp
  | some outcome =>
      simp only [reduceCtorEq, iff_false]
      intro hsame
      have hempty : (channel.watch.settle (.answered outcome)).active = none := by simp [WatchSlot.settle, hactive]
      rw [hsame, hactive] at hempty
      cases hempty

end Channel

namespace Relay

open Announcement

/-- A report that is not blank is handled as its lines. -/
theorem report_channel
    {relay : Relay} (hidle : relay.channel.Idle) {chunk : Bytes} {text : String}
    (htext : trimmedEnd (Utf8.decodeLossy chunk) = text) (hspoken : text.isEmpty = false) :
    (relay.report chunk).channel =
      ((relay.channel.emit (.notification errorNotification)).handleLines relay.files
        (headline text :: followers text)).1 := by
  have hend : ("]" ++ "\n" : String) = "]\n" := by decide
  have hline : reportLine text ++ "\n" = errorLine text :=
    String.append_assoc.trans (congrArg ("[INFO: CM_Process_Error -> " ++ text ++ ·) hend)
  have hshown : (relay.channel.emit (.notification errorNotification)).Idle := hidle
  have hwritten := Channel.perform_write hshown relay.files (reportLine text)
  rw [heard_reportLine, hline] at hwritten
  rw [← hwritten, report, htext, hspoken]
  rfl

/-- **The lines of a report after the first are read as the text has them.**  Nothing is pending and errors arrive.
Blank errors change nothing.  Otherwise the first line of the report is plain, and what follows depends on the others
alone: something is recorded and told exactly if one of them is a diagnostic, and the watch for a definition is settled
exactly if one of them begins with the marker of definitions.  There are none exactly if the text is one line. -/
theorem report_law
    {relay : Relay} (hready : relay.channel.Ready) (hpending : relay.channel.pending = []) (chunk : Bytes) :
    let text := trimmedEnd (Utf8.decodeLossy chunk)
    let after := (relay.report chunk).channel
    (text.isEmpty = true → relay.report chunk = relay) ∧
    (text.isEmpty = false →
      after.shown = relay.channel.shown ++ headline text :: followers text ∧
      OutputLine.parse (headline text) relay.channel.root = .plain ∧
      (after.recorded = relay.channel.recorded ↔
        ∀ line ∈ followers text, (OutputLine.parse line relay.channel.root).isDiagnostic = false) ∧
      (after.events.filter Event.isDiagnostics = relay.channel.events.filter Event.isDiagnostics ↔
        ∀ line ∈ followers text, (OutputLine.parse line relay.channel.root).isDiagnostic = false) ∧
      (∀ pattern id, Pattern.compile definitionPattern = .ok pattern →
        relay.channel.watch.active = some ⟨id, pattern.occursIn, none⟩ →
        (after.watch = relay.channel.watch ↔
          ∀ line ∈ followers text, ¬ OutputLine.definitionStart <+: line.toList))) ∧
    (followers text = [] ↔ '\n' ∉ text.toList) := by
  intro text after
  refine ⟨fun hblank => by rw [report, if_pos hblank], fun hspoken => ?_, followers_eq_nil_iff text⟩
  have hafter : after = ((relay.channel.emit (.notification errorNotification)).handleLines relay.files
      (headline text :: followers text)).1 := report_channel (hready.idle hpending) rfl hspoken
  have hplain := parse_headline text relay.channel.root
  have hlines : (∀ line ∈ headline text :: followers text,
        (OutputLine.parse line relay.channel.root).isDiagnostic = false) ↔
      ∀ line ∈ followers text, (OutputLine.parse line relay.channel.root).isDiagnostic = false := by
    rw [List.forall_mem_cons, hplain]
    exact and_iff_right rfl
  have htold : (relay.channel.emit (.notification errorNotification)).events.filter Event.isDiagnostics =
      relay.channel.events.filter Event.isDiagnostics := by
    rw [Channel.events_emit, List.filter_append]
    exact List.append_nil _
  rw [hafter]
  refine ⟨?_, hplain, ?_, ?_, fun pattern id hpattern hactive => ?_⟩
  · rw [Channel.shown, Channel.handleLines_outputLines]
    exact congrArg (· ++ headline text :: followers text) (Channel.shown_emit relay.channel rfl)
  · rw [← hlines]
    exact Channel.recorded_handleLines_iff _ _ _
  · rw [← hlines, ← htold]
    exact Channel.filter_handleLines_iff _ _ _
  · have hwaiting : (relay.channel.emit (.notification errorNotification)).watch.active =
        some ⟨id, pattern.occursIn, none⟩ := hactive
    have hwatch := Channel.watch_handleLines_iff hpattern hwaiting relay.files (headline text :: followers text)
    rw [List.forall_mem_cons, and_iff_right (not_definition_headline text)] at hwatch
    exact hwatch

/-! ## Errors that pass for a diagnostic -/

namespace ForgedDiagnostic

open UnnoticedExit (started started_reachable)

/-- Errors with a second line that looks like a diagnostic. -/
def errors : Bytes :=
  Utf8.encode "x\n[ERROR:w.cm:1:1] bogus\n"

theorem started_ready : started.channel.Ready :=
  ⟨⟨by decide, rfl⟩, rfl⟩

theorem report_law_forged :
    started.channel.Ready ∧ started.channel.pending = [] ∧
    (started.report errors).channel.recorded ≠ started.channel.recorded := by
  refine ⟨started_ready, rfl, fun hsame => ?_⟩
  have hspoken : (trimmedEnd (Utf8.decodeLossy errors)).isEmpty = false := by decide +kernel
  have hfollowers : followers (trimmedEnd (Utf8.decodeLossy errors)) = ["[ERROR:w.cm:1:1] bogus]"] := by decide +kernel
  have hparse : (OutputLine.parse "[ERROR:w.cm:1:1] bogus]" started.channel.root).isDiagnostic = true := by
    decide +kernel
  obtain ⟨-, -, hrecorded, -⟩ := (report_law started_ready rfl errors).2.1 hspoken
  have hplain := hrecorded.mp hsame
  rw [hfollowers, List.forall_mem_singleton, hparse] at hplain
  cases hplain

/-- The second line is read as a diagnostic, recorded, and told. -/
theorem report_forges :
    started.Reachable ∧ started.channel.pending = [] ∧ started.admits (.report 0 errors) = true ∧
    (started.report errors).channel.shown = ["[INFO: CM_Process_Error -> x", "[ERROR:w.cm:1:1] bogus]"] ∧
    OutputLine.parse "[ERROR:w.cm:1:1] bogus]" started.channel.root =
      .diagnostic (OutputLine.resolve started.channel.root "w.cm".toList) ⟨.error, "bogus]", 0, 0⟩ ∧
    (started.report errors).channel.events.filter Event.isDiagnostics ≠
      started.channel.events.filter Event.isDiagnostics ∧
    (started.report errors).channel.recorded ≠ started.channel.recorded :=
  ⟨started_reachable, rfl, rfl, by decide +kernel, by decide +kernel, by decide +kernel, by decide +kernel⟩

end ForgedDiagnostic
end Relay
end CompilerRelay
