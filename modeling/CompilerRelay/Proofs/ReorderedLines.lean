import CompilerRelay.Proofs.EndedTexts
import CompilerRelay.Proofs.StoreHistory
import CompilerRelay.Proofs.TemplateAnswers

/-!
# Lines in another order

What the editor shows of diagnostics depends only on the order in which lines were published against each file.

**Input.**  A fresh channel, files that do not change, and texts that are written to it, each ended by a newline.

**Form.**  `Channel.isPublished state texts file text`: in the run of these texts, the text was published against the
file, in whatever spelling.

**Algorithm.**  The answer on a template is that of the files on the spelling that was looked up first.  All lines whose
file has that template are published against one file, so their order is kept, and with it the spelling that is looked
up first.  Hence every line says the same in both orders, and each file has the same reports.

**Results.**
* `Report.entries_ofEvents`: the entries of a store, from the reports behind its events.
* `Report.snapshot_eq_of_filter`: a snapshot depends on the reports of each file only.
* `Channel.lineReports_eq`: in a run without changes of the files, what a line says does not depend on when it comes.
* `Channel.reordering_law`: another order that keeps the order within each file yields the same snapshot.
-/

namespace CompilerRelay

/-! ## The entries of a store -/

namespace Store

theorem kept_ofEvents (events : List Event) : (ofEvents events).Kept := by
  have hrequests : performAll (events.map .apply) = ofEvents events := List.foldl_map
  exact hrequests ▸ Kept.performAll _

/-- Only the events about diagnostics matter. -/
theorem ofEvents_filter (events : List Event) :
    ofEvents (events.filter Event.isDiagnostics) = ofEvents events := by
  induction events using List.reverseRecOn with
  | nil => rfl
  | append_singleton events event ih =>
      rw [List.filter_append, Channel.ofEvents_append_singleton]
      cases hevent : event.isDiagnostics with
      | false =>
          rw [List.filter_cons_of_neg (by simp [hevent]), List.filter_nil, List.append_nil, ih,
            Channel.apply_of_not_isDiagnostics _ hevent]
      | true =>
          rw [List.filter_cons_of_pos hevent, List.filter_nil, Channel.ofEvents_append_singleton, ih]

end Store

/-- The file that an event tells the diagnostics of. -/
def Event.file? : Event → Option Path
  | .diagnostics path _ => some path
  | .output _ | .outputCleared | .diagnosticsCleared | .notification _ | .sessionStopped _ => none

namespace Report

/-- The file of a report. -/
def file? : Report → Option Path
  | .found path _ => some path
  | .cleared => none

/-- Whether a report is about a file. -/
def isOf (file : Path) (report : Report) : Bool :=
  report.file?.any (·.same file)

/-- The files that have reports, each as it was spelled first. -/
def noteSpelling (files : List Path) : Report → List Path
  | .found path _ => if files.any (·.same path) then files else files ++ [path]
  | .cleared => []

@[inherit_doc noteSpelling]
def spellings (history : List Report) : List Path :=
  history.foldl noteSpelling []

theorem spellings_append_singleton (history : List Report) (report : Report) :
    spellings (history ++ [report]) = noteSpelling (spellings history) report := by
  simp [spellings]

/-- No file is listed twice. -/
theorem pairwise_spellings (history : List Report) :
    (spellings history).Pairwise fun first second => first.same second = false := by
  induction history using List.reverseRecOn with
  | nil => exact List.Pairwise.nil
  | append_singleton history report ih =>
      rw [spellings_append_singleton]
      cases report with
      | cleared => exact List.Pairwise.nil
      | found path diagnostic =>
          rw [noteSpelling]
          split
          · exact ih
          · next hnew =>
              refine List.pairwise_append.mpr ⟨ih, List.pairwise_singleton _ _, fun file hfile last hlast => ?_⟩
              rw [List.mem_singleton.mp hlast]
              exact Bool.eq_false_iff.mpr fun hsame => hnew (List.any_eq_true.mpr ⟨file, hfile, hsame⟩)

theorem insertInto_map
    {α : Type} {files : List Path} (hfiles : files.Pairwise fun first second => first.same second = false)
    (path : Path) (value : α) (values : Path → α) :
    PathMap.insertInto path value (files.map fun file => (file, values file)) =
      (if files.any (·.same path) then files else files ++ [path]).map
        fun file => (file, if path.same file then value else values file) := by
  induction files with
  | nil => simp [PathMap.insertInto]
  | cons first rest ih =>
      obtain ⟨hfirst, hrest⟩ := List.pairwise_cons.mp hfiles
      rw [List.map_cons, PathMap.insertInto]
      by_cases hsame : first.same path = true
      · -- No other file is the path, so that the entries after this one stay.
        have hothers : ∀ file ∈ rest, path.same file = false := fun file hfile =>
          Bool.eq_false_iff.mpr fun hpath => Bool.eq_false_iff.mp (hfirst file hfile) (Path.same_trans hsame hpath)
        have hkept : rest.map (fun file => (file, if path.same file then value else values file)) =
            rest.map fun file => (file, values file) :=
          List.map_congr_left fun file hfile => by simp [hothers file hfile]
        simp [PathMap.holds, hsame, Path.same_symm hsame, hkept]
      · have hother : path.same first = false := Bool.eq_false_iff.mpr fun h => hsame (Path.same_symm h)
        rw [if_neg (show ¬ PathMap.holds path (first, values first) from hsame), ih hrest]
        by_cases hknown : rest.any (·.same path) <;> simp [hsame, hother, hknown]

/-- The store that takes in the events of some reports has an entry for each file, as it was spelled first. -/
theorem entries_ofEvents (history : List Report) :
    (Store.ofEvents (announceAll [] history)).files.entries =
      (spellings history).map fun file => (file, listOf file history) := by
  induction history using List.reverseRecOn with
  | nil => rfl
  | append_singleton history report ih =>
      rw [announceAll_append, announceAll, announceAll, Channel.ofEvents_append_singleton, spellings_append_singleton]
      cases report with
      | cleared => rfl
      | found path diagnostic =>
          have hset : ∀ store : Store, (store.apply (announce ([] ++ history) (.found path diagnostic))).files.entries =
              PathMap.insertInto path (listOf path history ++ [diagnostic]) store.files.entries := by
            intro store
            simp [announce, Store.apply, Store.set, PathMap.insert]
          rw [hset, ih, insertInto_map (pairwise_spellings history)]
          refine List.map_congr_left fun file _ => ?_
          rw [listOf_append_singleton, extend]
          split
          · next hsame => rw [listOf_congr hsame]
          · rfl

theorem isOf_congr {file other : Path} (hsame : file.same other = true) : isOf file = isOf other := by
  funext report
  simp only [isOf, Path.same_congr hsame]

/-- A file is listed as it was spelled in its first report. -/
theorem mem_spellings_iff
    {history : List Report} (hfound : .cleared ∉ history) (file : Path) :
    file ∈ spellings history ↔ (history.filter (isOf file)).head?.bind file? = some file := by
  induction history using List.reverseRecOn generalizing file with
  | nil => simp [spellings]
  | append_singleton history report ih =>
      have hearlier : .cleared ∉ history := fun h => hfound (List.mem_append_left _ h)
      cases report with
      | cleared => simp at hfound
      | found path diagnostic =>
          have hown : isOf file (.found path diagnostic) = path.same file := rfl
          rw [spellings_append_singleton, noteSpelling, List.filter_append, List.head?_append]
          cases hpath : history.filter (isOf path) with
          | nil =>
              have hnew : ¬ (spellings history).any (·.same path) = true := fun hany => by
                obtain ⟨other, hother, hsame⟩ := List.any_eq_true.mp hany
                have hlisted := (ih hearlier other).mp hother
                rw [isOf_congr hsame, hpath] at hlisted
                cases hlisted
              rw [if_neg hnew, List.mem_append, List.mem_singleton, ih hearlier]
              by_cases hsame : path.same file = true
              · rw [isOf_congr (Path.same_symm hsame), hpath]
                simp [isOf, file?, eq_comm]
              · have hdiffers : file ≠ path := fun h => hsame (by rw [h]; exact Path.same_refl path)
                simp [hown, hsame, hdiffers]
          | cons first rest =>
              have hlisted : (spellings history).any (·.same path) = true := by
                have hmem : first ∈ history.filter (isOf path) := hpath ▸ List.mem_cons_self
                obtain ⟨hfirst, hof⟩ := List.mem_filter.mp hmem
                cases first with
                | cleared => exact absurd hfirst hearlier
                | found other more =>
                    refine List.any_eq_true.mpr ⟨other, (ih hearlier other).mpr ?_, hof⟩
                    rw [isOf_congr hof, hpath]
                    rfl
              rw [if_pos hlisted, ih hearlier]
              by_cases hsame : path.same file = true
              · rw [isOf_congr (Path.same_symm hsame), hpath]
                rfl
              · simp [hown, hsame]

/-- The list of a file is that of its own reports. -/
theorem listOf_filter
    {history : List Report} (hfound : .cleared ∉ history) (file : Path) :
    listOf file (history.filter (isOf file)) = listOf file history := by
  induction history using List.reverseRecOn with
  | nil => rfl
  | append_singleton history report ih =>
      have hearlier : .cleared ∉ history := fun h => hfound (List.mem_append_left _ h)
      cases report with
      | cleared => simp at hfound
      | found path diagnostic =>
          rw [List.filter_append, listOf_append_singleton, ← ih hearlier]
          by_cases hsame : path.same file = true
          · simp [isOf, file?, hsame]
          · simp [isOf, file?, hsame, extend]

/-- A snapshot depends on the reports of each file only, and not on how those of different files are mixed. -/
theorem snapshot_eq_of_filter
    {history other : List Report} (hfound : .cleared ∉ history) (hother : .cleared ∉ other)
    (hfilter : ∀ file, other.filter (isOf file) = history.filter (isOf file)) :
    (Store.ofEvents (announceAll [] other)).snapshot = (Store.ofEvents (announceAll [] history)).snapshot := by
  have hnodup (reports : List Report) : (spellings reports).Nodup :=
    (pairwise_spellings reports).imp fun hdiffers heq => by simp [heq] at hdiffers
  have hspellings : (spellings other).Perm (spellings history) :=
    (List.perm_ext_iff_of_nodup (hnodup other) (hnodup history)).mpr fun file => by
      rw [mem_spellings_iff hother, mem_spellings_iff hfound, hfilter]
  have hlists : ∀ file, listOf file other = listOf file history := fun file => by
    rw [← listOf_filter hother, ← listOf_filter hfound, hfilter]
  refine Store.snapshot_eq_of_perm (Store.kept_ofEvents _) ?_
  rw [entries_ofEvents, entries_ofEvents, List.map_congr_left fun file _ => by rw [hlists file]]
  exact hspellings.map _

end Report

/-! ## What a line says -/

namespace OutputLine

/-- What a line says of a file, by a table of the templates that are there. -/
def report? (isThere : Path → Bool) : OutputLine → Option Report
  | .diagnostic path item => some (.found (path.edited isThere) item)
  | .definition _ | .plain => none

/-- The template that is looked up for a line. -/
def template? : OutputLine → Option Path
  | .diagnostic path _ => path.template?
  | .definition _ | .plain => none

theorem report?_congr
    {line : OutputLine} {isThere other : Path → Bool}
    (h : ∀ template, line.template? = some template → isThere template = other template) :
    line.report? isThere = line.report? other := by
  cases line with
  | diagnostic path item => simp only [report?, Path.edited_congr h]
  | definition | plain => rfl

end OutputLine

namespace FileTree

/-- The answers on templates after some were looked up, one after the other: that of the files on the spelling that
came first. -/
def answers (tree : FileTree) (asked : List Path) (template : Path) : Bool :=
  tree.isFile ((asked.find? (·.same template)).getD template)

/-- What is looked up later does not change an answer. -/
theorem answers_append_cons (tree : FileTree) (earlier later : List Path) (template : Path) :
    tree.answers (earlier ++ template :: later) template = tree.answers earlier template := by
  have hown : (template :: later).find? (·.same template) = some template :=
    List.find?_cons_of_pos (Path.same_refl template)
  rw [answers, answers, List.find?_append, hown]
  cases earlier.find? (·.same template) <;> rfl

theorem answers_congr
    {tree : FileTree} {asked others : List Path}
    (h : ∀ template, others.filter (·.same template) = asked.filter (·.same template)) :
    tree.answers others = tree.answers asked := by
  funext template
  rw [answers, answers, ← List.head?_filter, ← List.head?_filter, h]

/-- Spellings of one template that was looked up have one answer. -/
theorem answers_same
    {tree : FileTree} {asked : List Path} {template other : Path} (hmem : template ∈ asked)
    (hsame : template.same other = true) :
    tree.answers asked template = tree.answers asked other := by
  have hfind : asked.find? (·.same template) = asked.find? (·.same other) := by
    simp only [Path.same_congr hsame]
  obtain ⟨first, hfirst⟩ : ∃ first, asked.find? (·.same template) = some first :=
    Option.isSome_iff_exists.mp (List.find?_isSome.mpr ⟨template, hmem, Path.same_refl template⟩)
  rw [answers, answers, ← hfind, hfirst]
  rfl

end FileTree

namespace Channel

/-- What the channel knows of templates is what the files say of those that were looked up. -/
def Knows (channel : Channel) (tree : FileTree) (asked : List Path) : Prop :=
  ∀ template, channel.origins.known.find? template = (asked.find? (·.same template)).map tree.isFile

theorem Knows.isThere_eq
    {channel : Channel} {tree : FileTree} {asked : List Path} (h : channel.Knows tree asked) :
    channel.origins.isThere tree = tree.answers asked := by
  funext template
  rw [TemplateOrigins.isThere, h template, FileTree.answers]
  cases asked.find? (·.same template) <;> rfl

theorem Knows.handleLine
    {channel : Channel} {tree : FileTree} {asked : List Path} (h : channel.Knows tree asked) (line : String) :
    (channel.handleLine tree line).1.Knows tree
      (asked ++ (OutputLine.parse line channel.root).template?.toList) := by
  intro template
  change (channel.classify tree line).origins.known.find? template = _
  unfold classify
  cases OutputLine.parse line channel.root with
  | definition | plain => simpa [OutputLine.template?] using h template
  | diagnostic path diagnostic =>
      change (channel.origins.origin tree path).2.known.find? template = _
      rw [TemplateOrigins.find?_origin, h template, List.find?_append, Option.map_or]
      congr 1
      simp only [OutputLine.template?]
      cases path.template? with
      | none => rfl
      | some other => by_cases hsame : other.same template <;> simp [hsame, Option.filter]

theorem reportOf?_eq (channel : Channel) (tree : FileTree) (line : String) :
    channel.reportOf? tree line = (OutputLine.parse line channel.root).report? (channel.origins.isThere tree) := by
  unfold reportOf?
  cases OutputLine.parse line channel.root with
  | diagnostic path diagnostic => simp only [OutputLine.report?, TemplateOrigins.origin_fst]
  | definition | plain => rfl

/-- While no log is kept, lines change no files. -/
theorem handleLine_of_disabled
    {channel : Channel} (hlog : channel.log.isEnabled = false) (tree : FileTree) (line : String) :
    (channel.handleLine tree line).2 = tree ∧ (channel.handleLine tree line).1.log.isEnabled = false := by
  rw [handleLine_files, handleLine_log, OutputLog.append_of_disabled line tree hlog]
  exact ⟨rfl, hlog⟩

/-- The templates that are looked up for lines, in order. -/
def asks (root : Path) (lines : List String) : List Path :=
  lines.filterMap fun line => (OutputLine.parse line root).template?

theorem asks_cons (root : Path) (line : String) (rest : List String) :
    asks root (line :: rest) = (OutputLine.parse line root).template?.toList ++ asks root rest := by
  rw [asks, List.filterMap_cons]
  cases (OutputLine.parse line root).template? <;> rfl

/-- Lines change no files while no log is kept, and what is known after them are the answers on what they look up. -/
theorem Knows.handleLines
    {channel : Channel} {tree : FileTree} {asked : List Path} (h : channel.Knows tree asked)
    (hlog : channel.log.isEnabled = false) (lines : List String) :
    (channel.handleLines tree lines).2 = tree ∧ (channel.handleLines tree lines).1.log.isEnabled = false ∧
      (channel.handleLines tree lines).1.root = channel.root ∧
      (channel.handleLines tree lines).1.Knows tree (asked ++ asks channel.root lines) := by
  induction lines generalizing channel asked with
  | nil => exact ⟨rfl, hlog, rfl, by simpa [asks] using h⟩
  | cons line rest ih =>
      obtain ⟨htree, hafter⟩ := handleLine_of_disabled hlog tree line
      obtain ⟨hrest, hclosed, hroot, hknows⟩ := ih (h.handleLine line) hafter
      rw [handleLine_root, List.append_assoc, ← asks_cons] at hknows
      rw [handleLine_root] at hroot
      rw [handleLines_cons, htree]
      exact ⟨hrest, hclosed, hroot, hknows⟩

/-- What a line says does not depend on when it comes: the answer on its template is that on the spelling that is looked
up first in the whole run. -/
theorem lineReports_eq
    {channel : Channel} {tree : FileTree} {asked : List Path} (hlog : channel.log.isEnabled = false)
    (h : channel.Knows tree asked) (lines : List String) (later : List Path) :
    channel.lineReports tree lines = lines.filterMap fun line =>
      (OutputLine.parse line channel.root).report? (tree.answers (asked ++ asks channel.root lines ++ later)) := by
  induction lines generalizing channel asked with
  | nil => rfl
  | cons line rest ih =>
      obtain ⟨htree, hafter⟩ := handleLine_of_disabled hlog tree line
      have hrest := ih hafter (h.handleLine line)
      rw [handleLine_root, List.append_assoc asked, ← asks_cons] at hrest
      have hfirst : (OutputLine.parse line channel.root).report? (tree.answers asked) =
          (OutputLine.parse line channel.root).report?
            (tree.answers (asked ++ asks channel.root (line :: rest) ++ later)) := by
        refine OutputLine.report?_congr fun template htemplate => ?_
        rw [asks_cons, htemplate, List.append_assoc]
        exact (FileTree.answers_append_cons tree asked _ template).symm
      rw [lineReports, htree, hrest, reportOf?_eq, h.isThere_eq, hfirst, List.filterMap_cons]
      cases (OutputLine.parse line channel.root).report?
        (tree.answers (asked ++ asks channel.root (line :: rest) ++ later)) <;> rfl

/-! ## Texts that are written -/

/-- Write texts one after the other, each with a newline at its end. -/
def writeEach (state : Channel × FileTree) (texts : List String) : Channel × FileTree :=
  performAll state (texts.map fun text => .write (text ++ "\n"))

/-- The files that a text is published against, in order: those that its diagnostics are told of. -/
def published (state : Channel × FileTree) (text : String) : List Path :=
  ((perform state (.write (text ++ "\n"))).1.events.drop state.1.events.length).filterMap Event.file?

/-- Texts that are written one after the other, each with the files that it is published against. -/
def publications (state : Channel × FileTree) : List String → List (String × List Path)
  | [] => []
  | text :: rest => (text, published state text) :: publications (perform state (.write (text ++ "\n"))) rest

/-- Whether a text is published against a file when texts are written one after the other. -/
def isPublished (state : Channel × FileTree) (texts : List String) (file : Path) (text : String) : Bool :=
  (publications state texts).any fun entry => entry.1 == text && entry.2.any (·.same file)

section Written

variable {channel : Channel} {tree : FileTree}

theorem writeEach_eq
    (hidle : channel.Idle) (texts : List String) :
    writeEach (channel, tree) texts = channel.handleLines tree (texts.flatMap heard) := by
  induction texts generalizing channel tree with
  | nil => rfl
  | cons text rest ih =>
      rw [writeEach, List.map_cons, performAll_cons, ← writeEach, perform_write hidle, List.flatMap_cons,
        handleLines_append]
      exact ih (hidle.handleLines tree (heard text))

/-- A line tells of the file that it reports. -/
theorem exists_events_of_handleLine (channel : Channel) (tree : FileTree) (line : String) :
    ∃ told, (channel.handleLine tree line).1.events = channel.events ++ told ∧
      told.filterMap Event.file? = (channel.reportOf? tree line).toList.filterMap Report.file? := by
  have hshown : (channel.handleLine tree line).1.events = (channel.classify tree line).events ++ [.output line] :=
    events_emit _ _
  unfold classify at hshown
  unfold reportOf?
  cases hline : OutputLine.parse line channel.root with
  | diagnostic path item =>
      rw [hline] at hshown
      simp only [record, events_emit] at hshown
      exact ⟨_, hshown.trans (List.append_assoc _ _ _), rfl⟩
  | definition | plain =>
      rw [hline] at hshown
      exact ⟨_, hshown, rfl⟩

/-- Lines tell of the files that they report. -/
theorem exists_events_of_handleLines (channel : Channel) (tree : FileTree) (lines : List String) :
    ∃ told, (channel.handleLines tree lines).1.events = channel.events ++ told ∧
      told.filterMap Event.file? = (channel.lineReports tree lines).filterMap Report.file? := by
  induction lines generalizing channel tree with
  | nil => exact ⟨[], by simp, rfl⟩
  | cons line rest ih =>
      obtain ⟨later, hlater, hfiles⟩ := ih (channel.handleLine tree line).1 (channel.handleLine tree line).2
      obtain ⟨first, hfirst, hfile⟩ := exists_events_of_handleLine channel tree line
      refine ⟨first ++ later, ?_, ?_⟩
      · rw [handleLines_cons, hlater, hfirst, List.append_assoc]
      · rw [List.filterMap_append, hfile, hfiles, lineReports, List.filterMap_append]

theorem published_eq
    (hidle : channel.Idle) (text : String) :
    published (channel, tree) text = (channel.lineReports tree (heard text)).filterMap Report.file? := by
  obtain ⟨told, htold, hfiles⟩ := exists_events_of_handleLines channel tree (heard text)
  rw [published, perform_write hidle, htold, List.drop_left, hfiles]

/-- What texts publish is what each of their lines says, by the answers on what is looked up in the whole run. -/
theorem publications_eq
    (hidle : channel.Idle) (hlog : channel.log.isEnabled = false)
    {asked : List Path} (h : channel.Knows tree asked) (texts : List String) :
    publications (channel, tree) texts = texts.map fun text =>
      (text, (heard text).filterMap fun line =>
        ((OutputLine.parse line channel.root).report?
          (tree.answers (asked ++ asks channel.root (texts.flatMap heard)))).bind Report.file?) := by
  induction texts generalizing channel asked with
  | nil => rfl
  | cons text rest ih =>
      obtain ⟨htree, hclosed, hroot, hknows⟩ := h.handleLines hlog (heard text)
      have hrest := ih (hidle.handleLines tree (heard text)) hclosed hknows
      have hasked : asked ++ asks channel.root (heard text) ++ asks channel.root (rest.flatMap heard) =
          asked ++ asks channel.root ((text :: rest).flatMap heard) := by
        simp [asks]
      have hafter : perform (channel, tree) (.write (text ++ "\n")) = ((channel.handleLines tree (heard text)).1, tree) :=
        (perform_write hidle tree text).trans (Prod.ext rfl htree)
      rw [hroot, hasked] at hrest
      rw [publications, hafter, hrest, published_eq hidle, List.map_cons,
        lineReports_eq hlog h _ (asks channel.root (rest.flatMap heard)), hasked, List.filterMap_filterMap]

end Written

/-! ## Lines in another order -/

section Reordered

variable {α β : Type}

theorem filter_filterMap_eq (f : α → Option β) (p : β → Bool) (items : List α) :
    (items.filterMap f).filter p = (items.filter fun item => (f item).any p).filterMap f := by
  rw [List.filter_filterMap, List.filterMap_filter]
  refine List.filterMap_congr fun item _ => ?_
  cases f item with
  | none => rfl
  | some value => by_cases hvalue : p value <;> simp [Option.filter, hvalue]

theorem filter_flatMap_eq (f : α → List β) (p : β → Bool) (items : List α) :
    (items.flatMap f).filter p = ((items.filter fun item => (f item).any p).flatMap f).filter p := by
  induction items with
  | nil => rfl
  | cons item rest ih =>
      rw [List.flatMap_cons, List.filter_append, ih, List.filter_cons]
      by_cases hitem : (f item).any p = true
      · rw [if_pos hitem, List.flatMap_cons, List.filter_append]
      · have hnone : (f item).filter p = [] :=
          List.filter_eq_nil_iff.mpr fun value hvalue hp => hitem (List.any_eq_true.mpr ⟨value, hvalue, hp⟩)
        rw [if_neg hitem, hnone, List.nil_append]

variable {root : Path} {tree : FileTree} {lines other : List String}

/-- What a line says when lines are handled in a row. -/
def reportIn (root : Path) (tree : FileTree) (lines : List String) (line : String) : Option Report :=
  (OutputLine.parse line root).report? (tree.answers (asks root lines))

/-- Lines that look up one template are published against one file. -/
theorem exists_file_of_template
    (tree : FileTree) {first : String} (hfirst : first ∈ lines) {template : Path}
    (htemplate : (OutputLine.parse first root).template?.any (·.same template) = true) :
    ∃ file, ∀ line, (OutputLine.parse line root).template?.any (·.same template) = true →
      (reportIn root tree lines line).any (Report.isOf file) = true := by
  cases hparse : OutputLine.parse first root with
  | definition | plain => simp [hparse, OutputLine.template?] at htemplate
  | diagnostic path item =>
      simp only [hparse, OutputLine.template?, Option.any_eq_true] at htemplate
      obtain ⟨own, hown, hsame⟩ := htemplate
      have hasked : own ∈ asks root lines := List.mem_filterMap.mpr ⟨first, hfirst, by rw [hparse]; exact hown⟩
      refine ⟨path.edited (tree.answers (asks root lines)), fun line hline => ?_⟩
      unfold reportIn
      cases hlater : OutputLine.parse line root with
      | definition | plain => simp [hlater, OutputLine.template?] at hline
      | diagnostic later more =>
          simp only [hlater, OutputLine.template?, Option.any_eq_true] at hline
          obtain ⟨second, hsecond, hsame'⟩ := hline
          have hboth : own.same second = true := Path.same_trans hsame (Path.same_symm hsame')
          exact Path.edited_same hsecond hown (Path.same_symm hboth) (FileTree.answers_same hasked hboth).symm

/-- So the order in which spellings of a template are looked up is kept if the order within each file is. -/
theorem answers_of_order
    (hperm : other.Perm lines)
    (horder : ∀ file,
      other.filter (fun line => (reportIn root tree lines line).any (Report.isOf file)) =
        lines.filter fun line => (reportIn root tree lines line).any (Report.isOf file)) :
    tree.answers (asks root other) = tree.answers (asks root lines) := by
  refine FileTree.answers_congr fun template => ?_
  have hkept : other.filter (fun line => (OutputLine.parse line root).template?.any (·.same template)) =
      lines.filter fun line => (OutputLine.parse line root).template?.any (·.same template) := by
    by_cases hnone : lines.filter (fun line => (OutputLine.parse line root).template?.any (·.same template)) = []
    · rw [hnone, ← List.perm_nil, ← hnone]
      exact hperm.filter _
    · obtain ⟨first, hmem⟩ := List.exists_mem_of_ne_nil _ hnone
      obtain ⟨hfirst, htemplate⟩ := List.mem_filter.mp hmem
      obtain ⟨file, hfile⟩ := exists_file_of_template tree hfirst htemplate
      -- The lines that look up the template are among those that are published against the file.
      have hnarrow (items : List String) :
          items.filter (fun line => (OutputLine.parse line root).template?.any (·.same template)) =
            (items.filter fun line => (reportIn root tree lines line).any (Report.isOf file)).filter
              fun line => (OutputLine.parse line root).template?.any (·.same template) := by
        rw [List.filter_filter]
        refine List.filter_congr fun line _ => ?_
        by_cases hline : (OutputLine.parse line root).template?.any (·.same template) = true
        · rw [hline, hfile line hline]
          rfl
        · simp [hline]
      rw [hnarrow other, hnarrow lines, horder]
  rw [asks, asks, filter_filterMap_eq, filter_filterMap_eq, hkept]

/-- No line says that all is forgotten. -/
theorem cleared_notMem (root : Path) (tree : FileTree) (lines items : List String) :
    .cleared ∉ items.filterMap (reportIn root tree lines) := by
  intro hmem
  obtain ⟨line, -, hline⟩ := List.mem_filterMap.mp hmem
  unfold reportIn at hline
  cases hparse : OutputLine.parse line root <;> simp [hparse, OutputLine.report?] at hline

/-- What becomes of the events of a run of texts. -/
theorem ofEvents_writeEach (root log : Path) (tree : FileTree) (texts : List String) :
    Store.ofEvents (writeEach (Channel.new root log, tree) texts).1.events =
      Store.ofEvents (Report.announceAll []
        ((texts.flatMap heard).filterMap (reportIn root tree (texts.flatMap heard)))) := by
  have hmirrors := (Mirrors.fresh root log).handleLines tree (texts.flatMap heard)
  have hclosed : (Channel.new root log).log.isEnabled = false := rfl
  have hknows : (Channel.new root log).Knows tree [] := fun _ => rfl
  have hreports := lineReports_eq hclosed hknows (texts.flatMap heard) []
  rw [writeEach_eq (idle_new root log), ← Store.ofEvents_filter, hmirrors.events_eq, hreports, List.nil_append, List.nil_append,
    List.append_nil]
  rfl

/-- A text is published against the files that its lines report, whenever it is written. -/
theorem isPublished_eq (root log : Path) (tree : FileTree) (texts : List String) (file : Path) (text : String) :
    isPublished (Channel.new root log, tree) texts file text =
      (decide (text ∈ texts) &&
        (heard text).any fun line => (reportIn root tree (texts.flatMap heard) line).any (Report.isOf file)) := by
  have hknows : (Channel.new root log).Knows tree [] := fun _ => rfl
  have hpublications := publications_eq (idle_new root log) rfl hknows texts
  have hown (item : String) :
      ((heard item).filterMap fun line => (reportIn root tree (texts.flatMap heard) line).bind Report.file?).any
          (·.same file) =
        (heard item).any fun line => (reportIn root tree (texts.flatMap heard) line).any (Report.isOf file) := by
    rw [List.any_filterMap]
    congr 1
    funext line
    cases reportIn root tree (texts.flatMap heard) line with
    | none => rfl
    | some report => cases report <;> rfl
  rw [isPublished, hpublications, List.any_map, ← hown, Bool.eq_iff_iff]
  simp only [List.any_eq_true (l := texts), Function.comp_apply, Bool.and_eq_true, beq_iff_eq, decide_eq_true_iff]
  constructor
  · rintro ⟨item, hitem, rfl, hfile⟩
    exact ⟨hitem, hfile⟩
  · rintro ⟨htext, hfile⟩
    exact ⟨text, htext, rfl, hfile⟩

/-- **Only the order within a file matters.**  Texts are written in two orders, and those that are published against a
file in the first run stand in one order in both.  Then both runs yield the same snapshot, and with it the same counts
and status, and each text is published against the same files. -/
theorem reordering_law
    (root log : Path) (tree : FileTree) {lines other : List String} (hperm : other.Perm lines)
    (horder : ∀ file,
      other.filter (isPublished (Channel.new root log, tree) lines file) =
        lines.filter (isPublished (Channel.new root log, tree) lines file)) :
    (Store.ofEvents (writeEach (Channel.new root log, tree) other).1.events).snapshot =
      (Store.ofEvents (writeEach (Channel.new root log, tree) lines).1.events).snapshot ∧
    ∀ file text, isPublished (Channel.new root log, tree) other file text =
      isPublished (Channel.new root log, tree) lines file text := by
  have hmembers : ∀ text, text ∈ other ↔ text ∈ lines := fun text => hperm.mem_iff
  -- The order of the lines within a file is that of the texts that they come from.
  have hwithin : ∀ file,
      (other.flatMap heard).filter
          (fun line => (reportIn root tree (lines.flatMap heard) line).any (Report.isOf file)) =
        (lines.flatMap heard).filter
          fun line => (reportIn root tree (lines.flatMap heard) line).any (Report.isOf file) := by
    intro file
    have htexts (items : List String) (hitems : ∀ text ∈ items, text ∈ lines) :
        items.filter (isPublished (Channel.new root log, tree) lines file) = items.filter fun text =>
          (heard text).any fun line => (reportIn root tree (lines.flatMap heard) line).any (Report.isOf file) :=
      List.filter_congr fun text htext => by rw [isPublished_eq, decide_eq_true (hitems text htext), Bool.true_and]
    have hfile := horder file
    rw [htexts other fun text => (hmembers text).mp, htexts lines fun _ htext => htext] at hfile
    rw [filter_flatMap_eq heard _ other, filter_flatMap_eq heard _ lines, hfile]
  have hanswers := answers_of_order (hperm.flatMap_right heard) hwithin
  have hreports : reportIn root tree (other.flatMap heard) = reportIn root tree (lines.flatMap heard) :=
    funext fun line => by rw [reportIn, reportIn, hanswers]
  constructor
  · rw [ofEvents_writeEach, ofEvents_writeEach, hreports]
    refine Report.snapshot_eq_of_filter (cleared_notMem _ _ _ _) (cleared_notMem _ _ _ _) fun file => ?_
    rw [filter_filterMap_eq, filter_filterMap_eq, hwithin]
  · intro file text
    rw [isPublished_eq, isPublished_eq, hreports, decide_eq_decide.mpr (hmembers text)]

end Reordered

end Channel

namespace Reordering

/-- A project with the template of one file. -/
def files : FileTree where
  nodes := [(["p".toList], .directory), (["p".toList, "w.cmx".toList], .file 1 [] false)]
  lastId := 1

/-- Two lines about that file, the second about its template, and two lines that are not about it. -/
def lines : List String :=
  ["[ERROR:w.cm:1:1] a", "[WARNING:v.cm:2:2] b", "done", "[ERROR:./w.cmx:3:3] c"]

/-- The same lines with those moved that are not about the file. -/
def moved : List String :=
  ["done", "[ERROR:w.cm:1:1] a", "[ERROR:./w.cmx:3:3] c", "[WARNING:v.cm:2:2] b"]

theorem publications_lines :
    Channel.publications (Channel.new ⟨"/p"⟩ ⟨"/p/o"⟩, files) lines =
      [("[ERROR:w.cm:1:1] a", [⟨"/p/w.cmx"⟩]), ("[WARNING:v.cm:2:2] b", [⟨"/p/v.cm"⟩]), ("done", []),
        ("[ERROR:./w.cmx:3:3] c", [⟨"/p/./w.cmx"⟩])] := by
  decide +kernel

theorem order_kept (file : Path) :
    moved.filter (Channel.isPublished (Channel.new ⟨"/p"⟩ ⟨"/p/o"⟩, files) lines file) =
      lines.filter (Channel.isPublished (Channel.new ⟨"/p"⟩ ⟨"/p/o"⟩, files) lines file) := by
  have hspellings : (⟨"/p/./w.cmx"⟩ : Path).same file = (⟨"/p/w.cmx"⟩ : Path).same file := by
    have hcomponents : (⟨"/p/./w.cmx"⟩ : Path).components = (⟨"/p/w.cmx"⟩ : Path).components := by decide +kernel
    rw [Path.same, Path.same, hcomponents]
  have hpublished : Channel.isPublished (Channel.new ⟨"/p"⟩ ⟨"/p/o"⟩, files) lines file = fun text =>
      ("[ERROR:w.cm:1:1] a" == text || "[ERROR:./w.cmx:3:3] c" == text) && (⟨"/p/w.cmx"⟩ : Path).same file ||
        "[WARNING:v.cm:2:2] b" == text && (⟨"/p/v.cm"⟩ : Path).same file := by
    funext text
    rw [Channel.isPublished, publications_lines, Bool.eq_iff_iff]
    simp only [List.any_cons, List.any_nil, hspellings, Bool.or_false, Bool.or_eq_true, Bool.and_eq_true]
    tauto
  -- No file is both.
  rw [hpublished]
  cases hwritten : (⟨"/p/w.cmx"⟩ : Path).same file with
  | false => cases (⟨"/p/v.cm"⟩ : Path).same file <;> decide +kernel
  | true =>
      cases hother : (⟨"/p/v.cm"⟩ : Path).same file with
      | false => decide +kernel
      | true => exact absurd (Path.same_trans hwritten (Path.same_symm hother)) (by decide +kernel)

theorem reordering_law_lines :
    moved.Perm lines ∧
    (Store.ofEvents (Channel.writeEach (Channel.new ⟨"/p"⟩ ⟨"/p/o"⟩, files) moved).1.events).snapshot =
      (Store.ofEvents (Channel.writeEach (Channel.new ⟨"/p"⟩ ⟨"/p/o"⟩, files) lines).1.events).snapshot :=
  have hperm : moved.Perm lines := by decide +kernel
  ⟨hperm, (Channel.reordering_law ⟨"/p"⟩ ⟨"/p/o"⟩ files hperm order_kept).1⟩

end Reordering
end CompilerRelay
