import CompilerRelay.Proofs.OutputStream
import CompilerRelay.Proofs.RestartIsolation

/-!
# Who speaks inside a line

The output of the compiler, the reports of its errors, and what the relay itself has to say are written to one channel.

**Input.**  A reachable channel, and what is said to it, by whom and in which order.  An announcement is a text of
whole lines: a report of errors, or a line of the relay's own.

**Form.**  `Channel.KeptApart`: at each step exactly those lines are shown that whoever speaks has finished.
`Channel.BetweenLines`: announcements come only where no line of the compiler's output is unfinished.

**Results.**
* `Announcement.said_ended`: an announcement ends with a newline.
* `Channel.keptApart_iff`: sources are kept apart if and only if announcements come between lines.
* `Channel.sources_law`: what is shown is the lines of one stream, and under that condition an interleaving.
-/

namespace CompilerRelay

/-- Two lists in one, each in its own order. -/
inductive Interleaves {α : Type} : List α → List α → List α → Prop
  | nil : Interleaves [] [] []
  | left {first second both : List α} (item : α)
      (h : Interleaves first second both) : Interleaves (item :: first) second (item :: both)
  | right {first second both : List α} (item : α)
      (h : Interleaves first second both) : Interleaves first (item :: second) (item :: both)

namespace Interleaves

variable {α : Type} {first second both : List α}

theorem append_left
    (h : Interleaves first second both) (items : List α) :
    Interleaves (first ++ items) second (both ++ items) := by
  induction h with
  | nil =>
      induction items with
      | nil => exact .nil
      | cons item items ih => exact .left item ih
  | left item _ ih => exact .left item ih
  | right item _ ih => exact .right item ih

theorem append_right
    (h : Interleaves first second both) (items : List α) :
    Interleaves first (second ++ items) (both ++ items) := by
  induction h with
  | nil =>
      induction items with
      | nil => exact .nil
      | cons item items ih => exact .right item ih
  | left item _ ih => exact .left item ih
  | right item _ ih => exact .right item ih

theorem mem_iff
    (h : Interleaves first second both) {item : α} :
    item ∈ both ↔ item ∈ first ∨ item ∈ second := by
  induction h with
  | nil => simp
  | left other _ ih => simp [ih, or_assoc]
  | right other _ ih => simp [ih, or_left_comm]

end Interleaves

/-- What holds of every item of a list and the items before it. -/
def AtEach {α : Type} (holds : List α → α → Prop) (items : List α) : Prop :=
  ∀ front item back, items = front ++ item :: back → holds front item

theorem atEach_append_singleton
    {α : Type} {holds : List α → α → Prop} {items : List α} {last : α} :
    AtEach holds (items ++ [last]) ↔ AtEach holds items ∧ holds items last := by
  constructor
  · intro h
    refine ⟨fun front item back hsplit => ?_, h items last [] rfl⟩
    exact h front item (back ++ [last]) (by simp [hsplit])
  · rintro ⟨hitems, hlast⟩ front item back hsplit
    rcases List.eq_nil_or_concat' back with rfl | ⟨middle, other, rfl⟩
    · obtain ⟨rfl, hsame⟩ := List.append_inj' hsplit rfl
      obtain rfl := List.singleton_inj.mp hsame
      exact hlast
    · rw [← List.cons_append, ← List.append_assoc] at hsplit
      exact hitems front item middle (List.append_inj' hsplit rfl).1

/-! ## What is said -/

/-- What the relay writes to the channel besides the output of the compiler. -/
inductive Announcement where
  /-- What a process wrote to its errors. -/
  | report (text : String)
  | killed
  | cleaning
  | cleaned (header output footer : String)
  | logging (path : Path) (stamp : String)
  | logged
  deriving DecidableEq, Repr

/-- Bytes that begin with a character of ASCII that ends no line. -/
def BeginsPlainly (bytes : Bytes) : Prop :=
  ∃ (byte : UInt8) (more : Bytes), bytes = byte :: more ∧
    byte.toNat < 128 ∧ byte ≠ LineBuffer.carriageReturn ∧ byte ≠ LineBuffer.newline

theorem BeginsPlainly.of_head?
    {bytes : Bytes}
    (h : bytes.head?.any (fun byte =>
      byte.toNat < 128 && byte != LineBuffer.carriageReturn && byte != LineBuffer.newline) = true) :
    BeginsPlainly bytes := by
  cases bytes with
  | nil => cases h
  | cons byte more => exact ⟨byte, more, rfl, by simpa [and_assoc] using h⟩

theorem BeginsPlainly.append
    {bytes : Bytes} (h : BeginsPlainly bytes) (more : Bytes) :
    BeginsPlainly (bytes ++ more) := by
  obtain ⟨byte, rest, rfl, hbyte⟩ := h
  exact ⟨byte, rest ++ more, rfl, hbyte⟩

theorem BeginsPlainly.encode
    {text : String} (h : BeginsPlainly (Utf8.encode text)) (more : String) :
    BeginsPlainly (Utf8.encode (text ++ more)) := by
  rw [Utf8.encode_append]
  exact h.append _

/-- Bytes that stand before a line that begins so become part of its run, and of no other. -/
theorem BeginsPlainly.finishedRuns_append
    {bytes before : Bytes} (h : BeginsPlainly bytes)
    (hended : LineBuffer.newline ∈ bytes) (hbefore : LineBuffer.newline ∉ before) :
    ∃ first rest, BeginsPlainly first ∧ LineBuffer.finishedRuns bytes = first :: rest ∧
      LineBuffer.finishedRuns (before ++ bytes) = (before ++ first) :: rest := by
  have hcut := LineBuffer.cut_runs bytes
  generalize LineBuffer.finishedRuns bytes = runs at hcut ⊢
  generalize LineBuffer.unfinishedRun bytes = tail at hcut
  obtain ⟨hwhole, hruns, htail⟩ := hcut
  cases runs with
  | nil =>
      rw [List.flatMap_nil, List.nil_append] at hwhole
      exact absurd (hwhole ▸ hended) htail
  | cons first rest =>
      refine ⟨first, rest, ?_, rfl, ?_⟩
      · obtain ⟨byte, more, hbytes, hbyte⟩ := h
        cases first with
        | nil =>
            have hnewline : byte = LineBuffer.newline := (List.cons.inj (hbytes.symm.trans hwhole)).1
            exact absurd hnewline hbyte.2.2
        | cons other first =>
            obtain rfl : byte = other := (List.cons.inj (hbytes.symm.trans hwhole)).1
            exact ⟨byte, first, rfl, hbyte⟩
      · have hlonger : LineBuffer.Cut (before ++ bytes) ((before ++ first) :: rest) tail := by
          refine ⟨by rw [hwhole]; simp, ?_, htail⟩
          intro run hrun
          rcases List.mem_cons.mp hrun with rfl | hrun
          · have hfirst := hruns first (by simp)
            simp [hbefore, hfirst]
          · exact hruns run (List.mem_cons_of_mem first hrun)
        exact hlonger.finishedRuns_eq

namespace Announcement

/-- The line above what cleaning wrote, and a rule. -/
def cleanHead (header : String) : String :=
  "[INFO " ++ header ++ ":]\n" ++ Relay.rule ++ "\n"

/-- A rule, and the line below what cleaning wrote. -/
def cleanFoot (footer : String) : String :=
  Relay.rule ++ "\n[INFO " ++ footer ++ "]\n"

/-- What an announcement does to the channel. -/
def acts : Announcement → List ChannelAct
  | .report text => [.notify Relay.errorNotification, .write (Relay.errorLine text)]
  | .killed => [.write Relay.killedLine]
  | .cleaning => [.clear, .write Relay.cleanLine]
  | .cleaned header output footer => [.write (cleanHead header), .writeBlock output, .write (cleanFoot footer)]
  | .logging path stamp => [.write (Relay.logLine path), .enableLog stamp]
  | .logged => [.disableLog, .write Relay.logEndLine]

/-- The bytes of an announcement. -/
def said (announcement : Announcement) : Bytes :=
  announcement.acts.flatMap ChannelAct.bytes

/-- The lines of an announcement. -/
def lines (announcement : Announcement) : List String :=
  (LineBuffer.finishedRuns announcement.said).map LineBuffer.lineOf

theorem said_beginsPlainly (announcement : Announcement) : BeginsPlainly announcement.said := by
  cases announcement with
  | report text =>
      have hstart : BeginsPlainly (Utf8.encode "[INFO: CM_Process_Error -> ") :=
        .of_head? (by decide +kernel)
      exact ((hstart.encode text).encode "]\n").append []
  | killed =>
      have hstart : BeginsPlainly (Utf8.encode Relay.killedLine) :=
        .of_head? (by decide +kernel)
      exact hstart.append []
  | cleaning =>
      have hstart : BeginsPlainly (Utf8.encode Relay.cleanLine) :=
        .of_head? (by decide +kernel)
      exact hstart.append []
  | cleaned header output footer =>
      have hstart : BeginsPlainly (Utf8.encode "[INFO ") :=
        .of_head? (by decide +kernel)
      exact ((((hstart.encode header).encode ":]\n").encode Relay.rule).encode "\n").append _
  | logging path stamp =>
      have hstart : BeginsPlainly (Utf8.encode "[Contents of output channel will now be written to: ") :=
        .of_head? (by decide +kernel)
      exact ((hstart.encode path.text).encode "]\n").append []
  | logged =>
      have hstart : BeginsPlainly (Utf8.encode Relay.logEndLine) :=
        .of_head? (by decide +kernel)
      exact hstart.append []

theorem encode_ended (text : String) :
    Utf8.encode (text ++ "]\n") = Utf8.encode (text ++ "]") ++ [LineBuffer.newline] := by
  rw [Utf8.encode_append, Utf8.encode_append, List.append_assoc]
  rfl

/-- What a report says of a text. -/
def reportLine (text : String) : String :=
  "[INFO: CM_Process_Error -> " ++ text ++ "]"

theorem toList_reportLine (text : String) :
    (reportLine text).toList = "[INFO: CM_Process_Error -> ".toList ++ text.toList ++ [']'] := by
  unfold reportLine
  rw [String.toList_append, String.toList_append]
  rfl

theorem said_report (text : String) :
    (report text).said = Utf8.encode (reportLine text) ++ [LineBuffer.newline] := by
  have hsaid : (report text).said = Utf8.encode (Relay.errorLine text) := by
    simp [said, acts, ChannelAct.bytes]
  exact hsaid.trans (encode_ended _)

theorem said_ended (announcement : Announcement) :
    ∃ front, announcement.said = front ++ [LineBuffer.newline] := by
  cases announcement with
  | report text => exact ⟨_, said_report text⟩
  | killed => exact ⟨Utf8.encode "[INFO CM Killed]", rfl⟩
  | cleaning => exact ⟨Utf8.encode "Starting Clean...", rfl⟩
  | cleaned header output footer =>
      refine ⟨Utf8.encode (cleanHead header) ++ (ChannelAct.blockBytes output ++
        Utf8.encode (Relay.rule ++ "\n[INFO " ++ footer ++ "]")), ?_⟩
      have hsaid : (cleaned header output footer).said = Utf8.encode (cleanHead header) ++
          (ChannelAct.blockBytes output ++ Utf8.encode (cleanFoot footer)) := by
        simp [said, acts, ChannelAct.bytes]
      have hfoot : Utf8.encode (cleanFoot footer) =
          Utf8.encode (Relay.rule ++ "\n[INFO " ++ footer ++ "]") ++ [LineBuffer.newline] := encode_ended _
      rw [hsaid, hfoot, List.append_assoc, List.append_assoc]
  | logging path stamp =>
      refine ⟨Utf8.encode ("[Contents of output channel will now be written to: " ++ path.text ++ "]"), ?_⟩
      have hsaid : (logging path stamp).said = Utf8.encode (Relay.logLine path) := by
        simp [said, acts, ChannelAct.bytes]
      exact hsaid.trans (encode_ended _)
  | logged => exact ⟨Utf8.encode "[Stopped writing output to file]", rfl⟩

theorem lines_report
    {text : String} (htext : '\n' ∉ text.toList) :
    (report text).lines = [reportLine text] := by
  have hopen : LineBuffer.newline ∉ Utf8.encode (reportLine text) :=
    Utf8.newline_notMem_encode (by simp [toList_reportLine, htext])
  have hcut : LineBuffer.Cut (report text).said [Utf8.encode (reportLine text)] [] :=
    ⟨by rw [said_report]; simp, by simpa using hopen, by simp⟩
  have hline : LineBuffer.lineOf (Utf8.encode (reportLine text)) = reportLine text := by
    refine LineBuffer.lineOf_encode ?_
    rw [toList_reportLine, List.getLast?_concat]
    decide
  rw [lines, hcut.finishedRuns_eq, List.map_singleton, hline]

theorem isBuffered_of_mem
    {announcement : Announcement} {act : ChannelAct}
    (hact : act ∈ announcement.acts) :
    act.isBuffered = true := by
  cases announcement <;> simp only [acts, List.mem_cons, List.not_mem_nil, or_false] at hact <;>
    rcases hact with rfl | rfl | rfl <;> rfl

end Announcement

/-- Who speaks to the channel, and what is said. -/
inductive Speech where
  /-- Output of the compiler arrives. -/
  | output (chunk : Bytes)
  | announce (announcement : Announcement)
  deriving DecidableEq, Repr

namespace Speech

/-- What somebody who speaks does to the channel. -/
def acts : Speech → List ChannelAct
  | .output chunk => [.writeBytes chunk]
  | .announce announcement => announcement.acts

/-- The bytes that are said. -/
def said (speech : Speech) : Bytes :=
  speech.acts.flatMap ChannelAct.bytes

theorem said_output (chunk : Bytes) : (output chunk).said = chunk :=
  List.append_nil chunk

theorem said_announce (announcement : Announcement) : (announce announcement).said = announcement.said :=
  rfl

/-- Whether the relay speaks. -/
def isOwn : Speech → Bool
  | .output _ => false
  | .announce _ => true

/-- The bytes of the compiler's output. -/
def chunk : Speech → Bytes
  | .output chunk => chunk
  | .announce _ => []

/-- The lines of the relay's own. -/
def ownLines : Speech → List String
  | .output _ => []
  | .announce announcement => announcement.lines

/-- The lines that whoever speaks has finished, after this output of the compiler. -/
def due (output : Bytes) : Speech → List String
  | .output chunk =>
      (LineBuffer.finishedRuns (LineBuffer.unfinishedRun output ++ chunk)).map LineBuffer.lineOf
  | .announce announcement => announcement.lines

theorem isBuffered_of_mem
    {speech : Speech} {act : ChannelAct}
    (hact : act ∈ speech.acts) :
    act.isBuffered = true := by
  cases speech with
  | output chunk =>
      obtain rfl := List.mem_singleton.mp hact
      rfl
  | announce announcement => exact Announcement.isBuffered_of_mem hact

end Speech

namespace Channel

/-! ## Hearing -/

/-- Somebody speaks. -/
def hear (state : Channel × FileTree) (speech : Speech) : Channel × FileTree :=
  performAll state speech.acts

/-- Some speak, one after the other. -/
def hearAll (state : Channel × FileTree) (speeches : List Speech) : Channel × FileTree :=
  speeches.foldl hear state

/-- The output of the compiler, with what was pending before it. -/
def outputOf (state : Channel × FileTree) (speeches : List Speech) : Bytes :=
  state.1.pending ++ speeches.flatMap Speech.chunk

/-- At each step exactly those lines are shown that whoever speaks has finished. -/
def KeptApart (state : Channel × FileTree) (speeches : List Speech) : Prop :=
  AtEach (fun front speech =>
    (hearAll state (front ++ [speech])).1.shown =
      (hearAll state front).1.shown ++ speech.due (outputOf state front)) speeches

/-- Announcements come only where no line of the compiler's output is unfinished. -/
def BetweenLines (state : Channel × FileTree) (speeches : List Speech) : Prop :=
  AtEach (fun front speech =>
    speech.isOwn = true → LineBuffer.unfinishedRun (outputOf state front) = []) speeches

/-- No line gets longer than what is kept of it. -/
def StaysShort (state : Channel × FileTree) (speeches : List Speech) : Prop :=
  KeptWhole (state.1.pending ++ speeches.flatMap Speech.said)

section Hearing

variable {state : Channel × FileTree} {speeches : List Speech} {speech : Speech}

theorem hearAll_eq (state : Channel × FileTree) (speeches : List Speech) :
    hearAll state speeches = performAll state (speeches.flatMap Speech.acts) := by
  induction speeches generalizing state with
  | nil => rfl
  | cons speech rest ih =>
      rw [List.flatMap_cons, performAll_append]
      exact ih (hear state speech)

theorem StaysShort.of_append
    (h : StaysShort state (speeches ++ [speech])) :
    StaysShort state speeches :=
  h.of_infix ⟨[], speech.said, by simp⟩

theorem flatMap_said (speeches : List Speech) :
    (speeches.flatMap Speech.acts).flatMap ChannelAct.bytes = speeches.flatMap Speech.said :=
  List.flatMap_assoc

theorem hears_hearAll
    (hready : state.1.Ready) (hshort : StaysShort state speeches) :
    state.1.Hears (speeches.flatMap Speech.said) (hearAll state speeches).1 := by
  rw [hearAll_eq, ← flatMap_said]
  refine hears_performAll hready ?_ ?_
  · intro act hact
    obtain ⟨speech, -, hmem⟩ := List.mem_flatMap.mp hact
    exact speech.isBuffered_of_mem hmem
  · rw [flatMap_said]
    exact hshort.short hready

/-- What one more speech shows goes on with what is pending before it. -/
theorem shown_hearAll_append_singleton
    (hready : state.1.Ready) (hshort : StaysShort state (speeches ++ [speech])) :
    (hearAll state (speeches ++ [speech])).1.shown =
      (hearAll state speeches).1.shown ++
        (LineBuffer.finishedRuns ((hearAll state speeches).1.pending ++ speech.said)).map LineBuffer.lineOf := by
  have hbefore := hears_hearAll hready hshort.of_append
  have hafter := hears_hearAll hready hshort
  rw [hafter.shown_eq, hbefore.shown_eq, hbefore.pending_eq, List.flatMap_append, List.flatMap_singleton,
    ← List.append_assoc, LineBuffer.finishedRuns_append (state.1.pending ++ _), List.map_append,
    List.append_assoc]

theorem pending_hearAll_append_singleton
    (hready : state.1.Ready) (hshort : StaysShort state (speeches ++ [speech])) :
    (hearAll state (speeches ++ [speech])).1.pending =
      LineBuffer.unfinishedRun ((hearAll state speeches).1.pending ++ speech.said) := by
  have hbefore := hears_hearAll hready hshort.of_append
  have hafter := hears_hearAll hready hshort
  rw [hafter.pending_eq, hbefore.pending_eq, List.flatMap_append, List.flatMap_singleton,
    ← List.append_assoc, LineBuffer.unfinishedRun_append (state.1.pending ++ _)]

theorem outputOf_append_singleton (state : Channel × FileTree) (speeches : List Speech) (speech : Speech) :
    outputOf state (speeches ++ [speech]) = outputOf state speeches ++ speech.chunk := by
  simp [outputOf]

/-- As long as announcements come between lines, what is pending is of the compiler's output. -/
theorem BetweenLines.pending_eq
    (h : BetweenLines state speeches) (hready : state.1.Ready) (hshort : StaysShort state speeches) :
    (hearAll state speeches).1.pending = LineBuffer.unfinishedRun (outputOf state speeches) := by
  induction speeches using List.reverseRecOn with
  | nil =>
      have hopen := (LineBuffer.unfinishedRun_of_notMem hready.in_order.pending_open).2
      rw [outputOf, List.flatMap_nil, List.append_nil]
      exact hopen.symm
  | append_singleton speeches speech ih =>
      obtain ⟨hbefore, hlast⟩ := atEach_append_singleton.mp h
      have hfront : BetweenLines state speeches := hbefore
      rw [pending_hearAll_append_singleton hready hshort, ih hfront hshort.of_append,
        outputOf_append_singleton]
      cases speech with
      | output chunk =>
          rw [LineBuffer.unfinishedRun_append (outputOf state speeches)]
          rw [Speech.said_output, Speech.chunk]
      | announce announcement =>
          have hnone : LineBuffer.unfinishedRun (outputOf state speeches) = [] := hlast rfl
          obtain ⟨front, hended⟩ := announcement.said_ended
          rw [Speech.chunk, List.append_nil, hnone, List.nil_append, Speech.said_announce, hended]
          exact LineBuffer.unfinishedRun_newline front

/-- An announcement is shown as its own lines if and only if nothing is pending. -/
theorem announcement_shown_iff
    {pending : Bytes} (hpending : LineBuffer.newline ∉ pending) (announcement : Announcement) :
    (LineBuffer.finishedRuns (pending ++ announcement.said)).map LineBuffer.lineOf = announcement.lines ↔
      pending = [] := by
  constructor
  · intro hsame
    by_contra hne
    obtain ⟨front, hended⟩ := announcement.said_ended
    obtain ⟨first, rest, ⟨byte, more, rfl, hascii, hreturn, -⟩, hown, hmixed⟩ :=
      announcement.said_beginsPlainly.finishedRuns_append (by simp [hended]) hpending
    rw [hmixed, Announcement.lines, hown, List.map_cons, List.map_cons] at hsame
    exact LineBuffer.lineOf_append_ne hne hascii hreturn more (List.cons.inj hsame).1
  · rintro rfl
    rfl

/-- Sources are kept apart if and only if announcements come between lines. -/
theorem keptApart_iff
    (hready : state.1.Ready) (hshort : StaysShort state speeches) :
    KeptApart state speeches ↔ BetweenLines state speeches := by
  induction speeches using List.reverseRecOn with
  | nil => exact ⟨fun _ front item back h => by simp at h, fun _ front item back h => by simp at h⟩
  | append_singleton speeches speech ih =>
      unfold KeptApart BetweenLines
      rw [atEach_append_singleton, atEach_append_singleton]
      change KeptApart state speeches ∧ _ ↔ BetweenLines state speeches ∧ _
      rw [ih hshort.of_append]
      refine and_congr_right fun hbetween => ?_
      -- What was pending until now is of the compiler's output.
      have hpending := hbetween.pending_eq hready hshort.of_append
      rw [shown_hearAll_append_singleton hready hshort, List.append_cancel_left_eq, hpending]
      cases speech with
      | output chunk =>
          rw [Speech.said_output]
          exact ⟨fun _ hown => (by cases hown), fun _ => rfl⟩
      | announce announcement =>
          have hiff := announcement_shown_iff
            (LineBuffer.cut_runs (outputOf state speeches)).tail_open announcement
          exact hiff.trans ⟨fun h _ => h, fun h => h rfl⟩

/-- Between lines, what is shown is the lines of the output and the announcements, each in its own order. -/
theorem BetweenLines.interleaves
    (h : BetweenLines state speeches) (hready : state.1.Ready) (hshort : StaysShort state speeches) :
    Interleaves ((LineBuffer.finishedRuns (outputOf state speeches)).map LineBuffer.lineOf)
      (speeches.flatMap Speech.ownLines)
      ((LineBuffer.finishedRuns (state.1.pending ++ speeches.flatMap Speech.said)).map LineBuffer.lineOf) := by
  induction speeches using List.reverseRecOn with
  | nil =>
      have hnone : LineBuffer.finishedRuns state.1.pending = [] :=
        (LineBuffer.unfinishedRun_of_notMem hready.in_order.pending_open).1
      rw [outputOf, List.flatMap_nil, List.flatMap_nil, List.flatMap_nil, List.append_nil, hnone]
      exact .nil
  | append_singleton speeches speech ih =>
      obtain ⟨hbefore, hlast⟩ := atEach_append_singleton.mp h
      have hfront : BetweenLines state speeches := hbefore
      have hpending := hfront.pending_eq hready hshort.of_append
      rw [(hears_hearAll hready hshort.of_append).pending_eq] at hpending
      have hlines := ih hfront hshort.of_append
      rw [outputOf_append_singleton, List.flatMap_append, List.flatMap_append, ← List.append_assoc,
        LineBuffer.finishedRuns_append (outputOf state speeches),
        LineBuffer.finishedRuns_append (state.1.pending ++ _), hpending, List.map_append, List.map_append,
        List.flatMap_singleton, List.flatMap_singleton]
      cases speech with
      | output chunk =>
          rw [Speech.ownLines, List.append_nil, Speech.said_output]
          exact hlines.append_left _
      | announce announcement =>
          have hnone : LineBuffer.unfinishedRun (outputOf state speeches) = [] := hlast rfl
          have hnothing : LineBuffer.finishedRuns [] = [] :=
            (LineBuffer.unfinishedRun_of_notMem List.not_mem_nil).1
          rw [Speech.chunk, hnone, List.append_nil, List.nil_append, hnothing, List.map_nil, List.append_nil]
          exact hlines.append_right announcement.lines

end Hearing

/-- **When sources are kept apart.**  The compiler's output and the announcements go into one buffer. -/
theorem sources_law
    {channel : Channel} (hreachable : channel.Reachable)
    (files : FileTree) {speeches : List Speech}
    (hshort : StaysShort (channel, files) speeches) :
    -- What is shown is the lines of one stream, each once and in order.
    (hearAll (channel, files) speeches).1.shown = channel.shown ++
      (LineBuffer.finishedRuns (channel.pending ++ speeches.flatMap Speech.said)).map LineBuffer.lineOf ∧
    -- At each step those lines are shown that whoever speaks has finished, if and only if announcements come
    -- where no line of the compiler's output is unfinished.
    (KeptApart (channel, files) speeches ↔ BetweenLines (channel, files) speeches) ∧
    -- If so, the lines of the output and those of the announcements are shown, each in their own order.
    (BetweenLines (channel, files) speeches → ∃ lines,
      (hearAll (channel, files) speeches).1.shown = channel.shown ++ lines ∧
      Interleaves ((LineBuffer.finishedRuns (outputOf (channel, files) speeches)).map LineBuffer.lineOf)
        (speeches.flatMap Speech.ownLines) lines) ∧
    -- A report of a text without a newline is one line.
    ∀ text : String, '\n' ∉ text.toList →
      (Announcement.report text).lines = [Announcement.reportLine text] := by
  have hready := hreachable.ready
  have hheard : channel.Hears (speeches.flatMap Speech.said) (hearAll (channel, files) speeches).1 :=
    hears_hearAll hready hshort
  refine ⟨hheard.shown_eq, keptApart_iff hready hshort, fun hbetween => ?_,
    fun _ htext => Announcement.lines_report htext⟩
  exact ⟨_, hheard.shown_eq, hbetween.interleaves hready hshort⟩

theorem sources_law_within_line :
    let speeches : List Speech :=
      [.output (Utf8.encode "par"), .announce (.report "oops"), .output (Utf8.encode "tial\n")]
    ¬ KeptApart (Channel.new ⟨"/work"⟩ ⟨"/work/out"⟩, {}) speeches := by
  intro speeches hkept
  have htotal : (([] : Bytes) ++ speeches.flatMap Speech.said).length = 41 := by decide +kernel
  have hshort : StaysShort (Channel.new ⟨"/work"⟩ ⟨"/work/out"⟩, {}) speeches :=
    .of_length (htotal.le.trans (by decide))
  have hbetween := (sources_law (reachable_new ⟨"/work"⟩ ⟨"/work/out"⟩) {} hshort).2.1.mp hkept
  have hnone : LineBuffer.unfinishedRun (Utf8.encode "par") = [] :=
    hbetween [.output (Utf8.encode "par")] (.announce (.report "oops")) [.output (Utf8.encode "tial\n")] rfl rfl
  exact absurd hnone (by decide +kernel)

end Channel

/-! ## A report within a line -/

namespace Relay

namespace GluedReport

open UnnoticedExit (started started_reachable)

/-- The relay after the compiler wrote the first part of a line. -/
def begun : Relay :=
  started.after (.output 0 (Utf8.encode "par"))

/-- The relay after the compiler also reported an error. -/
def reported : Relay :=
  begun.after (.report 0 (Utf8.encode "oops\n"))

/-- The relay after the compiler wrote the rest of the line. -/
def ended : Relay :=
  reported.after (.output 0 (Utf8.encode "tial\n"))

theorem ended_shown :
    ended.channel.shown = ["par[INFO: CM_Process_Error -> oops]", "tial"] := by
  decide +kernel

/-- The report is shown within the first part of the line, and the rest of the line alone. -/
theorem report_within_line :
    started.Reachable ∧ started.channel.shown = [] ∧ started.channel.pending = [] ∧
    started.admits (.output 0 (Utf8.encode "par")) = true ∧
    begun.admits (.report 0 (Utf8.encode "oops\n")) = true ∧
    reported.admits (.output 0 (Utf8.encode "tial\n")) = true ∧
    ended.channel.shown = ["par[INFO: CM_Process_Error -> oops]", "tial"] ∧
    ¬ Interleaves ["partial"] ["[INFO: CM_Process_Error -> oops]"] ended.channel.shown := by
  refine ⟨started_reachable, rfl, rfl, rfl, rfl, rfl, ended_shown, ?_⟩
  intro hinterleaves
  rw [ended_shown] at hinterleaves
  have hwhole : "partial" ∈ ["par[INFO: CM_Process_Error -> oops]", "tial"] :=
    hinterleaves.mem_iff.mpr (Or.inl (by simp))
  exact absurd hwhole (by decide)

end GluedReport
end Relay
end CompilerRelay
