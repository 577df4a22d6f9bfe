import CompilerRelay.Proofs.OutputStream

/-!
# Texts that are ended

A text that is written with a newline at its end, while nothing is pending, is handled as its own lines.

**Input.**  Any text, newlines and returns among its characters.

**Algorithm.**  No byte of a character but the newline is that of a newline, so cutting the bytes is cutting the text.

**Results.**
* `Text.splitOn_flatMap`: cutting commutes with encoding.
* `Channel.heard_eq`: the lines of a text that is ended are its pieces between newlines, each without one return.
* `Channel.perform_write`: they are what is handled, and nothing is pending afterwards.
-/

namespace CompilerRelay
namespace Text

variable {α β : Type} [DecidableEq α] [DecidableEq β]

/-- What holds no separator becomes part of the first piece. -/
theorem splitOn_append_of_notMem
    {separator : α} {first second piece : List α} {rest : List (List α)}
    (hopen : separator ∉ first) (hsecond : splitOn separator second = piece :: rest) :
    splitOn separator (first ++ second) = (first ++ piece) :: rest := by
  induction first with
  | nil => exact hsecond
  | cons char first ih =>
      obtain ⟨hchar, hfirst⟩ : separator ≠ char ∧ separator ∉ first := by simpa using hopen
      rw [List.cons_append, splitOn_cons, if_neg (Ne.symm hchar), ih hfirst]
      rfl

/-- Cutting commutes with encoding, if only the separator is encoded with the mark. -/
theorem splitOn_flatMap
    {separator : α} {mark : β} {encoding : α → List β} (hmark : encoding separator = [mark])
    (hopen : ∀ char, char ≠ separator → mark ∉ encoding char) (text : List α) :
    splitOn mark (text.flatMap encoding) = (splitOn separator text).map (·.flatMap encoding) := by
  induction text with
  | nil => rfl
  | cons char text ih =>
      obtain ⟨piece, rest, hpieces⟩ := List.exists_cons_of_ne_nil (splitOn_ne_nil separator text)
      rw [hpieces, List.map_cons] at ih
      rw [List.flatMap_cons, splitOn_cons, hpieces]
      by_cases hchar : char = separator
      · subst hchar
        rw [hmark, List.singleton_append, splitOn_cons, ih]
        simp
      · rw [splitOn_append_of_notMem (hopen char hchar) ih]
        simp [hchar]

end Text

namespace LineBuffer

/-- The line that an encoded text is. -/
theorem lineOf_encode_eq (text : List Char) :
    lineOf (text.flatMap String.utf8EncodeChar) = String.ofList (dropReturnChar text) := by
  have htext := dropReturnChar_decodeLossy (Utf8.encode (String.ofList text))
  rw [Utf8.decodeLossy_encode, String.toList_ofList] at htext
  rw [htext, String.ofList_toList, Utf8.encode, String.toList_ofList]

end LineBuffer

namespace Channel

@[simp] theorem handleLine_root (channel : Channel) (tree : FileTree) (line : String) :
    (channel.handleLine tree line).1.root = channel.root := by
  change (channel.classify tree line).root = _
  unfold classify
  split <;> rfl

/-- Nothing is pending. -/
def Idle (channel : Channel) : Prop :=
  channel.buffer = { cap := some pendingLimit }

theorem idle_new (root log : Path) : (Channel.new root log).Idle :=
  rfl

/-- The lines of a text that is written with a newline at its end. -/
def heard (text : String) : List String :=
  (LineBuffer.finishedRuns (Utf8.encode (text ++ "\n"))).map LineBuffer.lineOf

/-- They are its pieces between newlines, each without one return. -/
theorem heard_eq (text : String) :
    heard text =
      (Text.splitOn '\n' text.toList).map fun line => String.ofList (LineBuffer.dropReturnChar line) := by
  have hencode : Utf8.encode (text ++ "\n") = Utf8.encode text ++ LineBuffer.newline :: [] := Utf8.encode_append _ _
  have hopen : ∀ char, char ≠ '\n' → LineBuffer.newline ∉ String.utf8EncodeChar char := fun char hchar hmem =>
    hchar (Char.toNat_inj.mp (Utf8.toNat_of_mem_utf8EncodeChar hmem (by decide)))
  have hruns : LineBuffer.finishedRuns (Utf8.encode (text ++ "\n")) =
      (Text.splitOn '\n' text.toList).map (·.flatMap String.utf8EncodeChar) := by
    rw [LineBuffer.finishedRuns, hencode, Text.splitOn_append_cons, Text.splitOn_nil, List.dropLast_concat]
    exact Text.splitOn_flatMap (by decide) hopen text.toList
  rw [heard, hruns, List.map_map]
  exact List.map_congr_left fun line _ => LineBuffer.lineOf_encode_eq line

/-- Where nothing is pending, a text that is ended is handled as its lines, and nothing is pending again. -/
theorem perform_write
    {channel : Channel} (hidle : channel.Idle) (tree : FileTree) (text : String) :
    perform (channel, tree) (.write (text ++ "\n")) = channel.handleLines tree (heard text) := by
  have hrest : LineBuffer.unfinishedRun (Utf8.encode (text ++ "\n")) = [] := by
    rw [Utf8.encode_append]
    exact LineBuffer.unfinishedRun_newline (Utf8.encode text)
  have hpush : channel.buffer.push (Utf8.encode (text ++ "\n")) = (heard text, channel.buffer) := by
    rw [hidle]
    simp only [LineBuffer.push, List.nil_append, hrest]
    rfl
  have hkept : { channel with buffer := channel.buffer.takeDropped.2 } = channel := by
    obtain ⟨buffer⟩ := channel
    obtain rfl : buffer = { cap := some pendingLimit } := hidle
    rfl
  change Channel.handleLines { channel with buffer := (channel.buffer.push _).2.takeDropped.2 } tree
    (channel.buffer.push _).1 = _
  rw [hpush, hkept]

theorem Idle.handleLines
    {channel : Channel} (h : channel.Idle) (tree : FileTree) (lines : List String) :
    (channel.handleLines tree lines).1.Idle :=
  (handleLines_buffer channel tree lines).trans h

theorem Ready.idle
    {channel : Channel} (h : channel.Ready) (hpending : channel.pending = []) :
    channel.Idle := by
  obtain ⟨⟨pending, cap, dropped⟩⟩ := channel
  obtain ⟨⟨-, hdropped⟩, hcap⟩ := h
  simp only [Channel.pending] at hpending
  simp only at hdropped hcap
  rw [Idle, hpending, hdropped, hcap]

end Channel
end CompilerRelay
