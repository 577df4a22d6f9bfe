import CompilerRelay.Proofs.LossyDecoding

/-!
# Lines, whatever the chunks

A byte string has one cut into finished runs and an unfinished one, and it does not matter in which chunks the
bytes arrive.

**Form.**  `LineBuffer.Cut bytes runs tail`: the bytes are the runs, each with a newline after it, and the tail.

**Results.**
* `LineBuffer.Cut.unique`, `LineBuffer.cut_runs`: there is exactly one cut.
* `LineBuffer.finishedRuns_append`, `LineBuffer.unfinishedRun_append`: only the unfinished run of what came
  before matters for what comes after.
* `LineBuffer.push_of_short`: a buffer in order takes in a chunk without loss while lines stay short.
-/

namespace CompilerRelay
namespace LineBuffer

/-- The bytes are the runs, each with a newline after it, and the tail. -/
structure Cut (bytes : Bytes) (runs : List Bytes) (tail : Bytes) : Prop where
  whole : bytes = runs.flatMap (· ++ [newline]) ++ tail
  runs_open : ∀ run, run ∈ runs → newline ∉ run
  tail_open : newline ∉ tail

/-- A cut is what splitting at the newlines gives. -/
theorem Cut.splitOn_eq
    {bytes tail : Bytes} {runs : List Bytes}
    (h : Cut bytes runs tail) :
    Text.splitOn newline bytes = runs ++ [tail] := by
  obtain ⟨rfl, hruns, htail⟩ := h
  induction runs with
  | nil => simpa using Text.splitOn_of_notMem htail
  | cons run runs ih =>
      have hrun : newline ∉ run := hruns run (by simp)
      have hmore : ∀ other, other ∈ runs → newline ∉ other :=
        fun other hother => hruns other (List.mem_cons_of_mem run hother)
      simp only [List.flatMap_cons, List.append_assoc, List.cons_append, List.nil_append]
      rw [Text.splitOn_append_cons, Text.splitOn_of_notMem hrun, ih hmore]
      rfl

theorem Cut.finishedRuns_eq
    {bytes tail : Bytes} {runs : List Bytes}
    (h : Cut bytes runs tail) :
    finishedRuns bytes = runs := by
  simp [finishedRuns, h.splitOn_eq]

theorem Cut.unfinishedRun_eq
    {bytes tail : Bytes} {runs : List Bytes}
    (h : Cut bytes runs tail) :
    unfinishedRun bytes = tail := by
  simp [unfinishedRun, h.splitOn_eq]

/-- There is only one cut. -/
theorem Cut.unique
    {bytes tail otherTail : Bytes} {runs otherRuns : List Bytes}
    (h : Cut bytes runs tail) (hother : Cut bytes otherRuns otherTail) :
    runs = otherRuns ∧ tail = otherTail :=
  ⟨h.finishedRuns_eq.symm.trans hother.finishedRuns_eq,
    h.unfinishedRun_eq.symm.trans hother.unfinishedRun_eq⟩

/-- One more byte ends the unfinished run or extends it. -/
theorem Cut.append_singleton
    {bytes tail : Bytes} {runs : List Bytes}
    (h : Cut bytes runs tail) (byte : UInt8) :
    ∃ moreRuns moreTail, Cut (bytes ++ [byte]) moreRuns moreTail := by
  obtain ⟨rfl, hruns, htail⟩ := h
  by_cases hbyte : byte = newline
  · subst hbyte
    refine ⟨runs ++ [tail], [], ⟨by simp, ?_, by simp⟩⟩
    intro run hrun
    rcases List.mem_append.mp hrun with hrun | hrun
    · exact hruns run hrun
    · rw [List.mem_singleton.mp hrun]
      exact htail
  · refine ⟨runs, tail ++ [byte], ⟨by simp, hruns, ?_⟩⟩
    simpa [htail] using fun h => hbyte h.symm

theorem exists_cut (bytes : Bytes) : ∃ runs tail, Cut bytes runs tail := by
  induction bytes using List.reverseRecOn with
  | nil => exact ⟨[], [], ⟨rfl, by simp, by simp⟩⟩
  | append_singleton bytes byte ih =>
      obtain ⟨runs, tail, h⟩ := ih
      exact h.append_singleton byte

/-- The finished runs and the unfinished one are the cut. -/
theorem cut_runs (bytes : Bytes) : Cut bytes (finishedRuns bytes) (unfinishedRun bytes) := by
  obtain ⟨runs, tail, h⟩ := exists_cut bytes
  rw [h.finishedRuns_eq, h.unfinishedRun_eq]
  exact h

/-- Bytes that come later leave the finished runs as they are and go on with the unfinished one. -/
theorem cut_append (first second : Bytes) :
    Cut (first ++ second)
      (finishedRuns first ++ finishedRuns (unfinishedRun first ++ second))
      (unfinishedRun (unfinishedRun first ++ second)) := by
  have hfirst := cut_runs first
  have hsecond := cut_runs (unfinishedRun first ++ second)
  refine ⟨?_, ?_, hsecond.tail_open⟩
  · calc first ++ second =
        (finishedRuns first).flatMap (· ++ [newline]) ++ (unfinishedRun first ++ second) := by
          rw [← List.append_assoc, ← hfirst.whole]
      _ = _ := by
          conv_lhs => rw [hsecond.whole]
          simp [List.flatMap_append]
  · intro run hrun
    rcases List.mem_append.mp hrun with hrun | hrun
    · exact hfirst.runs_open run hrun
    · exact hsecond.runs_open run hrun

theorem finishedRuns_append (first second : Bytes) :
    finishedRuns (first ++ second) =
      finishedRuns first ++ finishedRuns (unfinishedRun first ++ second) :=
  (cut_append first second).finishedRuns_eq

theorem unfinishedRun_append (first second : Bytes) :
    unfinishedRun (first ++ second) = unfinishedRun (unfinishedRun first ++ second) :=
  (cut_append first second).unfinishedRun_eq

theorem unfinishedRun_of_notMem
    {bytes : Bytes}
    (h : newline ∉ bytes) :
    finishedRuns bytes = [] ∧ unfinishedRun bytes = bytes := by
  have hcut : Cut bytes [] bytes := ⟨rfl, by simp, h⟩
  exact ⟨hcut.finishedRuns_eq, hcut.unfinishedRun_eq⟩

/-- The unfinished run stands at the end of the bytes. -/
theorem unfinishedRun_isSuffix (bytes : Bytes) : unfinishedRun bytes <:+ bytes :=
  ⟨_, (cut_runs bytes).whole.symm⟩

/-! ## Buffers in order -/

/-- A buffer between two chunks: it holds no finished line, and has nothing to report. -/
structure InOrder (buffer : LineBuffer) : Prop where
  pending_open : newline ∉ buffer.pending
  dropped_zero : buffer.dropped = 0

/-- Every run of bytes without a newline is so short that the cap leaves it whole. -/
def Short (buffer : LineBuffer) (bytes : Bytes) : Prop :=
  ∀ run, run <:+: bytes → newline ∉ run → ∀ most, buffer.cap = some most → run.length ≤ most

/-- A buffer with other bytes pending. -/
def withPending (buffer : LineBuffer) (pending : Bytes) : LineBuffer :=
  { buffer with pending }

/-- Flushing leaves nothing pending, and changes nothing else. -/
theorem flush_snd (buffer : LineBuffer) : buffer.flush.2 = buffer.withPending [] := by
  unfold flush
  split
  · next hpending => rw [withPending, ← hpending]
  · rfl

theorem excess_unfinishedRun
    {buffer : LineBuffer} {bytes : Bytes}
    (hshort : buffer.Short bytes) :
    excess buffer.cap (unfinishedRun bytes) = 0 := by
  cases hcap : buffer.cap with
  | none => rfl
  | some most =>
      have hlength := hshort (unfinishedRun bytes) (unfinishedRun_isSuffix bytes).isInfix
        (cut_runs bytes).tail_open most hcap
      simp only [excess]
      omega

/-- A chunk finishes the runs that end in it, and nothing is lost. -/
theorem push_of_short
    {buffer : LineBuffer} (h : buffer.InOrder) {chunk : Bytes}
    (hshort : buffer.Short (buffer.pending ++ chunk)) :
    buffer.push chunk =
      ((finishedRuns (buffer.pending ++ chunk)).map lineOf,
        buffer.withPending (unfinishedRun (buffer.pending ++ chunk))) := by
  have hexcess := excess_unfinishedRun hshort
  simp [push, hexcess, h.dropped_zero, withPending]

theorem InOrder.withPending
    {buffer : LineBuffer} (h : buffer.InOrder) {pending : Bytes}
    (hpending : newline ∉ pending) :
    (buffer.withPending pending).InOrder :=
  ⟨hpending, h.dropped_zero⟩

/-- Whatever the chunk is, taking it in and taking the count of lost bytes leaves a buffer in order. -/
theorem inOrder_push (buffer : LineBuffer) (chunk : Bytes) :
    (buffer.push chunk).2.takeDropped.2.InOrder := by
  refine ⟨?_, rfl⟩
  intro h
  exact (cut_runs (buffer.pending ++ chunk)).tail_open (List.mem_of_mem_drop h)

theorem inOrder_flush
    {buffer : LineBuffer}
    (h : buffer.InOrder) :
    buffer.flush.2.InOrder := by
  rw [flush_snd]
  exact h.withPending List.not_mem_nil

end LineBuffer
end CompilerRelay
