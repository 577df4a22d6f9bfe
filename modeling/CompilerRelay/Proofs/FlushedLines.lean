import CompilerRelay.Proofs.CappedLines

/-!
# Flushing and ending a line

At the end of the output, what is pending becomes a line.  It is the line that a newline would have made of it, although
the one loses its carriage return as a character and the other as a byte.

**Input.**  A buffer with any cap, after any chunks and other operations.

**Invariant.**  `LineBuffer.Between`: no finished line is pending, and no more than the cap allows.

**Results.**
* `LineBuffer.reached_iff`: the invariant holds of the buffers that can be reached, and of no others.
* `LineBuffer.push_newline`: what a newline makes of a buffer.
* `LineBuffer.flushing_law`: flushing gives what the newline gives, unless nothing is pending.
-/

namespace CompilerRelay
namespace LineBuffer

/-- The buffers with a cap that a fresh one can become. -/
inductive Reached (cap : Option Nat) : LineBuffer → Prop
  | fresh : Reached cap { cap }
  | push {buffer : LineBuffer} (h : Reached cap buffer) (chunk : Bytes) : Reached cap (buffer.push chunk).2
  | flush {buffer : LineBuffer} (h : Reached cap buffer) : Reached cap buffer.flush.2
  | takeDropped {buffer : LineBuffer} (h : Reached cap buffer) : Reached cap buffer.takeDropped.2

/-- A buffer with a cap between two operations. -/
structure Between (cap : Option Nat) (buffer : LineBuffer) : Prop where
  cap_eq : buffer.cap = cap
  pending_open : newline ∉ buffer.pending
  pending_fits : excess cap buffer.pending = 0
  dropped_le : buffer.dropped ≤ droppedLimit
  /-- Only a cap drops bytes. -/
  dropped_zero : cap = none → buffer.dropped = 0

variable {cap : Option Nat} {buffer : LineBuffer}

/-! ## The invariant -/

theorem excess_drop (cap : Option Nat) (run : Bytes) : excess cap (run.drop (excess cap run)) = 0 := by
  cases cap with
  | none => rfl
  | some most =>
      simp only [excess, List.length_drop]
      omega

theorem excess_nil (cap : Option Nat) : excess cap [] = 0 := by
  cases cap with
  | none => rfl
  | some most => exact Nat.zero_sub most

theorem Between.push
    (h : Between cap buffer) (chunk : Bytes) :
    Between cap (buffer.push chunk).2 := by
  have hopen := (cut_runs (buffer.pending ++ chunk)).tail_open
  refine ⟨h.cap_eq, fun hmem => hopen (List.mem_of_mem_drop hmem), ?_, Nat.min_le_right _ _, ?_⟩
  · rw [← h.cap_eq]
    exact excess_drop buffer.cap _
  · rintro rfl
    simp [LineBuffer.push, h.cap_eq, h.dropped_zero rfl, excess]

theorem Between.flush
    (h : Between cap buffer) :
    Between cap buffer.flush.2 := by
  unfold LineBuffer.flush
  split
  · exact h
  · exact ⟨h.cap_eq, List.not_mem_nil, excess_nil cap, h.dropped_le, h.dropped_zero⟩

theorem Reached.between
    (h : Reached cap buffer) :
    Between cap buffer := by
  induction h with
  | fresh => exact ⟨rfl, List.not_mem_nil, excess_nil cap, Nat.zero_le _, fun _ => rfl⟩
  | push _ chunk ih => exact ih.push chunk
  | flush _ ih => exact ih.flush
  | takeDropped _ ih => exact ⟨ih.cap_eq, ih.pending_open, ih.pending_fits, Nat.zero_le _, fun _ => rfl⟩

/-- Bytes after a newline are pending as they are, if the cap leaves them whole. -/
theorem push_newline_cons
    (h : Between cap buffer) {run : Bytes} (hopen : newline ∉ run) (hfits : excess cap run = 0) :
    (buffer.push (newline :: run)).2 = buffer.withPending run := by
  have hrest : unfinishedRun (buffer.pending ++ newline :: run) = run := by
    rw [← (unfinishedRun_of_notMem hopen).2]
    simpa [(unfinishedRun_of_notMem hopen).2] using
      (cut_of_open h.pending_open List.not_mem_nil run).2
  have hdropped := h.dropped_le
  simp [LineBuffer.push, hrest, h.cap_eq, hfits, withPending, hdropped]

/-- A cap makes it possible to drop any number of bytes that can be counted. -/
theorem exists_reached_dropped (most : Nat) {count : Nat} (hcount : count ≤ droppedLimit) :
    ∃ buffer, Reached (some most) buffer ∧ buffer.dropped = count := by
  have hopen : newline ∉ List.replicate (most + count) (0 : UInt8) := by
    simp [List.mem_replicate, newline]
  have hrest := (unfinishedRun_of_notMem hopen).2
  refine ⟨_, .push .fresh (List.replicate (most + count) 0), ?_⟩
  simp [LineBuffer.push, hrest, excess, hcount]

/-- The buffers that can be reached. -/
theorem reached_iff : Reached cap buffer ↔ Between cap buffer := by
  refine ⟨Reached.between, fun h => ?_⟩
  -- A newline makes room for other bytes, so that only the count of dropped bytes has to be right before it.
  have hgiven {start : LineBuffer} (hstart : Reached cap start) (hdropped : start.dropped = buffer.dropped) :
      Reached cap buffer := by
    have hcap : start.cap = buffer.cap := hstart.between.cap_eq.trans h.cap_eq.symm
    have hsame : (start.push (newline :: buffer.pending)).2 = buffer := by
      rw [push_newline_cons hstart.between h.pending_open h.pending_fits, withPending, hcap, hdropped]
    exact hsame ▸ hstart.push _
  cases cap with
  | none => exact hgiven .fresh (h.dropped_zero rfl).symm
  | some most =>
      obtain ⟨start, hstart, hdropped⟩ := exists_reached_dropped most h.dropped_le
      exact hgiven hstart hdropped

/-- Any bytes without a newline can be pending, if the cap leaves them whole. -/
theorem exists_reached_iff (cap : Option Nat) (bytes : Bytes) :
    (∃ buffer, Reached cap buffer ∧ buffer.pending = bytes) ↔ newline ∉ bytes ∧ excess cap bytes = 0 := by
  constructor
  · rintro ⟨buffer, hreached, rfl⟩
    exact ⟨hreached.between.pending_open, hreached.between.pending_fits⟩
  · rintro ⟨hopen, hfits⟩
    exact ⟨⟨bytes, cap, 0⟩, reached_iff.mpr ⟨rfl, hopen, hfits, Nat.zero_le _, fun _ => rfl⟩, rfl⟩

/-! ## The law -/

/-- A newline makes one line of what is pending, and nothing is pending then. -/
theorem push_newline
    (h : Between cap buffer) :
    buffer.push [newline] = ([lineOf buffer.pending], buffer.withPending []) := by
  have hruns : finishedRuns (buffer.pending ++ [newline]) = [buffer.pending] := by
    simpa [finishedRuns] using (cut_of_open h.pending_open List.not_mem_nil []).1
  refine Prod.ext ?_ (push_newline_cons h List.not_mem_nil (excess_nil cap))
  exact congrArg (List.map lineOf) hruns

/-- **Flushing agrees with ending the line.**  Whatever bytes without a newline are pending, flushing gives the one line
that a newline would give, or none if nothing is pending, and leaves the buffer that the newline would leave. -/
theorem flushing_law (cap : Option Nat) :
    (∀ bytes, (∃ buffer, Reached cap buffer ∧ buffer.pending = bytes) ↔ newline ∉ bytes ∧ excess cap bytes = 0) ∧
    ∀ buffer, Reached cap buffer →
      (buffer.flush.1 = none ↔ buffer.pending = []) ∧
      (buffer.pending ≠ [] → ∃ line, (buffer.push [newline]).1 = [line] ∧ buffer.flush.1 = some line) ∧
      buffer.flush.2.pending = [] ∧
      buffer.flush.2 = (buffer.push [newline]).2 := by
  refine ⟨exists_reached_iff cap, fun buffer hreached => ?_⟩
  have hpush := push_newline hreached.between
  refine ⟨?_, fun hpending => ⟨lineOf buffer.pending, ?_, ?_⟩, ?_, ?_⟩
  · rw [flush_fst]
    split <;> simp_all
  · rw [hpush]
  · rw [flush_fst, if_neg hpending]
  · rw [flush_snd]
    rfl
  · rw [flush_snd, hpush]

/-- A return before a character that is cut in two, and a return behind it. -/
example :
    (LineBuffer.mk [0x0D, 0xE2, 0x82, 0x0D] (some 4) 9).flush = (some "\r\uFFFD", ⟨[], some 4, 9⟩) ∧
      (LineBuffer.mk [0x0D, 0xE2, 0x82, 0x0D] (some 4) 9).push [newline] = (["\r\uFFFD"], ⟨[], some 4, 9⟩) := by
  decide +kernel

end LineBuffer
end CompilerRelay
