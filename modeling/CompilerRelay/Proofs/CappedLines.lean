import CompilerRelay.Proofs.LineFraming

/-!
# Lines under a cap

A buffer with a cap drops the oldest bytes of a run that stays unfinished.  How much of a long line is left depends on
the chunks, but every line is still returned, with at least as many bytes as the cap, and no byte is lost uncounted.

**Input.**  Chunks that are pushed into a fresh buffer, and counts of dropped bytes that are taken between them.

**Invariant.**  `LineBuffer.Record.Sound`: how the lines that were returned, the bytes that are pending and the counts
stand to all bytes that were pushed.

**Results.**
* `LineBuffer.push_cases`: what a chunk finishes when the oldest bytes before it were dropped.
* `LineBuffer.Record.Sound.push`, `LineBuffer.Record.Sound.takeDropped`: each act keeps the invariant.
* `LineBuffer.capped_law`: it holds after any acts.
-/

namespace CompilerRelay
namespace LineBuffer

section Defs

/-- How many of so many bytes a cap leaves. -/
def allowed (cap : Option Nat) (length : Nat) : Nat :=
  match cap with
  | none => length
  | some most => min length most

/-- These bytes are the end of a run, and the cap does not ask for a shorter one. -/
structure KeptOf (cap : Option Nat) (kept run : Bytes) : Prop where
  isSuffix : kept <:+ run
  allowed_le : allowed cap run.length ≤ kept.length
  /-- A run that is not longer than the cap is kept whole. -/
  whole : allowed cap run.length = run.length → kept = run

/-- How many bytes are missing from the runs that these are left of. -/
def missing (kept runs : List Bytes) : Nat :=
  (List.zipWith (fun left run => run.length - left.length) kept runs).sum

/-- What is done to a buffer. -/
inductive Act where
  | push (chunk : Bytes)
  | takeDropped
  deriving DecidableEq, Repr

/-- The bytes that an act pushes. -/
def Act.bytes : Act → Bytes
  | .push chunk => chunk
  | .takeDropped => []

/-- A buffer with all that went in and came out. -/
structure Record where
  buffer : LineBuffer
  /-- The bytes that were pushed, in order. -/
  pushed : Bytes := []
  /-- The lines that were returned, in order. -/
  lines : List String := []
  /-- The sum of the counts that were taken. -/
  taken : Nat := 0
  deriving DecidableEq, Repr

/-- A fresh buffer with a cap. -/
def Record.fresh (cap : Option Nat) : Record where
  buffer := { cap }

/-- Do something to the buffer. -/
def Record.perform (record : Record) : Act → Record
  | .push chunk =>
      { record with
        buffer := (record.buffer.push chunk).2
        pushed := record.pushed ++ chunk
        lines := record.lines ++ (record.buffer.push chunk).1 }
  | .takeDropped =>
      { record with
        buffer := record.buffer.takeDropped.2
        taken := record.taken + record.buffer.takeDropped.1 }

/-- Do several things to the buffer, one after the other. -/
def Record.performAll (record : Record) (acts : List Act) : Record :=
  acts.foldl Record.perform record

end Defs

/-! ## Runs that lost their beginning -/

theorem allowed_add_le (cap : Option Nat) (first second : Nat) :
    allowed cap (first + second) ≤ allowed cap first + second := by
  cases cap with
  | none => exact Nat.le_refl _
  | some most =>
      simp only [allowed]
      omega

theorem allowed_allowed_add (cap : Option Nat) (first second : Nat) :
    allowed cap (allowed cap first + second) = allowed cap (first + second) := by
  cases cap with
  | none => rfl
  | some most =>
      simp only [allowed]
      omega

theorem allowed_add_excess (cap : Option Nat) (run : Bytes) :
    allowed cap run.length + excess cap run = run.length := by
  cases cap with
  | none => rfl
  | some most =>
      simp only [allowed, excess]
      omega

/-- What finishes a run finishes what is left of it. -/
theorem KeptOf.append
    {cap : Option Nat} {kept run : Bytes} (hsuffix : kept <:+ run)
    (hlength : kept.length = allowed cap run.length) (more : Bytes) :
    KeptOf cap (kept ++ more) (run ++ more) := by
  have hle : allowed cap (run ++ more).length ≤ (kept ++ more).length := by
    rw [List.length_append, List.length_append, hlength]
    exact allowed_add_le cap run.length more.length
  have hmore : kept ++ more <:+ run ++ more := by
    obtain ⟨front, rfl⟩ := hsuffix
    exact ⟨front, by rw [List.append_assoc]⟩
  exact ⟨hmore, hle, fun hwhole => hmore.eq_of_length (by have := hmore.length_le; omega)⟩

theorem KeptOf.refl (cap : Option Nat) (run : Bytes) : KeptOf cap run run := by
  refine ⟨List.suffix_rfl, ?_, fun _ => rfl⟩
  have := allowed_add_excess cap run
  omega

/-- A newline ends what is unfinished before it. -/
theorem cut_of_open
    {before run : Bytes} (hbefore : newline ∉ before) (hrun : newline ∉ run) (rest : Bytes) :
    finishedRuns (before ++ (run ++ newline :: rest)) = (before ++ run) :: finishedRuns rest ∧
      unfinishedRun (before ++ (run ++ newline :: rest)) = unfinishedRun rest := by
  obtain ⟨hwhole, hruns, htail⟩ := cut_runs rest
  have hcut : Cut (before ++ (run ++ newline :: rest)) ((before ++ run) :: finishedRuns rest) (unfinishedRun rest) := by
    refine ⟨?_, List.forall_mem_cons.mpr ⟨by simp [hbefore, hrun], hruns⟩, htail⟩
    conv_lhs => rw [hwhole]
    simp
  exact ⟨hcut.finishedRuns_eq, hcut.unfinishedRun_eq⟩

/-! ## Missing bytes -/

theorem missing_append
    {kept runs : List Bytes} (hlength : kept.length = runs.length) (moreKept moreRuns : List Bytes) :
    missing (kept ++ moreKept) (runs ++ moreRuns) = missing kept runs + missing moreKept moreRuns := by
  rw [missing, List.zipWith_append hlength, List.sum_append]
  rfl

theorem missing_cons (left run : Bytes) (kept runs : List Bytes) :
    missing (left :: kept) (run :: runs) = run.length - left.length + missing kept runs := rfl

theorem missing_self (runs : List Bytes) : missing runs runs = 0 := by
  induction runs with
  | nil => rfl
  | cons run rest ih => rw [missing_cons, ih, Nat.sub_self]

/-- What a chunk finishes, and what it leaves unfinished, when the oldest bytes before it were dropped: no more bytes
are missing than before. -/
structure FinishedAlike (cap : Option Nat) (kept run chunk : Bytes) : Prop where
  kept_of : List.Forall₂ (KeptOf cap) (finishedRuns (kept ++ chunk)) (finishedRuns (run ++ chunk))
  isSuffix : unfinishedRun (kept ++ chunk) <:+ unfinishedRun (run ++ chunk)
  allowed_eq : allowed cap (unfinishedRun (kept ++ chunk)).length = allowed cap (unfinishedRun (run ++ chunk)).length
  missing_eq :
    missing (finishedRuns (kept ++ chunk)) (finishedRuns (run ++ chunk))
        + ((unfinishedRun (run ++ chunk)).length - (unfinishedRun (kept ++ chunk)).length) =
      run.length - kept.length

theorem finishedAlike
    {cap : Option Nat} {kept run : Bytes} (hsuffix : kept <:+ run)
    (hlength : kept.length = allowed cap run.length) (hrun : newline ∉ run) (chunk : Bytes) :
    FinishedAlike cap kept run chunk := by
  have hkept : newline ∉ kept := fun h => hrun (hsuffix.mem h)
  by_cases hopen : newline ∈ chunk
  · -- The first newline finishes what was unfinished; what comes after it was never touched.
    obtain ⟨first, rest, rfl, hfirst⟩ := List.eq_append_cons_of_mem hopen
    obtain ⟨hkeptRuns, hkeptRest⟩ := cut_of_open hkept hfirst rest
    obtain ⟨hruns, hrest⟩ := cut_of_open hrun hfirst rest
    constructor
    · rw [hkeptRuns, hruns]
      exact .cons (.append hsuffix hlength first) (List.forall₂_same.mpr fun later _ => .refl cap later)
    · rw [hkeptRest, hrest]
    · rw [hkeptRest, hrest]
    · rw [hkeptRuns, hruns, hkeptRest, hrest, missing_cons, missing_self, List.length_append, List.length_append]
      omega
  · have hkeptMore : newline ∉ kept ++ chunk := by simp [hkept, hopen]
    have hrunMore : newline ∉ run ++ chunk := by simp [hrun, hopen]
    obtain ⟨hkeptRuns, hkeptRest⟩ := unfinishedRun_of_notMem hkeptMore
    obtain ⟨hruns, hrest⟩ := unfinishedRun_of_notMem hrunMore
    constructor
    · rw [hkeptRuns, hruns]
      exact .nil
    · rw [hkeptRest, hrest]
      exact (KeptOf.append hsuffix hlength chunk).isSuffix
    · rw [hkeptRest, hrest, List.length_append, List.length_append, hlength]
      exact allowed_allowed_add cap run.length chunk.length
    · rw [hkeptRuns, hruns, hkeptRest, hrest, missing_self, List.length_append, List.length_append]
      omega

namespace Record

/-- How the lines, the pending bytes and the counts stand to the bytes that were pushed. -/
structure Sound (cap : Option Nat) (record : Record) (kept : List Bytes) : Prop where
  cap_eq : record.buffer.cap = cap
  /-- Each line is what is left of a run. -/
  lines_eq : record.lines = kept.map lineOf
  kept_of : List.Forall₂ (KeptOf cap) kept (finishedRuns record.pushed)
  /-- The last bytes of the unfinished run are pending. -/
  pending_isSuffix : record.buffer.pending <:+ unfinishedRun record.pushed
  length_pending : record.buffer.pending.length = allowed cap (unfinishedRun record.pushed).length
  /-- Every missing byte was counted, as long as a count can hold their number. -/
  counted :
    missing kept (finishedRuns record.pushed)
        + ((unfinishedRun record.pushed).length - record.buffer.pending.length) ≤ droppedLimit →
      record.taken + record.buffer.dropped =
        missing kept (finishedRuns record.pushed)
          + ((unfinishedRun record.pushed).length - record.buffer.pending.length)

variable {cap : Option Nat} {record : Record} {kept : List Bytes}

theorem Sound.fresh (cap : Option Nat) : Sound cap (fresh cap) [] := by
  refine ⟨rfl, rfl, .nil, List.suffix_rfl, ?_, fun _ => rfl⟩
  cases cap <;> rfl

theorem Sound.takeDropped
    (h : Sound cap record kept) : Sound cap (record.perform .takeDropped) kept :=
  ⟨h.cap_eq, h.lines_eq, h.kept_of, h.pending_isSuffix, h.length_pending, h.counted⟩

/-- A chunk finishes what is left of some runs, and what it leaves unfinished may lose its oldest bytes. -/
theorem Sound.push
    (h : Sound cap record kept) (chunk : Bytes) :
    Sound cap (record.perform (.push chunk)) (kept ++ finishedRuns (record.buffer.pending ++ chunk)) := by
  have halike := finishedAlike h.pending_isSuffix h.length_pending (cut_runs record.pushed).tail_open chunk
  have hexcess := allowed_add_excess cap (unfinishedRun (record.buffer.pending ++ chunk))
  have hle := h.pending_isSuffix.length_le
  have hrestLe := halike.isSuffix.length_le
  constructor
  · exact h.cap_eq
  · rw [List.map_append, ← h.lines_eq]
    rfl
  · simp only [perform, finishedRuns_append record.pushed]
    exact List.rel_append h.kept_of halike.kept_of
  · simp only [perform, LineBuffer.push, unfinishedRun_append record.pushed]
    exact (List.drop_suffix _ _).trans halike.isSuffix
  · simp only [perform, LineBuffer.push, unfinishedRun_append record.pushed, h.cap_eq, List.length_drop]
    rw [← halike.allowed_eq]
    omega
  · simp only [perform, LineBuffer.push, unfinishedRun_append record.pushed, finishedRuns_append record.pushed,
      h.cap_eq, List.length_drop]
    rw [missing_append h.kept_of.length_eq]
    intro hlimit
    have hcounted := h.counted
    have hmissing := halike.missing_eq
    omega

theorem Sound.perform
    (h : Sound cap record kept) (act : Act) :
    ∃ more, Sound cap (record.perform act) (kept ++ more) := by
  cases act with
  | push chunk => exact ⟨_, h.push chunk⟩
  | takeDropped => exact ⟨[], (List.append_nil kept).symm ▸ h.takeDropped⟩

theorem Sound.performAll
    (h : Sound cap record kept) (acts : List Act) :
    ∃ more, Sound cap (record.performAll acts) (kept ++ more) := by
  induction acts generalizing record kept with
  | nil => exact ⟨[], (List.append_nil kept).symm ▸ h⟩
  | cons act rest ih =>
      obtain ⟨first, hfirst⟩ := h.perform act
      obtain ⟨more, hmore⟩ := ih hfirst
      exact ⟨first ++ more, List.append_assoc kept first more ▸ hmore⟩

theorem pushed_performAll (record : Record) (acts : List Act) :
    (record.performAll acts).pushed = record.pushed ++ acts.flatMap Act.bytes := by
  induction acts generalizing record with
  | nil => exact (List.append_nil _).symm
  | cons act rest ih =>
      have hact : (record.perform act).pushed = record.pushed ++ act.bytes := by
        cases act with
        | push chunk => rfl
        | takeDropped => exact (List.append_nil _).symm
      rw [List.flatMap_cons, ← List.append_assoc, ← hact]
      exact ih (record.perform act)

end Record

/-- There are as many finished runs as newlines. -/
theorem length_finishedRuns (bytes : Bytes) :
    (finishedRuns bytes).length = bytes.count newline := by
  obtain ⟨hwhole, hruns, htail⟩ := cut_runs bytes
  have hcount (runs : List Bytes) (hopen : ∀ run ∈ runs, newline ∉ run) :
      (runs.flatMap (· ++ [newline])).count newline = runs.length := by
    induction runs with
    | nil => rfl
    | cons run rest ih =>
        rw [List.flatMap_cons, List.count_append, List.count_append, List.count_eq_zero.mpr (hopen run (by simp)),
          ih fun other hother => hopen other (List.mem_cons_of_mem run hother)]
        simp [Nat.add_comm]
  conv_rhs => rw [hwhole]
  rw [List.count_append, hcount _ hruns, List.count_eq_zero.mpr htail, Nat.add_zero]

/-- **Lines under a cap.**  After any chunks, and whenever the counts were taken between them, there is one line for
each newline, and it is what is left of the run before that newline; the last bytes of the unfinished run are pending,
as many as the cap allows; and every byte that is missing was counted. -/
theorem capped_law (cap : Option Nat) (acts : List Act) :
    ((Record.fresh cap).performAll acts).pushed = acts.flatMap Act.bytes ∧
    ((Record.fresh cap).performAll acts).lines.length = (acts.flatMap Act.bytes).count newline ∧
    ∃ kept, Record.Sound cap ((Record.fresh cap).performAll acts) kept := by
  have hpushed : ((Record.fresh cap).performAll acts).pushed = acts.flatMap Act.bytes :=
    Record.pushed_performAll (Record.fresh cap) acts
  obtain ⟨kept, hsound⟩ := (Record.Sound.fresh cap).performAll acts
  refine ⟨hpushed, ?_, kept, hsound⟩
  rw [hsound.lines_eq, List.length_map, hsound.kept_of.length_eq, length_finishedRuns, hpushed]

/-- What is left of a long line depends on where the chunks end. -/
example :
    ((Record.fresh (some 4)).performAll [.push (Utf8.encode "abcdef"), .takeDropped, .push [newline]]).lines =
        ["cdef"] ∧
      ((Record.fresh (some 4)).performAll [.push (Utf8.encode "abcdef" ++ [newline])]).lines = ["abcdef"] := by
  decide +kernel

end LineBuffer
end CompilerRelay
