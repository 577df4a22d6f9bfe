import CompilerRelay.Bridge
import CompilerRelay.Proofs.LineFraming

/-!
# Lines of the input

The input of the bridge arrives in any pieces, and is read line by line.

**Form.**  `Bridge.linesOf input`: each line with its newline, and what stands after the last newline, if anything.

**Results.**
* `Bridge.linesOf_newline`: a line with its newline is the first line of what it stands in front of.
* `Bridge.cutLine?_some`, `Bridge.cutLine?_none`: what is read is the first line of the input, or its end.
-/

namespace CompilerRelay
namespace Bridge

open LineBuffer (Cut newline finishedRuns unfinishedRun cut_runs unfinishedRun_of_notMem)

/-- The lines of an input, the last one perhaps without a newline. -/
def linesOf (input : Bytes) : List Bytes :=
  (finishedRuns input).map (· ++ [newline]) ++
    if unfinishedRun input = [] then [] else [unfinishedRun input]

@[simp] theorem linesOf_nil : linesOf [] = [] := rfl

theorem linesOf_newline
    {line : Bytes} (hline : newline ∉ line) (rest : Bytes) :
    linesOf (line ++ [newline] ++ rest) = (line ++ [newline]) :: linesOf rest := by
  obtain ⟨hwhole, hruns, htail⟩ := cut_runs rest
  have hcut : Cut (line ++ [newline] ++ rest) (line :: finishedRuns rest) (unfinishedRun rest) := by
    refine ⟨?_, ?_, htail⟩
    · rw [List.flatMap_cons, List.append_assoc (line ++ [newline]), ← hwhole]
    · intro run hrun
      rcases List.mem_cons.mp hrun with rfl | hrun
      · exact hline
      · exact hruns run hrun
  unfold linesOf
  rw [hcut.finishedRuns_eq, hcut.unfinishedRun_eq, List.map_cons, List.cons_append]

theorem linesOf_of_notMem
    {input : Bytes} (hinput : newline ∉ input) (hsome : input ≠ []) :
    linesOf input = [input] := by
  obtain ⟨hruns, htail⟩ := unfinishedRun_of_notMem hinput
  rw [linesOf, hruns, htail, if_neg hsome]
  rfl

/-- Cutting a line off: its newline is there, or the input is closed. -/
theorem cutLine?_eq (bridge : Bridge) :
    bridge.cutLine? =
      match finishedRuns bridge.input with
      | run :: more => some (some (run ++ [newline]), more.flatMap (· ++ [newline]) ++ unfinishedRun bridge.input)
      | [] =>
          if !bridge.inputClosed then none
          else if bridge.input.isEmpty then some (none, [])
          else some (some bridge.input, []) := by
  have hcut := cut_runs bridge.input
  -- `cutLine?` splits the input and joins the rest again: its pieces are the runs, and after them the tail.
  generalize finishedRuns bridge.input = runs at hcut ⊢
  generalize unfinishedRun bridge.input = tail at hcut ⊢
  unfold cutLine?
  rw [hcut.splitOn_eq]
  cases runs with
  | nil => rfl
  | cons run more =>
      obtain ⟨-, hruns, htail⟩ := hcut
      have hrest : Cut (more.flatMap (· ++ [newline]) ++ tail) more tail :=
        ⟨rfl, fun other hother => hruns other (List.mem_cons_of_mem run hother), htail⟩
      have hjoin : Text.join [newline] (more ++ [tail]) = more.flatMap (· ++ [newline]) ++ tail := by
        rw [← hrest.splitOn_eq, Text.join_splitOn]
      cases hmore : more ++ [tail] with
      | nil => simp at hmore
      | cons next rest =>
          rw [hmore] at hjoin
          rw [List.cons_append, hmore]
          exact congrArg (fun others => some (some (run ++ [newline]), others)) hjoin

/-- A line that is read is the first one, with its newline or at the end of a closed input. -/
theorem cutLine?_some
    {bridge : Bridge} {line rest : Bytes}
    (hcut : bridge.cutLine? = some (some line, rest)) :
    (∃ run, line = run ++ [newline] ∧ newline ∉ run ∧ bridge.input = line ++ rest) ∨
    (bridge.inputClosed = true ∧ line = bridge.input ∧ rest = [] ∧ linesOf bridge.input = [bridge.input]) := by
  rw [cutLine?_eq] at hcut
  have hwhole := cut_runs bridge.input
  cases hruns : finishedRuns bridge.input with
  | cons run more =>
      rw [hruns] at hcut hwhole
      obtain ⟨hline, rfl⟩ := Prod.mk.inj (Option.some.inj hcut)
      obtain rfl := Option.some.inj hline
      refine Or.inl ⟨run, rfl, hwhole.runs_open run (by simp), ?_⟩
      conv_lhs => rw [hwhole.whole]
      simp
  | nil =>
      rw [hruns] at hcut hwhole
      have hopen : newline ∉ bridge.input := by
        rw [hwhole.whole]
        simpa using hwhole.tail_open
      by_cases hclosed : bridge.inputClosed = true
      · cases hinput : bridge.input with
        | nil => simp [hclosed, hinput] at hcut
        | cons byte more =>
            simp only [hclosed, hinput, Bool.not_true, List.isEmpty_cons, Bool.false_eq_true, if_false,
              Option.some.injEq, Prod.mk.injEq] at hcut
            obtain ⟨rfl, rfl⟩ := hcut
            rw [hinput] at hopen
            exact Or.inr ⟨hclosed, rfl, rfl, linesOf_of_notMem hopen (by simp)⟩
      · simp [hclosed] at hcut

/-- The end is read when the input is closed and nothing is left of it. -/
theorem cutLine?_none
    {bridge : Bridge} {rest : Bytes}
    (hcut : bridge.cutLine? = some (none, rest)) :
    bridge.inputClosed = true ∧ bridge.input = [] ∧ rest = [] := by
  rw [cutLine?_eq] at hcut
  cases hruns : finishedRuns bridge.input with
  | cons run more => simp [hruns] at hcut
  | nil =>
      rw [hruns] at hcut
      by_cases hclosed : bridge.inputClosed = true
      · cases hinput : bridge.input with
        | nil => simpa [hclosed, hinput, eq_comm] using hcut
        | cons byte more => simp [hclosed, hinput] at hcut
      · simp [hclosed] at hcut

end Bridge
end CompilerRelay
