import CompilerRelay.Relay.Editing
import Mathlib.Data.List.Dedup
import Mathlib.Tactic

/-!
# Patterns for the beginning of a line

A pattern that asks for the beginning of the text and then for one character after the other.

**Input.**  Any line.

**Form.**  `Pattern.Node.anchored first rest`: the beginning of the text, then the character `first`, then those of `rest`.

**Invariant.**  After the first character at most one thread is under way: what is left of the literal.  A thread that is
started later never gets past the beginning.

**Results.**
* `Pattern.search_anchored`: such a pattern is found exactly in the texts that begin with the literal.
* `Relay.exists_definitionPattern`: the pattern for definitions is one of these.
-/

namespace CompilerRelay
namespace Pattern

namespace CharSet

theorem contains_single (char other : Char) : (single char).contains other = (other == char) := by
  rw [Bool.eq_iff_iff]
  simp only [single, range, contains, Unicode.Ranges.contains, List.any_cons, List.any_nil, Bool.or_false,
    Bool.and_eq_true, decide_eq_true_eq, beq_iff_eq, ← Char.toNat_inj]
  omega

end CharSet

namespace Node

/-- One character after the other. -/
def literal (first : Char) : List Char → Node
  | [] => .set (.single first)
  | second :: rest => .sequence (.set (.single first)) (literal second rest)

/-- The beginning of the text, and then one character after the other. -/
def anchored (first : Char) (rest : List Char) : Node :=
  .sequence (.assertion .textStart) (literal first rest)

/-- What is left of a literal after its first character. -/
def literalRest : List Char → Thread
  | [] => []
  | second :: rest => [literal second rest]

@[simp] theorem accepts_literal (gap : Gap) (first : Char) (rest : List Char) :
    (literal first rest).accepts gap = false := by
  cases rest <;> rfl

theorem after_literal (gap : Gap) (char first : Char) (rest : List Char) :
    (literal first rest).after gap char = if char = first then [literalRest rest] else [] := by
  cases rest <;> by_cases hchar : char = first <;>
    simp [literal, literalRest, after, accepts, CharSet.contains_single, hchar]

theorem literal_ne_anchored (first second : Char) (rest others : List Char) :
    literal first rest ≠ anchored second others := by
  cases rest <;> simp [literal, anchored]

@[simp] theorem accepts_anchored (gap : Gap) (first : Char) (rest : List Char) :
    (anchored first rest).accepts gap = false := by
  simp [anchored, accepts]

/-- Only at the beginning of the text does an anchored literal get under way. -/
theorem after_anchored (gap : Gap) (char first : Char) (rest : List Char) :
    (anchored first rest).after gap char =
      if gap.before = none ∧ char = first then [literalRest rest] else [] := by
  obtain ⟨before, next⟩ := gap
  cases before <;> simp [anchored, after, accepts, Assertion.holds, after_literal]

end Node

section Anchored

variable (first : Char) (others : List Char)

/-- With no thread under way, nothing is found any more. -/
theorem searchFrom_anchored_nil (before : Char) (text : List Char) :
    searchFrom (.anchored first others) (some before) [] text = false := by
  induction text generalizing before with
  | nil => simp [searchFrom, Thread.accepts]
  | cons char rest ih =>
      simp [searchFrom, Thread.accepts, Thread.after, Node.after_anchored, ih]

/-- With a part of the literal under way, the text has to go on with it. -/
theorem searchFrom_anchored (before : Char) (left text : List Char) :
    searchFrom (.anchored first others) (some before) [Node.literalRest left] text = left.isPrefixOf text := by
  induction text generalizing before left with
  | nil => cases left <;> simp [searchFrom, Thread.accepts, Node.literalRest]
  | cons char rest ih =>
      cases left with
      | nil => simp [searchFrom, Thread.accepts, Node.literalRest]
      | cons next left =>
          have hnew : Node.anchored first others ≠ Node.literal next left :=
            (Node.literal_ne_anchored next first left others).symm
          have hunder : Node.literalRest (next :: left) = [Node.literal next left] := rfl
          rw [hunder, List.isPrefixOf_cons_cons]
          by_cases hchar : char = next
          · subst hchar
            have hone : [Node.literalRest left].eraseDups = [Node.literalRest left] := by simp [List.eraseDups_cons]
            simp [searchFrom, Thread.accepts, Thread.after, Node.after_anchored, Node.after_literal, hnew, hone, ih]
          · have hother : (next == char) = false := by simpa using Ne.symm hchar
            simp [searchFrom, Thread.accepts, Thread.after, Node.after_anchored, Node.after_literal, hnew, hchar, hother,
              searchFrom_anchored_nil]

/-- An anchored literal is found exactly in the texts that begin with it. -/
theorem search_anchored (text : List Char) :
    search (.anchored first others) text = (first :: others).isPrefixOf text := by
  cases text with
  | nil => simp [search, searchFrom, Thread.accepts]
  | cons char rest =>
      rw [List.isPrefixOf_cons_cons]
      by_cases hchar : char = first
      · subst hchar
        have hone : [Node.literalRest others].eraseDups = [Node.literalRest others] := by simp [List.eraseDups_cons]
        simp [search, searchFrom, Thread.accepts, Thread.after, Node.after_anchored, hone, searchFrom_anchored]
      · have hother : (first == char) = false := by simpa using Ne.symm hchar
        simp [search, searchFrom, Thread.accepts, Thread.after, Node.after_anchored, hchar, hother,
          searchFrom_anchored_nil]

end Anchored
end Pattern

namespace Relay

/-- The pattern for definitions is read, and occurs exactly in the lines that begin with their marker. -/
theorem exists_definitionPattern :
    ∃ pattern, Pattern.compile definitionPattern = .ok pattern ∧
      ∀ line, pattern.occursIn line = "[DEFINITION:".toList.isPrefixOf line.toList := by
  have hcompile : Pattern.compile definitionPattern =
      .ok ⟨definitionPattern, .anchored '[' "DEFINITION:".toList⟩ := by
    decide +kernel
  exact ⟨_, hcompile, fun line => Pattern.search_anchored '[' "DEFINITION:".toList line.toList⟩

end Relay
end CompilerRelay
