/-!
# Splitting and replacing

Plain operations on texts: cut at a separator, join again, find a text in another, and
replace it throughout.

**Algorithm.**  `replaceAll` goes from left to right.  Where the sought text begins, the replacement is
written and the sought text is skipped, so occurrences that overlap an earlier one do not count.

**Results.**  `splitOn_ne_nil`, `join_splitOn`: a text is its pieces joined by the separator.
`splitOn_append_cons`: both sides of a separator are cut on their own.
`separator_notMem_of_mem_splitOn`: no piece holds the separator.
-/

namespace CompilerRelay
namespace Text

section Split

variable {α : Type}

/-- The pieces put together again with a separator between any two. -/
def join (separator : List α) (pieces : List (List α)) : List α :=
  (pieces.intersperse separator).flatten

theorem join_cons_cons
    (separator piece second : List α) (rest : List (List α)) :
    join separator (piece :: second :: rest) =
      piece ++ (separator ++ join separator (second :: rest)) := by
  simp [join]

variable [DecidableEq α]

/-- The pieces of a list between separators; one more than there are separators. -/
def splitOn (separator : α) (text : List α) : List (List α) :=
  text.foldr
    (fun char pieces =>
      if char = separator then [] :: pieces
      else match pieces with
        | [] => [[char]]
        | piece :: rest => (char :: piece) :: rest)
    [[]]

@[simp] theorem splitOn_nil (separator : α) :
    splitOn separator [] = [[]] := rfl

theorem splitOn_ne_nil (separator : α) (text : List α) :
    splitOn separator text ≠ [] := by
  cases text with
  | nil => simp
  | cons char text =>
      simp only [splitOn, List.foldr_cons]
      split
      · simp
      · split <;> simp

theorem splitOn_cons (separator char : α) (text : List α) :
    splitOn separator (char :: text) =
      if char = separator then [] :: splitOn separator text
      else match splitOn separator text with
        | [] => [[char]]
        | piece :: rest => (char :: piece) :: rest := rfl

theorem splitOn_of_notMem
    {separator : α} {text : List α}
    (htext : separator ∉ text) :
    splitOn separator text = [text] := by
  induction text with
  | nil => rfl
  | cons char text ih =>
      have hchar : char ≠ separator := fun h => htext (by simp [h])
      have hrest : separator ∉ text := fun h => htext (List.mem_cons_of_mem char h)
      rw [splitOn_cons, if_neg hchar, ih hrest]

/-- A separator ends the pieces of what stands before it. -/
theorem splitOn_append_cons (separator : α) (first second : List α) :
    splitOn separator (first ++ separator :: second) =
      splitOn separator first ++ splitOn separator second := by
  induction first with
  | nil => simp [splitOn_cons]
  | cons char first ih =>
      rw [List.cons_append, splitOn_cons, splitOn_cons, ih]
      cases hfirst : splitOn separator first with
      | nil => exact absurd hfirst (splitOn_ne_nil separator first)
      | cons piece rest => by_cases hchar : char = separator <;> simp [hchar]

/-- No piece holds the separator. -/
theorem separator_notMem_of_mem_splitOn
    {separator : α} {text piece : List α}
    (hpiece : piece ∈ splitOn separator text) :
    separator ∉ piece := by
  induction text generalizing piece with
  | nil => simp_all
  | cons char text ih =>
      rw [splitOn_cons] at hpiece
      split at hpiece
      · rcases List.mem_cons.mp hpiece with rfl | hrest
        · simp
        · exact ih hrest
      · next hchar =>
          cases pieces : splitOn separator text with
          | nil => exact absurd pieces (splitOn_ne_nil separator text)
          | cons first rest =>
              rw [pieces] at hpiece ih
              rcases List.mem_cons.mp hpiece with rfl | hrest
              · simp [ih List.mem_cons_self, Ne.symm hchar]
              · exact ih (List.mem_cons_of_mem _ hrest)

theorem join_splitOn (separator : α) (text : List α) :
    join [separator] (splitOn separator text) = text := by
  induction text with
  | nil => rfl
  | cons char text ih =>
      rw [splitOn_cons]
      cases pieces : splitOn separator text with
      | nil => exact absurd pieces (splitOn_ne_nil separator text)
      | cons piece rest =>
          rw [pieces] at ih
          split
          · next same => rw [join_cons_cons, ih, same]; rfl
          · cases rest with
            | nil => simp_all [join]
            | cons second rest =>
                rw [← ih, join_cons_cons, join_cons_cons]
                rfl

end Split

/-- What follows a text that another one starts with. -/
def stripStart? (start : List Char) (text : List Char) : Option (List Char) :=
  if start.isPrefixOf text then some (text.drop start.length) else none

/-- The part before the first occurrence of a nonempty text and the part after it. -/
def cutAt? (sought : List Char) (text : List Char) : Option (List Char × List Char) :=
  go [] text
where
  /-- Search on, with what was passed in reverse. -/
  go (passed : List Char) : List Char → Option (List Char × List Char)
    | [] => if sought.isEmpty then some (passed.reverse, []) else none
    | char :: rest =>
        if sought.isPrefixOf (char :: rest) then
          some (passed.reverse, (char :: rest).drop sought.length)
        else go (char :: passed) rest

/-- Whether a text occurs in another. -/
def occursIn (sought : List Char) (text : List Char) : Bool :=
  (cutAt? sought text).isSome

/-- Replace every occurrence of a nonempty text, from left to right. -/
def replaceAll (sought value : List Char) (text : List Char) : List Char :=
  go 0 [] text
where
  /-- Go on after `skip` characters of the last occurrence, with what was written in reverse. -/
  go (skip : Nat) (written : List Char) : List Char → List Char
    | [] => written.reverse
    | char :: rest =>
        match skip with
        | skip + 1 => go skip written rest
        | 0 =>
            if sought.isPrefixOf (char :: rest) then
              go (sought.length - 1) (value.reverse ++ written) rest
            else go 0 (char :: written) rest

end Text
end CompilerRelay
