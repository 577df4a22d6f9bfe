import CompilerRelay.Proofs.HeaderGrammar

/-!
# Positions as they are shown

A position is counted from one in the output, from zero in a diagnostic, and from one again where it is shown.

**Input.**  A line of output, and the directory that relative files refer to.

**Algorithm.**  A number that was read fits 32 bits and is lowered by one unless it is zero.  So one can be added again,
though the addition itself does not look for an overflow.

**Results.**
* `Numeral.unique`: a text denotes one number at most.
* `Position.Shows.toNat_add_one`: adding one to what was read does not overflow.
* `OutputLine.positions_law`: what is shown is the number that was reported, or one instead of zero.
-/

namespace CompilerRelay

/-- A text denotes one number at most. -/
theorem Numeral.unique
    {text : List Char} {first second : Nat}
    (hfirst : Numeral text first) (hsecond : Numeral text second) :
    first = second := by
  cases hfirst with
  | plain _ hdigits =>
      cases hsecond with
      | plain => rfl
      | signed => exact absurd (hdigits '+' List.mem_cons_self) (by decide)
  | signed =>
      cases hsecond with
      | plain _ hdigits => exact absurd (hdigits '+' List.mem_cons_self) (by decide)
      | signed => rfl

namespace Position

variable {text : List Char} {position : UInt32} {number : Nat}

/-- What is read fits 32 bits, and is the number lowered by one. -/
theorem Shows.of_numeral
    (h : Shows text position) (hnumber : Numeral (Text.trim text) number) :
    number ≤ limit ∧ position.toNat = max number 1 - 1 := by
  obtain ⟨own, hown, hle, hposition⟩ := h
  obtain rfl := hown.unique hnumber
  exact ⟨hle, hposition⟩

/-- Adding one again does not overflow. -/
theorem Shows.toNat_add_one
    (h : Shows text position) (hnumber : Numeral (Text.trim text) number) :
    position.toNat + 1 < UInt32.size ∧ (position + 1).toNat = max number 1 := by
  obtain ⟨hle, hposition⟩ := h.of_numeral hnumber
  have hfits : position.toNat + 1 < UInt32.size := by
    simp only [limit] at hle
    simp only [UInt32.size]
    omega
  refine ⟨hfits, ?_⟩
  rw [UInt32.toNat_add, UInt32.toNat_one, Nat.mod_eq_of_lt hfits]
  omega

/-- What is shown is read as the same position. -/
theorem Shows.repr
    (h : Shows text position) (hnumber : Numeral (Text.trim text) number) :
    ofOneBased? (max number 1).repr.toList = some position := by
  obtain ⟨hfits, hsum⟩ := h.toNat_add_one hnumber
  have hpos : 0 < position + 1 := by
    rw [UInt32.lt_iff_toNat_lt, hsum]
    exact Nat.lt_of_lt_of_le Nat.zero_lt_one (Nat.le_max_right number 1)
  have hshows := shows_repr hpos
  rw [hsum, UInt32.add_sub_cancel] at hshows
  exact ofOneBased?_eq_some_iff.mpr hshows

end Position

/-- The two numbers that a header reports. -/
structure Header.Reports (header : Header) (line column : Nat) : Prop where
  line : Numeral (Text.trim header.line) line
  column : Numeral (Text.trim header.column) column

/-- How a diagnostic is shown, once it is known which numbers its place has when it is counted from one. -/
theorem Diagnostic.display_eq
    {diagnostic : Diagnostic} {line column : Nat}
    (hline : (diagnostic.line + 1).toNat = line) (hcolumn : (diagnostic.column + 1).toNat = column) (path : Path) :
    diagnostic.display path =
      s!"{path.text}:{line}:{column}: {diagnostic.severity.label}: {diagnostic.message}" := by
  subst hline hcolumn
  simp only [display, String.append_assoc]
  rfl

namespace OutputLine

variable {line : String} {root : Path} {header : Header}

/-- The header of a line that is no plain output names a place. -/
theorem exists_names_of_parse
    (hwritten : line.toList = header.written) (h : parse line root ≠ .plain) :
    ∃ place, header.Names root place := by
  rw [parse_written hwritten] at h
  exact exists_names_of_ne_plain h

/-- The place that the header of a diagnostic names is that of the diagnostic. -/
theorem names_of_diagnostic
    (hwritten : line.toList = header.written) {file : Path} {diagnostic : Diagnostic}
    (h : parse line root = .diagnostic file diagnostic) :
    header.Names root ⟨file, diagnostic.line, diagnostic.column⟩ := by
  obtain ⟨other, hother, hsays⟩ := (parse_eq_iff (by simp)).mp h
  obtain rfl := header_unique (hwritten.symm.trans hother)
  cases hsays with
  | diagnostic severity hmarker hplace => exact hplace

/-- **Positions survive being read and shown.**  A diagnostic has a header that reports two numbers.  Its place can be
counted from one without an overflow, and is shown as these numbers, with one for zero; what is shown is read as the
same place.  A header with a number that does not fit 32 bits is plain output. -/
theorem positions_law (line : String) (root : Path) :
    (∀ file diagnostic, parse line root = .diagnostic file diagnostic →
      ∃ (header : Header) (a b : Nat), line.toList = header.written ∧ header.Reports a b) ∧
    ∀ (header : Header) (a b : Nat), line.toList = header.written → header.Reports a b →
      (∀ file diagnostic, parse line root = .diagnostic file diagnostic →
        (diagnostic.line.toNat + 1 < UInt32.size ∧ diagnostic.column.toNat + 1 < UInt32.size) ∧
        (∀ path : Path, diagnostic.display path =
          s!"{path.text}:{max a 1}:{max b 1}: {diagnostic.severity.label}: {diagnostic.message}") ∧
        (1 ≤ a → 1 ≤ b → ∀ path : Path, diagnostic.display path =
          s!"{path.text}:{a}:{b}: {diagnostic.severity.label}: {diagnostic.message}") ∧
        Position.ofOneBased? (max a 1).repr.toList = some diagnostic.line ∧
        Position.ofOneBased? (max b 1).repr.toList = some diagnostic.column) ∧
      (4294967295 < a ∨ 4294967295 < b → parse line root = .plain) := by
  constructor
  · intro file diagnostic h
    obtain ⟨header, hwritten, -⟩ := (parse_eq_iff (by simp)).mp h
    obtain ⟨-, -, ⟨a, hline, -⟩, ⟨b, hcolumn, -⟩⟩ := names_of_diagnostic hwritten h
    exact ⟨header, a, b, hwritten, hline, hcolumn⟩
  · intro header a b hwritten hreports
    constructor
    · intro file diagnostic h
      have hnames := names_of_diagnostic hwritten h
      obtain ⟨hlineFits, hline⟩ := hnames.line.toNat_add_one hreports.line
      obtain ⟨hcolumnFits, hcolumn⟩ := hnames.column.toNat_add_one hreports.column
      have hdisplay := Diagnostic.display_eq hline hcolumn
      refine ⟨⟨hlineFits, hcolumnFits⟩, hdisplay, ?_, hnames.line.repr hreports.line,
        hnames.column.repr hreports.column⟩
      intro ha hb path
      rw [hdisplay path, Nat.max_eq_left ha, Nat.max_eq_left hb]
    · intro hlarge
      by_contra hsaid
      obtain ⟨place, hnames⟩ := exists_names_of_parse hwritten hsaid
      have hline : a ≤ 4294967295 := (hnames.line.of_numeral hreports.line).1
      have hcolumn : b ≤ 4294967295 := (hnames.column.of_numeral hreports.column).1
      omega

/-- The largest number is shown as it was reported, zero is shown as one, and a larger number is plain output. -/
example :
    (match parse "[ERROR:/w.cm: +0004294967295 :0]" ⟨"/cm"⟩ with
      | .diagnostic _ found => some (found.display ⟨"w.cm"⟩)
      | _ => none) = some "w.cm:4294967295:1: error: error" ∧
      parse "[ERROR:/w.cm:4294967296:0]" ⟨"/cm"⟩ = .plain := by
  decide +kernel

end OutputLine
end CompilerRelay
