import CompilerRelay.OutputLine
import Mathlib.Data.List.TakeWhile
import Mathlib.Order.Basic

/-!
# The grammar of headers

Which lines of output say something of a file, and what, told by the way they are written.

**Input.**  A line, and the directory that relative files refer to.

**Form.**  A `Header` is a marker, a file, a line and a column without separators among them, and what follows the
closing bracket if there is one.  `Header.written` is the line that it stands in, and `Header.Says` what it says.

**Algorithm.**  The classification cuts at the first closing bracket and then at every colon.  As no field holds
either, both cuts are forced, and a line is the text of one header at most.

**Results.**
* `Position.read?_eq_some_iff`: the numbers that are read are the decimal numerals up to the limit.
* `OutputLine.parse_written`: a line that a header is written in is cut into its fields.
* `OutputLine.grammar_law`: a line is classified by what its header says, and is plain output without one.
-/

namespace CompilerRelay

/-! ## Texts -/

namespace Text

theorem trimStart_of_head?
    {text : List Char} (h : ∀ char, text.head? = some char → isBlank char = false) :
    trimStart text = text := by
  cases text with
  | nil => rfl
  | cons char rest => simp [trimStart, h char rfl]

theorem trim_of_notBlank
    {text : List Char} (h : ∀ char ∈ text, isBlank char = false) :
    trim text = text := by
  have hstart : trimStart text = text := trimStart_of_head? fun char hchar => h char (List.mem_of_head? hchar)
  have hend : trimStart text.reverse = text.reverse := by
    refine trimStart_of_head? fun char hchar => h char ?_
    exact List.mem_reverse.mp (List.mem_of_head? hchar)
  rw [trim, hstart]
  exact (congrArg List.reverse hend).trans text.reverse_reverse

/-- A text is blank throughout exactly if nothing is left of it. -/
theorem trim_eq_nil_iff {text : List Char} : trim text = [] ↔ ∀ char ∈ text, isBlank char = true := by
  have hstart : trimStart text = [] ↔ ∀ char ∈ text, isBlank char = true := by
    simp [trimStart, List.dropWhile_eq_nil_iff]
  constructor
  · intro h
    have hnone : (trimStart text).reverse.dropWhile isBlank = [] := by simpa [trim, trimEnd] using h
    -- What is left after the blanks at the start does not begin with a blank.
    cases hleft : trimStart text with
    | nil => exact hstart.mp hleft
    | cons char rest =>
        have hblank : isBlank char = true := List.dropWhile_eq_nil_iff.mp hnone char (by simp [hleft])
        have hnot : isBlank char = false := by
          have hhead := List.head?_dropWhile_not isBlank text
          rw [show text.dropWhile isBlank = char :: rest from hleft] at hhead
          simpa using hhead
        rw [hblank] at hnot
        cases hnot
  · intro h
    rw [trim, hstart.mpr h]
    rfl

theorem trim_ne_nil_iff {text : List Char} : trim text ≠ [] ↔ ∃ char ∈ text, isBlank char = false := by
  simp [trim_eq_nil_iff]

end Text

/-! ## Numbers -/

/-- Decimal digits behind an optional plus sign, with the number that they denote. -/
inductive Numeral : List Char → Nat → Prop
  | plain {digits : List Char} (hne : digits ≠ []) (hdigits : ∀ digit ∈ digits, digit.isDigit = true) :
      Numeral digits (Nat.ofDigitChars 10 digits 0)
  | signed {digits : List Char} (hne : digits ≠ []) (hdigits : ∀ digit ∈ digits, digit.isDigit = true) :
      Numeral ('+' :: digits) (Nat.ofDigitChars 10 digits 0)

namespace Position

theorem le_ofDigitChars (digits : List Char) (start : Nat) : start ≤ Nat.ofDigitChars 10 digits start := by
  induction digits generalizing start with
  | nil => exact le_refl start
  | cons digit digits ih =>
      rw [Nat.ofDigitChars_cons]
      exact le_trans (by omega) (ih _)

@[simp] theorem foldl_readDigit_none (digits : List Char) : digits.foldl readDigit none = none := by
  induction digits with
  | nil => rfl
  | cons digit digits ih => exact ih

theorem foldl_readDigit_eq_some_iff
    (digits : List Char) {start number : Nat} (hstart : start ≤ limit) :
    digits.foldl readDigit (some start) = some number ↔
      (∀ digit ∈ digits, digit.isDigit = true) ∧ Nat.ofDigitChars 10 digits start = number ∧ number ≤ limit := by
  induction digits generalizing start with
  | nil =>
      simp only [List.foldl_nil, Option.some.injEq, List.not_mem_nil, Nat.ofDigitChars_nil]
      constructor
      · rintro rfl
        exact ⟨by simp, rfl, hstart⟩
      · rintro ⟨-, rfl, -⟩
        rfl
  | cons digit digits ih =>
      rw [List.foldl_cons, Nat.ofDigitChars_cons, Nat.mul_comm 10 start]
      by_cases hdigit : digit.isDigit = true
      · by_cases hfits : start * 10 + (digit.toNat - '0'.toNat) ≤ limit
        · have hread : readDigit (some start) digit = some (start * 10 + (digit.toNat - '0'.toNat)) := by
            simp only [readDigit, Option.bind_some, hdigit, Bool.true_and, decide_eq_true_eq, if_pos hfits]
          rw [hread, ih hfits]
          simp [hdigit]
        · have hread : readDigit (some start) digit = none := by
            simp only [readDigit, Option.bind_some, hdigit, Bool.true_and, decide_eq_true_eq, if_neg hfits]
          rw [hread, foldl_readDigit_none]
          constructor
          · intro h
            cases h
          · rintro ⟨-, rfl, hle⟩
            exact absurd (le_trans (le_ofDigitChars digits _) hle) hfits
      · have hread : readDigit (some start) digit = none := by simp [readDigit, hdigit]
        rw [hread, foldl_readDigit_none]
        simp [hdigit]

theorem readDigits?_eq_some_iff {digits : List Char} {number : Nat} :
    readDigits? digits = some number ↔
      digits ≠ [] ∧ (∀ digit ∈ digits, digit.isDigit = true) ∧
        Nat.ofDigitChars 10 digits 0 = number ∧ number ≤ limit := by
  unfold readDigits?
  split
  · next hnil => simp [hnil]
  · next hne => simp [foldl_readDigit_eq_some_iff digits (Nat.zero_le limit), hne]

/-- The numbers that are read are the decimal numerals up to the limit. -/
theorem read?_eq_some_iff {text : List Char} {number : Nat} :
    read? text = some number ↔ Numeral text number ∧ number ≤ limit := by
  constructor
  · intro h
    unfold read? at h
    split at h
    · obtain ⟨hne, hdigits, rfl, hle⟩ := readDigits?_eq_some_iff.mp h
      exact ⟨.signed hne hdigits, hle⟩
    · obtain ⟨hne, hdigits, rfl, hle⟩ := readDigits?_eq_some_iff.mp h
      exact ⟨.plain hne hdigits, hle⟩
  · rintro ⟨hnumeral, hle⟩
    cases hnumeral with
    | signed hne hdigits => exact readDigits?_eq_some_iff.mpr ⟨hne, hdigits, rfl, hle⟩
    | plain hne hdigits =>
        unfold read?
        split
        · next digits => exact absurd (hdigits '+' List.mem_cons_self) (by decide)
        · exact readDigits?_eq_some_iff.mpr ⟨hne, hdigits, rfl, hle⟩

/-- A text that is a number counted from one, blanks aside, and the position counted from zero. -/
def Shows (text : List Char) (position : UInt32) : Prop :=
  ∃ number, Numeral (Text.trim text) number ∧ number ≤ limit ∧ position.toNat = max number 1 - 1

theorem ofOneBased?_eq_some_iff {text : List Char} {position : UInt32} :
    ofOneBased? text = some position ↔ Shows text position := by
  have hposition {number : Nat} (hle : number ≤ limit) :
      UInt32.ofNat (number - 1) = position ↔ position.toNat = max number 1 - 1 := by
    have hsmall : number - 1 < UInt32.size := lt_of_le_of_lt (Nat.sub_le_of_le_add (by omega)) (Nat.lt_succ_of_le hle)
    rw [← UInt32.toNat_inj, UInt32.toNat_ofNat_of_lt' hsmall]
    omega
  simp only [ofOneBased?, Option.map_eq_some_iff, read?_eq_some_iff, Shows]
  constructor
  · rintro ⟨number, ⟨hnumeral, hle⟩, hequal⟩
    exact ⟨number, hnumeral, hle, (hposition hle).mp hequal⟩
  · rintro ⟨number, hnumeral, hle, hequal⟩
    exact ⟨number, ⟨hnumeral, hle⟩, (hposition hle).mpr hequal⟩

theorem isDigit_of_mem_repr {number : Nat} {digit : Char} (h : digit ∈ number.repr.toList) : digit.isDigit = true := by
  rw [Nat.toList_repr] at h
  exact Nat.isDigit_of_mem_toDigits (by decide) (by decide) h

theorem separators_notMem_repr (number : Nat) : ':' ∉ number.repr.toList ∧ ']' ∉ number.repr.toList :=
  ⟨fun h => absurd (isDigit_of_mem_repr h) (by decide), fun h => absurd (isDigit_of_mem_repr h) (by decide)⟩

theorem isBlank_of_isDigit {digit : Char} (h : digit.isDigit = true) : isBlank digit = false := by
  simp only [Char.isDigit, Bool.and_eq_true, decide_eq_true_eq] at h
  have hrange : 48 ≤ digit.toNat ∧ digit.toNat ≤ 57 := h
  simp only [isBlank]
  simp
  omega

/-- A position is shown by its decimal digits. -/
theorem shows_repr {position : UInt32} (hpos : 0 < position) : Shows position.toNat.repr.toList (position - 1) := by
  have htrim : Text.trim position.toNat.repr.toList = position.toNat.repr.toList :=
    Text.trim_of_notBlank fun digit hdigit => isBlank_of_isDigit (isDigit_of_mem_repr hdigit)
  have hnumber : Nat.ofDigitChars 10 position.toNat.repr.toList 0 = position.toNat := by
    rw [Nat.toList_repr]
    exact Nat.ofDigitChars_toDigits (by decide) (by decide)
  have hdigits : position.toNat.repr.toList ≠ [] := by
    rw [Nat.toList_repr]
    exact Nat.toDigits_ne_nil
  have hone : 1 ≤ position.toNat := UInt32.lt_iff_toNat_lt.mp hpos
  refine ⟨position.toNat, ?_, ?_, ?_⟩
  · rw [htrim]
    simpa only [hnumber] using Numeral.plain hdigits fun digit hdigit => isDigit_of_mem_repr hdigit
  · have hlt := position.toNat_lt
    simp only [limit]
    omega
  · rw [UInt32.toNat_sub_of_le _ _ (UInt32.le_iff_toNat_le.mpr (by simpa using hone))]
    simp
    omega

end Position

/-! ## Headers -/

/-- The marker that stands for a severity. -/
def Severity.marker : Severity → String
  | .error => "ERROR"
  | .warning => "WARNING"

theorem Severity.ofMarker?_eq_some_iff {text : String} {severity : Severity} :
    ofMarker? text = some severity ↔ text = severity.marker := by
  unfold ofMarker?
  cases severity <;> split <;> simp_all [marker]

/-- A header cut into its fields, with what follows the closing bracket if there is one. -/
@[ext] structure Header where
  marker : List Char
  file : List Char
  line : List Char
  column : List Char
  rest : Option (List Char)
  isOpen : ∀ field ∈ [marker, file, line, column], ':' ∉ field ∧ ']' ∉ field

namespace Header

/-- The fields of a header with colons between them. -/
def fields (header : Header) : List Char :=
  header.marker ++ ':' :: (header.file ++ ':' :: (header.line ++ ':' :: header.column))

/-- The line that a header is written in. -/
def written (header : Header) : List Char :=
  '[' :: (header.fields ++ header.rest.elim [] (']' :: ·))

/-- A header names a place: its file is not blank, and its numbers are positions. -/
structure Names (header : Header) (root : Path) (place : Location) : Prop where
  file : ∃ char ∈ header.file, isBlank char = false
  path : place.path =
    let path : Path := ⟨String.ofList (Text.trim header.file)⟩
    if path.isAbsolute then path else root.join path
  line : Position.Shows header.line place.line
  column : Position.Shows header.column place.column

/-- The message behind a header: its rest without the blanks around it, or the name of the severity. -/
def message (header : Header) (severity : Severity) : String :=
  let text := Text.trim (header.rest.getD [])
  if text = [] then severity.label else String.ofList text

/-- What a header says. -/
inductive Says (header : Header) (root : Path) : OutputLine → Prop
  | definition {place : Location} (hmarker : header.marker = "DEFINITION".toList) (hplace : header.Names root place) :
      Says header root (.definition place)
  | diagnostic {place : Location} (severity : Severity) (hmarker : header.marker = severity.marker.toList)
      (hplace : header.Names root place) :
      Says header root (.diagnostic place.path ⟨severity, header.message severity, place.line, place.column⟩)

theorem bracket_notMem_fields (header : Header) : ']' ∉ header.fields := by
  have hopen := header.isOpen
  simp_all [fields]

theorem splitOn_fields (header : Header) :
    Text.splitOn ':' header.fields = [header.marker, header.file, header.line, header.column] := by
  have hcut {field : List Char} (hfield : field ∈ [header.marker, header.file, header.line, header.column]) :
      Text.splitOn ':' field = [field] :=
    Text.splitOn_of_notMem (header.isOpen field hfield).1
  rw [fields, Text.splitOn_append_cons, Text.splitOn_append_cons, Text.splitOn_append_cons, hcut (by simp),
    hcut (by simp), hcut (by simp), hcut (by simp)]
  rfl

end Header

namespace OutputLine

variable {line : String} {root : Path}

section Cut

variable {text : List Char} (hbracket : ']' ∉ text) (rest : Option (List Char))

include hbracket

theorem takeWhile_bracket : (text ++ rest.elim [] (']' :: ·)).takeWhile (· ≠ ']') = text := by
  have htext : ∀ char ∈ text, decide (char ≠ ']') = true :=
    fun char hchar => decide_eq_true fun hsame => hbracket (hsame ▸ hchar)
  rw [List.takeWhile_append_of_pos htext]
  cases rest <;> simp

theorem dropWhile_bracket : ((text ++ rest.elim [] (']' :: ·)).dropWhile (· ≠ ']')).drop 1 = rest.getD [] := by
  have htext : ∀ char ∈ text, decide (char ≠ ']') = true :=
    fun char hchar => decide_eq_true fun hsame => hbracket (hsame ▸ hchar)
  rw [List.dropWhile_append_of_pos htext]
  cases rest <;> simp

end Cut

/-- A text is cut at its first closing bracket, if it has one. -/
theorem exists_bracket (whole : List Char) :
    ∃ (text : List Char) (rest : Option (List Char)), ']' ∉ text ∧ whole = text ++ rest.elim [] (']' :: ·) := by
  by_cases hmem : ']' ∈ whole
  · obtain ⟨text, more, hwhole, hbracket⟩ := List.eq_append_cons_of_mem hmem
    exact ⟨text, some more, hbracket, hwhole⟩
  · exact ⟨whole, none, hmem, (List.append_nil whole).symm⟩

/-- A line that a header is written in is cut into its fields. -/
theorem parse_written
    {header : Header} (hline : line.toList = header.written) :
    parse line root =
      ofHeader root [header.marker, header.file, header.line, header.column] (header.rest.getD []) := by
  have hbracket := header.bracket_notMem_fields
  unfold parse
  rw [hline]
  simp only [Header.written, takeWhile_bracket hbracket, dropWhile_bracket hbracket, header.splitOn_fields]

theorem fields_of_ne_plain
    {fields : List (List Char)} {rest : List Char} (h : ofHeader root fields rest ≠ .plain) :
    ∃ marker file number column, fields = [marker, file, number, column] := by
  unfold ofHeader at h
  split at h
  · next marker file number column => exact ⟨marker, file, number, column, rfl⟩
  · exact absurd rfl h

/-- A text without brackets that is cut into four pieces holds the fields of a header, whatever comes behind it. -/
theorem exists_header
    {text marker file number column : List Char}
    (hfields : Text.splitOn ':' text = [marker, file, number, column]) (hbracket : ']' ∉ text)
    (rest : Option (List Char)) :
    ∃ header : Header, header.fields = text ∧ header.rest = rest := by
  have hjoined : marker ++ ':' :: (file ++ ':' :: (number ++ ':' :: column)) = text := by
    have hjoin := Text.join_splitOn ':' text
    rw [hfields] at hjoin
    simpa [Text.join] using hjoin
  have hopen : ∀ field ∈ [marker, file, number, column], ':' ∉ field ∧ ']' ∉ field := by
    intro field hfield
    refine ⟨Text.separator_notMem_of_mem_splitOn (hfields ▸ hfield), fun hmem => hbracket ?_⟩
    rw [← hjoined]
    simp only [List.mem_cons, List.not_mem_nil, or_false] at hfield
    rcases hfield with rfl | rfl | rfl | rfl <;> simp [hmem]
  exact ⟨⟨marker, file, number, column, rest, hopen⟩, hjoined, rfl⟩

/-- A line that is no plain output is the text of a header. -/
theorem exists_written_of_ne_plain (h : parse line root ≠ .plain) :
    ∃ header : Header, line.toList = header.written := by
  cases hline : line.toList with
  | nil => exact absurd (parse_of_no_bracket root (by simp [hline])) h
  | cons first whole =>
      by_cases hfirst : first = '['
      · obtain ⟨text, rest, hbracket, rfl⟩ := exists_bracket whole
        subst hfirst
        simp only [parse, hline, takeWhile_bracket hbracket, dropWhile_bracket hbracket] at h
        obtain ⟨marker, file, number, column, hfields⟩ := fields_of_ne_plain h
        obtain ⟨header, rfl, rfl⟩ := exists_header hfields hbracket rest
        exact ⟨header, rfl⟩
      · exact absurd (parse_of_no_bracket root (by simp [hline, hfirst])) h

theorem names_of_fields
    {header : Header} {first : Char} {file : List Char} {number column : UInt32}
    (hfile : Text.trim header.file = first :: file) (hline : Position.ofOneBased? header.line = some number)
    (hcolumn : Position.ofOneBased? header.column = some column) :
    header.Names root ⟨resolve root (first :: file), number, column⟩ where
  file := Text.trim_ne_nil_iff.mp (by simp [hfile])
  path := by rw [hfile]; rfl
  line := Position.ofOneBased?_eq_some_iff.mp hline
  column := Position.ofOneBased?_eq_some_iff.mp hcolumn

theorem messageOf_eq (header : Header) (severity : Severity) :
    messageOf severity (header.rest.getD []) = header.message severity := by
  unfold messageOf Header.message
  split
  · next hnone => simp [hnone]
  · next hsome => simp_all

/-- What the marker of a header makes of a place that it names. -/
def ofMarker (header : Header) (place : Location) : OutputLine :=
  if String.ofList header.marker = definitionMarker then .definition place
  else
    match Severity.ofMarker? (String.ofList header.marker) with
    | none => .plain
    | some severity => .diagnostic place.path ⟨severity, header.message severity, place.line, place.column⟩

theorem ofHeader_of_names
    {header : Header} {place : Location} (h : header.Names root place) :
    ofHeader root [header.marker, header.file, header.line, header.column] (header.rest.getD []) =
      ofMarker header place := by
  obtain ⟨hnamed, hpath, hline, hcolumn⟩ := h
  cases hfile : Text.trim header.file with
  | nil => exact absurd hfile (Text.trim_ne_nil_iff.mpr hnamed)
  | cons first file =>
      rw [hfile] at hpath
      have hresolve : resolve root (first :: file) = place.path := hpath.symm
      simp only [ofHeader, hfile, Position.ofOneBased?_eq_some_iff.mpr hline,
        Position.ofOneBased?_eq_some_iff.mpr hcolumn, hresolve, messageOf_eq]
      rfl

theorem exists_names_of_ne_plain
    {header : Header}
    (h : ofHeader root [header.marker, header.file, header.line, header.column] (header.rest.getD []) ≠ .plain) :
    ∃ place, header.Names root place := by
  cases hfile : Text.trim header.file with
  | nil => simp [ofHeader, hfile] at h
  | cons first file =>
      cases hline : Position.ofOneBased? header.line with
      | none => simp [ofHeader, hfile, hline] at h
      | some number =>
          cases hcolumn : Position.ofOneBased? header.column with
          | none => simp [ofHeader, hfile, hline, hcolumn] at h
          | some column => exact ⟨_, names_of_fields hfile hline hcolumn⟩

theorem ofMarker_of_said
    {header : Header} {output : OutputLine} (h : header.Says root output) :
    ∃ place, header.Names root place ∧ ofMarker header place = output := by
  cases h with
  | @definition place hmarker hplace =>
      have hdefinition : String.ofList header.marker = definitionMarker := by rw [hmarker]; rfl
      exact ⟨place, hplace, if_pos hdefinition⟩
  | @diagnostic place severity hmarker hplace =>
      have hsame : String.ofList header.marker = severity.marker := by rw [hmarker, String.ofList_toList]
      have hother : severity.marker ≠ definitionMarker := by cases severity <;> decide
      refine ⟨place, hplace, ?_⟩
      rw [ofMarker, hsame, if_neg hother, Severity.ofMarker?_eq_some_iff.mpr rfl]

theorem says_of_names
    {header : Header} {place : Location} (hplace : header.Names root place)
    (houtput : ofMarker header place ≠ .plain) :
    header.Says root (ofMarker header place) := by
  by_cases hdefinition : String.ofList header.marker = definitionMarker
  · rw [ofMarker, if_pos hdefinition]
    exact .definition (by rw [← String.toList_ofList (l := header.marker), hdefinition]; rfl) hplace
  · cases hseverity : Severity.ofMarker? (String.ofList header.marker) with
    | none => exact absurd (by simp [ofMarker, hdefinition, hseverity]) houtput
    | some severity =>
        have hmarker : String.ofList header.marker = severity.marker := Severity.ofMarker?_eq_some_iff.mp hseverity
        simp only [ofMarker, if_neg hdefinition, hseverity]
        exact .diagnostic severity (by rw [← hmarker, String.toList_ofList]) hplace

theorem ne_plain_of_said {header : Header} {output : OutputLine} (h : header.Says root output) : output ≠ .plain := by
  cases h <;> simp

/-- A line that is no plain output says what its header says. -/
theorem parse_eq_iff {output : OutputLine} (houtput : output ≠ .plain) :
    parse line root = output ↔ ∃ header : Header, line.toList = header.written ∧ header.Says root output := by
  constructor
  · rintro rfl
    obtain ⟨header, hwritten⟩ := exists_written_of_ne_plain houtput
    rw [parse_written hwritten] at houtput ⊢
    obtain ⟨place, hplace⟩ := exists_names_of_ne_plain houtput
    rw [ofHeader_of_names hplace] at houtput ⊢
    exact ⟨header, hwritten, says_of_names hplace houtput⟩
  · rintro ⟨header, hwritten, hsays⟩
    obtain ⟨place, hplace, hmarker⟩ := ofMarker_of_said hsays
    rw [parse_written hwritten, ofHeader_of_names hplace, hmarker]

/-- A line is the text of one header at most. -/
theorem header_unique {first second : Header} (h : first.written = second.written) : first = second := by
  have hwhole := List.cons.inj h |>.2
  have htexts : first.fields = second.fields := by
    have htake := congrArg (List.takeWhile (· ≠ ']')) hwhole
    rwa [takeWhile_bracket first.bracket_notMem_fields, takeWhile_bracket second.bracket_notMem_fields] at htake
  have hfields : [first.marker, first.file, first.line, first.column] =
      [second.marker, second.file, second.line, second.column] := by
    rw [← first.splitOn_fields, ← second.splitOn_fields, htexts]
  have hrest : first.rest = second.rest := by
    rw [htexts, List.append_cancel_left_eq] at hwhole
    cases hfirst : first.rest <;> cases hsecond : second.rest <;> simp_all
  simp only [List.cons.injEq, and_true] at hfields
  obtain ⟨hmarker, hfile, hline, hcolumn⟩ := hfields
  exact Header.ext hmarker hfile hline hcolumn hrest

theorem parse_diagnostic
    (root : Path) (severity : Severity) {file : String} {number column : UInt32} {message : String}
    (hopen : ':' ∉ file.toList ∧ ']' ∉ file.toList) (hnamed : file ≠ "") (htrim : trimmed file = file)
    (hnumber : 0 < number) (hcolumn : 0 < column) (hmessage : trimmed message ≠ "") :
    parse (s!"[{severity.marker}:{file}:{number.toNat}:{column.toNat}] {message}") root =
      .diagnostic (if Path.isAbsolute ⟨file⟩ then ⟨file⟩ else root.join ⟨file⟩)
        ⟨severity, trimmed message, number - 1, column - 1⟩ := by
  have hfields : ∀ field ∈ [severity.marker.toList, file.toList, number.toNat.repr.toList, column.toNat.repr.toList],
      ':' ∉ field ∧ ']' ∉ field := by
    intro field hfield
    simp only [List.mem_cons, List.not_mem_nil, or_false] at hfield
    rcases hfield with rfl | rfl | rfl | rfl
    · cases severity <;> decide
    · exact hopen
    · exact Position.separators_notMem_repr number.toNat
    · exact Position.separators_notMem_repr column.toNat
  let header : Header := ⟨_, _, _, _, some (' ' :: message.toList), hfields⟩
  have hwritten : (s!"[{severity.marker}:{file}:{number.toNat}:{column.toNat}] {message}").toList = header.written := by
    change ("[" ++ severity.marker ++ ":" ++ file ++ ":" ++ number.toNat.repr ++ ":" ++ column.toNat.repr ++ "] " ++
      message).toList = _
    simp [header, Header.written, Header.fields]
  have hfile : Text.trim header.file = file.toList := by
    rw [← htrim]
    exact String.toList_ofList.symm
  have hsaid : header.message severity = trimmed message := by
    have hrest : Text.trim (header.rest.getD []) = Text.trim message.toList := rfl
    have hsome : Text.trim message.toList ≠ [] := fun hnone => hmessage (by rw [trimmed, hnone])
    rw [Header.message, hrest, if_neg hsome]
    rfl
  have hplace : header.Names root
      ⟨if Path.isAbsolute ⟨file⟩ then ⟨file⟩ else root.join ⟨file⟩, number - 1, column - 1⟩ :=
    { file := Text.trim_ne_nil_iff.mp (by simpa [hfile] using hnamed)
      path := by simp only [hfile, String.ofList_toList]
      line := Position.shows_repr hnumber
      column := Position.shows_repr hcolumn }
  rw [← hsaid]
  exact (parse_eq_iff (by simp)).mpr ⟨header, hwritten, .diagnostic severity rfl hplace⟩

/-- **Lines are classified by the grammar of headers.** -/
theorem grammar_law (line : String) (root : Path) :
    -- A line is a diagnostic or a definition exactly if a header is written in it that says so.
    (∀ output, output ≠ .plain →
      (parse line root = output ↔ ∃ header : Header, line.toList = header.written ∧ header.Says root output)) ∧
    -- Every other line is plain output.
    (parse line root = .plain ↔
      ∀ header : Header, line.toList = header.written → ∀ output, ¬ header.Says root output) ∧
    -- The header of a line is unique.
    (∀ first second : Header, line.toList = first.written → line.toList = second.written → first = second) ∧
    -- What is written out as a diagnostic is read back, its place counted from zero.
    (∀ (severity : Severity) (file : String) (number column : UInt32) (message : String),
      ':' ∉ file.toList ∧ ']' ∉ file.toList → file ≠ "" → trimmed file = file → 0 < number → 0 < column →
      trimmed message ≠ "" →
      parse (s!"[{severity.marker}:{file}:{number.toNat}:{column.toNat}] {message}") root =
        .diagnostic (if Path.isAbsolute ⟨file⟩ then ⟨file⟩ else root.join ⟨file⟩)
          ⟨severity, trimmed message, number - 1, column - 1⟩) := by
  refine ⟨fun output houtput => parse_eq_iff houtput, ?_, ?_, ?_⟩
  · constructor
    · intro hplain header hwritten output hsays
      have hparse := (parse_eq_iff (ne_plain_of_said hsays)).mpr ⟨header, hwritten, hsays⟩
      exact ne_plain_of_said hsays (hparse.symm.trans hplain)
    · intro hnone
      by_contra houtput
      obtain ⟨header, hwritten, hsays⟩ := (parse_eq_iff houtput).mp rfl
      exact hnone header hwritten _ hsays
  · exact fun first second hfirst hsecond => header_unique (hfirst.symm.trans hsecond)
  · intro severity file number column message hopen hnamed htrim hnumber hcolumn hmessage
    exact parse_diagnostic root severity hopen hnamed htrim hnumber hcolumn hmessage

/-- The first closing bracket ends the header, and the numbers may be spaced and signed. -/
example : parse "[WARNING: a.cm :+12: 0 ] expected ']' or ':'" ⟨"/cm"⟩ =
    .diagnostic ⟨"/cm/a.cm"⟩ ⟨.warning, "expected ']' or ':'", 11, 0⟩ := by decide

end OutputLine
end CompilerRelay
