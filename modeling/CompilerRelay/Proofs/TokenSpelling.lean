import CompilerRelay.Json.Reader
import CompilerRelay.Proofs.HeaderGrammar

/-!
# Words of JSON

The ways to write a string or an integer, and what the reader makes of each.

**Form.**  `CharSpelling char written`: in a string, this is one way to write the character.  `Digits digits value`:
these are the decimal digits of a number.

**Results.**
* `readString_spelled`: a string is read, however its characters are escaped.
* `charSpelling_escapeChar`: the way in which strings are written is one of them.
* `readMagnitude_digits`: what is read of the digits of an integer, up to where they end.
* `NumberSpelling.natural`, `NumberSpelling.negative`: integers of 64 bits are read as they are.
-/

namespace CompilerRelay
namespace Json

/-! ## Blanks -/

/-- A text of blanks only. -/
def Blanks (text : List Char) : Prop :=
  ∀ char ∈ text, char = ' ' ∨ char = '\n' ∨ char = '\t' ∨ char = '\r'

theorem blanks_nil : Blanks [] := by simp [Blanks]

theorem skipBlanks_append {blanks : List Char} (h : Blanks blanks) (rest : List Char) :
    skipBlanks (blanks ++ rest) = skipBlanks rest :=
  List.dropWhile_append_of_pos fun char hchar => by simpa [or_assoc] using h char hchar

theorem skipBlanks_blanks {blanks : List Char} (h : Blanks blanks) : skipBlanks blanks = [] := by
  simpa [skipBlanks_nil] using skipBlanks_append h []

theorem length_skipBlanks_le (text : List Char) : (skipBlanks text).length ≤ text.length :=
  (List.dropWhile_suffix _).length_le

/-! ## Strings -/

/-- The letters behind a backslash and the characters that they stand for. -/
def shortEscapes : List (Char × Char) :=
  [('"', '"'), ('\\', '\\'), ('/', '/'), ('b', '\x08'), ('f', '\x0c'), ('n', '\n'), ('r', '\r'), ('t', '\t')]

/-- Four hexadecimal digits, with their value. -/
inductive UnitSpelling : List Char → Nat → Prop
  | digits {first second third fourth : Char} {value value₂ value₃ value₄ : Nat}
      (hfirst : hexValue? first = some value) (hsecond : hexValue? second = some value₂)
      (hthird : hexValue? third = some value₃) (hfourth : hexValue? fourth = some value₄) :
      UnitSpelling [first, second, third, fourth] (((value * 16 + value₂) * 16 + value₃) * 16 + value₄)

/-- A way to write a character in a string. -/
inductive CharSpelling : Char → List Char → Prop
  | itself {char : Char} (hcontrol : 0x20 ≤ char.toNat) (hquote : char ≠ '"') (hbackslash : char ≠ '\\') :
      CharSpelling char [char]
  | short {letter char : Char} (h : (letter, char) ∈ shortEscapes) : CharSpelling char ['\\', letter]
  | unit {char : Char} {digits : List Char} (h : UnitSpelling digits char.toNat) :
      CharSpelling char ('\\' :: 'u' :: digits)
  /-- A character beyond the first 65536 is written as two units. -/
  | pair {char : Char} {high low : Nat} {highDigits lowDigits : List Char}
      (hhigh : UnitSpelling highDigits high) (hlow : UnitSpelling lowDigits low)
      (hhighRange : 0xD800 ≤ high ∧ high ≤ 0xDBFF) (hlowRange : 0xDC00 ≤ low ∧ low ≤ 0xDFFF)
      (hvalue : char.toNat = (high - 0xD800) * 1024 + (low - 0xDC00) + 0x10000) :
      CharSpelling char ('\\' :: 'u' :: (highDigits ++ '\\' :: 'u' :: lowDigits))

/-- A way to write a text between the quotes of a string. -/
inductive StringSpelling : List Char → List Char → Prop
  | nil : StringSpelling [] []
  | cons {char : Char} {text piece written : List Char} (hchar : CharSpelling char piece)
      (hmore : StringSpelling text written) : StringSpelling (char :: text) (piece ++ written)

theorem length_le_utf8ByteSize (text : List Char) : text.length ≤ (String.ofList text).utf8ByteSize := by
  induction text with
  | nil => simp
  | cons char rest ih =>
      have := char.utf8Size_pos
      rw [String.ofList_cons, String.utf8ByteSize_append, String.utf8ByteSize_singleton, List.length_cons]
      omega

theorem readUnit_spelled {digits : List Char} {unit : Nat} (h : UnitSpelling digits unit) (rest : List Char) :
    readUnit (digits ++ rest) = .ok (unit, rest) := by
  cases h with
  | @digits first second third fourth _ _ _ _ hfirst hsecond hthird hfourth =>
      have hsize : ¬ (String.ofList [first, second, third, fourth]).utf8ByteSize < 4 :=
        Nat.not_lt.mpr (length_le_utf8ByteSize [first, second, third, fourth])
      simp only [readUnit, List.cons_append, List.nil_append, List.take_succ_cons, List.take_zero, if_neg hsize,
        List.mapM_cons, List.mapM_nil, hfirst, hsecond, hthird, hfourth]
      rfl

/-- No character has the code of a surrogate. -/
theorem not_surrogate (char : Char) : char.toNat < 0xD800 ∨ 0xDFFF < char.toNat := by
  rcases char.valid with h | ⟨h, -⟩
  · exact Or.inl h
  · exact Or.inr h

theorem readEscape_short {letter char : Char} (h : (letter, char) ∈ shortEscapes) (rest : List Char) :
    readEscape (letter :: rest) = .ok (char, rest) := by
  simp only [shortEscapes, List.mem_cons, Prod.mk.injEq, List.not_mem_nil, or_false] at h
  rcases h with
    ⟨rfl, rfl⟩ | ⟨rfl, rfl⟩ | ⟨rfl, rfl⟩ | ⟨rfl, rfl⟩ | ⟨rfl, rfl⟩ | ⟨rfl, rfl⟩ | ⟨rfl, rfl⟩ | ⟨rfl, rfl⟩ <;> rfl

theorem readEscape_unit {char : Char} {digits : List Char} (h : UnitSpelling digits char.toNat) (rest : List Char) :
    readEscape ('u' :: (digits ++ rest)) = .ok (char, rest) := by
  have hrange := not_surrogate char
  simp only [readEscape, readCode, readUnit_spelled h, bind, Except.bind]
  rw [if_neg (by omega), if_neg (by omega), Char.ofNat_toNat]
  rfl

theorem readEscape_pair
    {char : Char} {high low : Nat} {highDigits lowDigits : List Char}
    (hhigh : UnitSpelling highDigits high) (hlow : UnitSpelling lowDigits low)
    (hhighRange : 0xD800 ≤ high ∧ high ≤ 0xDBFF) (hlowRange : 0xDC00 ≤ low ∧ low ≤ 0xDFFF)
    (hvalue : char.toNat = (high - 0xD800) * 1024 + (low - 0xDC00) + 0x10000) (rest : List Char) :
    readEscape ('u' :: (highDigits ++ '\\' :: 'u' :: (lowDigits ++ rest))) = .ok (char, rest) := by
  simp only [readEscape, readCode, readUnit_spelled hhigh, bind, Except.bind]
  rw [if_neg (by omega), if_pos hhighRange]
  simp only [readLowSurrogate, readUnit_spelled hlow, bind, Except.bind]
  rw [if_neg (by omega), ← hvalue, Char.ofNat_toNat]
  rfl

/-- A string is read on behind a character, whichever way it is written. -/
theorem readStringGo_spelled
    {char : Char} {piece : List Char} (h : CharSpelling char piece) (fuel : Nat) (read rest : List Char) :
    readString.go (fuel + 1) read (piece ++ rest) = readString.go fuel (char :: read) rest := by
  cases h with
  | itself hcontrol hquote hbackslash =>
      rw [List.cons_append, List.nil_append, readString.go.eq_5 _ _ _ _ hquote hbackslash,
        if_neg (Nat.not_lt.mpr hcontrol)]
  | short h => simp only [List.cons_append, List.nil_append, readString.go, readEscape_short h]
  | unit h => simp only [List.cons_append, readString.go, readEscape_unit h]
  | pair hhigh hlow hhighRange hlowRange hvalue =>
      simp only [List.cons_append, List.append_assoc, readString.go,
        readEscape_pair hhigh hlow hhighRange hlowRange hvalue]

theorem CharSpelling.length_pos {char : Char} {piece : List Char} (h : CharSpelling char piece) : 0 < piece.length := by
  cases h <;> simp

/-- A string is read, however its characters are written. -/
theorem readString_spelled {text written : List Char} (h : StringSpelling text written) (rest : List Char) :
    readString (written ++ '"' :: rest) = .ok (String.ofList text, rest) := by
  have hgo (fuel : Nat) (read : List Char) (hfuel : written.length < fuel) :
      readString.go fuel read (written ++ '"' :: rest) = .ok (String.ofList (read.reverse ++ text), rest) := by
    induction h generalizing fuel read with
    | nil =>
        obtain ⟨fuel, rfl⟩ := Nat.exists_eq_succ_of_ne_zero (Nat.ne_of_gt hfuel)
        rw [List.append_nil]
        rfl
    | @cons char text piece written hchar _ ih =>
        have hpiece := hchar.length_pos
        rw [List.length_append] at hfuel
        obtain ⟨fuel, rfl⟩ := Nat.exists_eq_succ_of_ne_zero (Nat.ne_of_gt (Nat.zero_lt_of_lt hfuel))
        rw [List.append_assoc, readStringGo_spelled hchar, ih fuel (char :: read) (by omega), List.reverse_cons,
          List.append_assoc]
        rfl
  refine (hgo _ [] ?_).trans rfl
  rw [List.length_append]
  omega

theorem hexValue?_hexDigit : ∀ digit < 16, hexValue? (Text.hexDigit digit) = some digit := by decide

/-- Strings are written in one of the ways in which they are read. -/
theorem charSpelling_escapeChar (char : Char) : CharSpelling char (escapeChar char) := by
  unfold escapeChar
  split
  case h_8 hquote hbackslash hnewline hreturn htab hbackspace hfeed =>
    split
    · next hcontrol =>
        have hunit := UnitSpelling.digits (hexValue?_hexDigit 0 (by decide)) (hexValue?_hexDigit 0 (by decide))
          (hexValue?_hexDigit (char.toNat / 16) (by omega)) (hexValue?_hexDigit (char.toNat % 16) (by omega))
        have hvalue : ((0 * 16 + 0) * 16 + char.toNat / 16) * 16 + char.toNat % 16 = char.toNat := by omega
        rw [hvalue] at hunit
        exact .unit hunit
    · next hcontrol => exact .itself (Nat.not_lt.mp hcontrol) hquote hbackslash
  all_goals exact .short (by decide)

theorem stringSpelling_flatMap (text : List Char) : StringSpelling text (text.flatMap escapeChar) := by
  induction text with
  | nil => exact .nil
  | cons char rest ih => exact .cons (charSpelling_escapeChar char) ih

/-! ## Integers -/

/-- The decimal digits of a number, without zeros in front. -/
structure Digits (digits : List Char) (value : Nat) : Prop where
  ne_nil : digits ≠ []
  isDigit : ∀ digit ∈ digits, digit.isDigit = true
  no_zero : digits.head? = some '0' → digits = ['0']
  value_eq : Nat.ofDigitChars 10 digits 0 = value

/-- A text that does not go on with a number that stands before it. -/
def EndsNumber (rest : List Char) : Prop :=
  ∀ char, rest.head? = some char → char.isDigit = false ∧ char ≠ '.' ∧ char ≠ 'e' ∧ char ≠ 'E'

/-- What is read of an integer with these digits, if it is not too large. -/
def integerOf? (negative : Bool) (digits : List Char) : Option JsonNumber :=
  match gatherDigits 0 0 digits with
  | (significand, _, []) => some (ofInteger negative significand)
  | (significand, _, left) => (scale significand left.length).map (ofFloat negative)

theorem digits_toDigits (value : Nat) : Digits (Nat.toDigits 10 value) value := by
  refine ⟨Nat.toDigits_ne_nil, fun digit hdigit => Nat.isDigit_of_mem_toDigits (by decide) (by decide) hdigit, ?_,
    Nat.ofDigitChars_ten_toDigits⟩
  -- The first digit of a number is that of its tenth.
  induction value using Nat.strongRecOn with
  | ind value ih =>
      rw [Nat.toDigits_eq_if (by decide)]
      split
      · next hsmall =>
          have hdigit : ∀ digit < 10, [Nat.digitChar digit].head? = some '0' → [Nat.digitChar digit] = ['0'] := by
            decide
          exact hdigit value hsmall
      · next hlarge =>
          intro hzero
          rw [List.head?_append, Option.or_of_isSome (List.isSome_head?.mpr Nat.toDigits_ne_nil)] at hzero
          have htenth := ih (value / 10) (by omega) hzero
          have hvalue : Nat.ofDigitChars 10 (Nat.toDigits 10 (value / 10)) 0 = value / 10 :=
            Nat.ofDigitChars_ten_toDigits
          rw [htenth] at hvalue
          have : value / 10 = 0 := hvalue.symm
          omega

theorem digitValue_lt {digit : Char} (h : digit.isDigit = true) : digitValue digit < wordLimit := by
  simp only [Char.isDigit, Bool.and_eq_true, decide_eq_true_eq] at h
  have hrange : digit.toNat ≤ 57 := h.2
  have hsmall : digitValue digit ≤ 9 := by
    have hzero : '0'.toNat = 48 := rfl
    rw [digitValue, hzero]
    omega
  exact Nat.lt_of_le_of_lt hsmall (by decide)

theorem gatherDigits_append
    {digits rest : List Char} (hdigits : ∀ digit ∈ digits, digit.isDigit = true) (hrest : EndsNumber rest)
    (significand count : Nat) :
    gatherDigits significand count (digits ++ rest) =
      ((gatherDigits significand count digits).1, (gatherDigits significand count digits).2.1,
        (gatherDigits significand count digits).2.2 ++ rest) := by
  induction digits generalizing significand count with
  | nil =>
      cases rest with
      | nil => rfl
      | cons char rest =>
          have hchar : char.isDigit = false := (hrest char rfl).1
          simp [gatherDigits, hchar]
  | cons digit digits ih =>
      simp only [List.cons_append, gatherDigits]
      split
      · exact ih (fun other hother => hdigits other (List.mem_cons_of_mem digit hother)) _ _
      · rfl

/-- What is gathered stands in front of what is left. -/
theorem gatherDigits_isSuffix (digits : List Char) (significand count : Nat) :
    (gatherDigits significand count digits).2.2 <:+ digits := by
  induction digits generalizing significand count with
  | nil => exact List.suffix_rfl
  | cons digit digits ih =>
      simp only [gatherDigits]
      split
      · exact (ih _ _).trans (List.suffix_cons digit digits)
      · exact List.suffix_rfl

/-- All digits of a number of 64 bits are gathered. -/
theorem gatherDigits_of_lt
    {digits : List Char} (hdigits : ∀ digit ∈ digits, digit.isDigit = true) (significand count : Nat)
    (hfits : Nat.ofDigitChars 10 digits significand < wordLimit) :
    gatherDigits significand count digits = (Nat.ofDigitChars 10 digits significand, count + digits.length, []) := by
  induction digits generalizing significand count with
  | nil => rfl
  | cons digit digits ih =>
      have hdigit : digit.isDigit = true := hdigits digit (by simp)
      have hmore : ∀ other ∈ digits, other.isDigit = true := fun other hother =>
        hdigits other (List.mem_cons_of_mem digit hother)
      rw [Nat.ofDigitChars_cons, Nat.mul_comm 10 significand, ← digitValue] at hfits ⊢
      have hle : significand * 10 + digitValue digit < wordLimit :=
        Nat.lt_of_le_of_lt (Position.le_ofDigitChars digits _) hfits
      rw [gatherDigits, if_pos (by simp [hdigit, hle])]
      rw [ih hmore _ _ hfits, List.length_cons, Nat.add_assoc, Nat.add_comm 1]

section EndsNumber

variable {rest : List Char}

theorem endsNumber_nil : EndsNumber [] := by simp [EndsNumber]

theorem readAfterInteger_of_endsNumber (hrest : EndsNumber rest) (negative : Bool) (significand : Nat) :
    readAfterInteger negative significand rest = .ok (ofInteger negative significand, rest) := by
  unfold readAfterInteger
  split
  · exact absurd rfl (hrest '.' rfl).2.1
  · exact absurd rfl (hrest 'e' rfl).2.2.1
  · exact absurd rfl (hrest 'E' rfl).2.2.2
  · rfl

theorem readScale_of_endsNumber (hrest : EndsNumber rest) (negative : Bool) (significand : Nat) (exponent : Int) :
    readScale negative significand exponent rest = scaled negative significand exponent rest := by
  unfold readScale
  split
  · exact absurd rfl (hrest 'e' rfl).2.2.1
  · exact absurd rfl (hrest 'E' rfl).2.2.2
  · rfl

/-- Digits that are too many raise the exponent. -/
theorem readLongInteger_of_endsNumber
    (hrest : EndsNumber rest) {digits : List Char} (hdigits : ∀ digit ∈ digits, digit.isDigit = true)
    (negative : Bool) (significand : Nat) :
    readLongInteger negative significand (digits ++ rest) = scaled negative significand digits.length rest := by
  have hstop : rest.takeWhile Char.isDigit = [] ∧ rest.dropWhile Char.isDigit = rest := by
    cases rest with
    | nil => exact ⟨rfl, rfl⟩
    | cons char rest => simp [(hrest char rfl).1]
  have htake : (digits ++ rest).takeWhile Char.isDigit = digits := by
    rw [List.takeWhile_append_of_pos hdigits, hstop.1, List.append_nil]
  have hdrop : (digits ++ rest).dropWhile Char.isDigit = rest := by
    rw [List.dropWhile_append_of_pos hdigits, hstop.2]
  unfold readLongInteger
  simp only [htake, hdrop]
  split
  · exact absurd rfl (hrest '.' rfl).2.1
  · exact readScale_of_endsNumber hrest negative significand digits.length

/-- What is read of the digits of an integer, up to where they end. -/
theorem readMagnitude_digits
    (hrest : EndsNumber rest) {digits : List Char} {value : Nat} (h : Digits digits value) (negative : Bool) :
    readMagnitude negative (digits ++ rest) =
      match integerOf? negative digits with
      | some integer => .ok (integer, rest)
      | none => .error (.outOfRange rest) := by
  cases digits with
  | nil => exact absurd rfl h.ne_nil
  | cons digit digits =>
      have hdigit : digit.isDigit = true := h.isDigit digit (by simp)
      have hmore : ∀ other ∈ digits, other.isDigit = true :=
        fun other hother => h.isDigit other (List.mem_cons_of_mem digit hother)
      by_cases hzero : digit = '0'
      · subst hzero
        obtain rfl : digits = [] := (List.cons.inj (h.no_zero rfl)).2
        have hafter := readAfterInteger_of_endsNumber hrest negative 0
        have hinteger : integerOf? negative ['0'] = some (ofInteger negative 0) := rfl
        rw [hinteger, List.cons_append, List.nil_append]
        cases rest with
        | nil => exact hafter
        | cons char rest =>
            have hchar : char.isDigit = false := (hrest char rfl).1
            simp only [readMagnitude, hchar, Bool.false_eq_true, if_false]
            exact hafter
      · have hsmall : digitValue digit < wordLimit := digitValue_lt hdigit
        have hgather : gatherDigits 0 0 (digit :: digits) = gatherDigits (digitValue digit) 1 digits := by
          simp [gatherDigits, hdigit, hsmall]
        have hleft := gatherDigits_isSuffix digits (digitValue digit) 1
        unfold integerOf?
        rw [hgather, List.cons_append, readMagnitude.eq_4 _ _ _ hzero]
        simp only [hdigit, Bool.not_true, Bool.false_eq_true, if_false, gatherDigits_append hmore hrest]
        cases hcut : gatherDigits (digitValue digit) 1 digits with
        | mk significand more =>
          obtain ⟨count, left⟩ := more
          rw [hcut] at hleft
          cases left with
          | nil =>
              have hafter := readAfterInteger_of_endsNumber hrest negative significand
              cases rest with
              | nil => exact hafter
              | cons char rest =>
                  have hchar : char.isDigit = false := (hrest char rfl).1
                  simp only [List.nil_append, hchar, Bool.false_eq_true, if_false]
                  exact hafter
          | cons next left =>
              have hall : ∀ other ∈ next :: left, other.isDigit = true := fun other hother =>
                hmore other (hleft.mem hother)
              have hnext : next.isDigit = true := hall next (by simp)
              have hlong := readLongInteger_of_endsNumber hrest hall negative significand
              simp only [List.cons_append, hnext, if_true] at hlong ⊢
              rw [hlong, scaled]
              cases scale significand (next :: left).length <;> rfl

end EndsNumber

/-- A way to write an integer.  One of more than 64 bits is read as a floating-point number, unless it is too large. -/
inductive NumberSpelling (number : JsonNumber) : List Char → Prop
  | plain {digits : List Char} {value : Nat} (h : Digits digits value) (hread : integerOf? false digits = some number) :
      NumberSpelling number digits
  | minus {digits : List Char} {value : Nat} (h : Digits digits value) (hread : integerOf? true digits = some number) :
      NumberSpelling number ('-' :: digits)

theorem integerOf?_of_lt
    {digits : List Char} {value : Nat} (h : Digits digits value) (hfits : value < wordLimit) (negative : Bool) :
    integerOf? negative digits = some (ofInteger negative value) := by
  have hvalue := h.value_eq
  rw [integerOf?, gatherDigits_of_lt h.isDigit 0 0 (by omega), hvalue]

/-- A natural number of 64 bits is read as it is. -/
theorem NumberSpelling.natural
    {digits : List Char} {value : Nat} (h : Digits digits value) (hfits : value < wordLimit) :
    NumberSpelling (.natural value) digits :=
  .plain h (integerOf?_of_lt h hfits false)

/-- A negative number of 64 bits is read as it is. -/
theorem NumberSpelling.negative
    {digits : List Char} {magnitude : Nat} (h : Digits digits magnitude) (hpos : 0 < magnitude)
    (hfits : magnitude ≤ Nat.pow 2 63) :
    NumberSpelling (.negative magnitude) ('-' :: digits) := by
  have hword : magnitude < wordLimit := Nat.lt_of_le_of_lt hfits (by decide)
  refine .minus h ((integerOf?_of_lt h hword true).trans ?_)
  rw [ofInteger, if_neg (by decide), if_neg (by omega)]

theorem readNumber_digits
    {digits rest : List Char} {value : Nat} {number : JsonNumber} {negative : Bool} (h : Digits digits value)
    (hread : integerOf? negative digits = some number) (hrest : EndsNumber rest) :
    readNumber negative (digits ++ rest) = .ok (number, rest) := by
  rw [readNumber, readMagnitude_digits hrest h negative, hread]

end Json
end CompilerRelay
