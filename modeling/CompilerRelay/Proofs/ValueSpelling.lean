import CompilerRelay.Proofs.TokenSpelling

/-!
# Values of JSON in text

The ways to write a value: with blanks between its parts, and with its strings escaped in any way.

**Form.**  `Spells value text`: the text is the value.  Members stand in the order in which they are written.

**Results.**
* `read_spelled`: the text of a value is read as that value, if it is not nested too deep.
* `spells_render`: the way in which values are written is one of them.
* `read_compress`: what is written is read back.
-/

namespace CompilerRelay
namespace Json

section Defs

/-- What stands between an item and the one before it. -/
def comma (first : Bool) : List Char :=
  if first then [] else [',']

mutual

/-- The text is this value. -/
def Spells : Json → List Char → Prop
  | .null, text => text = nullWord
  | .bool value, text => text = boolWord value
  | .number value, text => NumberSpelling value text
  | .string value, text => ∃ written, StringSpelling value.toList written ∧ text = '"' :: (written ++ ['"'])
  | .array items, text => ∃ written, SpellsItems true items written ∧ text = '[' :: (written ++ [']'])
  | .object members, text => ∃ written, SpellsMembers true members written ∧ text = '\x7b' :: (written ++ ['\x7d'])

/-- The text is these items of an array, up to its bracket. -/
def SpellsItems (first : Bool) : List Json → List Char → Prop
  | [], text => Blanks text
  | item :: rest, text => ∃ before after written more, Blanks before ∧ Blanks after ∧ Spells item written ∧
      SpellsItems false rest more ∧ text = before ++ (comma first ++ (after ++ (written ++ more)))

/-- The text is these members of an object, up to its brace. -/
def SpellsMembers (first : Bool) : List (String × Json) → List Char → Prop
  | [], text => Blanks text
  | (name, value) :: rest, text => ∃ before after key behind ahead written more, Blanks before ∧ Blanks after ∧
      StringSpelling name.toList key ∧ Blanks behind ∧ Blanks ahead ∧ Spells value written ∧
      SpellsMembers false rest more ∧
      text = before ++ (comma first ++ (after ++
        ('"' :: (key ++ '"' :: (behind ++ ':' :: (ahead ++ (written ++ more)))))))

end

mutual

/-- How deep a value is nested. -/
def depth : Json → Nat
  | .null | .bool _ | .number _ | .string _ => 0
  | .array items => depthItems items + 1
  | .object members => depthMembers members + 1

/-- How deep the items of an array are nested. -/
def depthItems : List Json → Nat
  | [] => 0
  | item :: rest => max (depth item) (depthItems rest)

/-- How deep the members of an object are nested. -/
def depthMembers : List (String × Json) → Nat
  | [] => 0
  | (_, value) :: rest => max (depth value) (depthMembers rest)

end

end Defs

/-! ## Where parts begin and end -/

/-- A character that a value may begin with. -/
def StartsValue (char : Char) : Prop :=
  char ∈ ['n', 't', 'f', '"', '[', '\x7b', '-'] ∨ char.isDigit = true

/-- The characters between values. -/
def isBetween (char : Char) : Bool :=
  char ∈ [' ', '\n', '\t', '\r', ',', ']', '\x7d']

theorem StartsValue.not_isBetween {char : Char} (h : StartsValue char) : isBetween char = false := by
  rw [Bool.eq_false_iff]
  intro hbetween
  simp only [isBetween, List.mem_cons, List.not_mem_nil, or_false, decide_eq_true_eq] at hbetween
  unfold StartsValue at h
  rcases hbetween with rfl | rfl | rfl | rfl | rfl | rfl | rfl <;> revert h <;> decide

theorem skipBlanks_of_startsValue {char : Char} (h : StartsValue char) (rest : List Char) :
    skipBlanks (char :: rest) = char :: rest := by
  have hnot := h.not_isBetween
  simp only [isBetween, List.mem_cons, List.not_mem_nil, or_false, decide_eq_false_iff_not, not_or] at hnot
  simp [skipBlanks, hnot]

/-- A value begins with a character of its own. -/
theorem Spells.exists_start {value : Json} {text : List Char} (h : Spells value text) :
    ∃ char rest, text = char :: rest ∧ StartsValue char := by
  cases value with
  | null => exact ⟨'n', ['u', 'l', 'l'], h, Or.inl (by decide)⟩
  | bool value =>
      cases value
      · exact ⟨'f', ['a', 'l', 's', 'e'], h, Or.inl (by decide)⟩
      · exact ⟨'t', ['r', 'u', 'e'], h, Or.inl (by decide)⟩
  | number value =>
      cases h with
      | plain h hread =>
          obtain ⟨digit, digits, rfl⟩ := List.exists_cons_of_ne_nil h.ne_nil
          exact ⟨digit, digits, rfl, Or.inr (h.isDigit digit (by simp))⟩
      | minus h hread => exact ⟨'-', _, rfl, Or.inl (by decide)⟩
  | string value =>
      obtain ⟨written, -, rfl⟩ := h
      exact ⟨'"', _, rfl, Or.inl (by decide)⟩
  | array items =>
      obtain ⟨written, -, rfl⟩ := h
      exact ⟨'[', _, rfl, Or.inl (by decide)⟩
  | object members =>
      obtain ⟨written, -, rfl⟩ := h
      exact ⟨'\x7b', _, rfl, Or.inl (by decide)⟩

/-- What separates values ends a number. -/
theorem endsNumber_of_isBetween {char : Char} (h : isBetween char = true) (rest : List Char) :
    EndsNumber (char :: rest) := by
  rintro other hother
  obtain rfl : char = other := Option.some.inj hother
  simp only [isBetween, List.mem_cons, List.not_mem_nil, or_false, decide_eq_true_eq] at h
  rcases h with rfl | rfl | rfl | rfl | rfl | rfl | rfl <;> decide

theorem endsNumber_blanks_append {blanks : List Char} (h : Blanks blanks) {rest : List Char} (hrest : EndsNumber rest) :
    EndsNumber (blanks ++ rest) := by
  cases blanks with
  | nil => exact hrest
  | cons char blanks =>
      refine endsNumber_of_isBetween ?_ _
      rcases h char (by simp) with rfl | rfl | rfl | rfl <;> rfl

theorem SpellsItems.endsNumber
    {items : List Json} {text : List Char} (h : SpellsItems false items text) (rest : List Char) :
    EndsNumber (text ++ ']' :: rest) := by
  cases items with
  | nil => exact endsNumber_blanks_append h (endsNumber_of_isBetween rfl rest)
  | cons item items =>
      obtain ⟨before, after, written, more, hbefore, -, -, -, rfl⟩ := h
      rw [List.append_assoc]
      exact endsNumber_blanks_append hbefore (endsNumber_of_isBetween rfl _)

theorem SpellsMembers.endsNumber
    {members : List (String × Json)} {text : List Char} (h : SpellsMembers false members text) (rest : List Char) :
    EndsNumber (text ++ '\x7d' :: rest) := by
  cases members with
  | nil => exact endsNumber_blanks_append h (endsNumber_of_isBetween rfl rest)
  | cons member members =>
      obtain ⟨before, after, key, behind, ahead, written, more, hbefore, -, -, -, -, -, -, rfl⟩ := h
      rw [List.append_assoc]
      exact endsNumber_blanks_append hbefore (endsNumber_of_isBetween rfl _)

/-! ## Reading the parts -/

theorem readWord_append (word rest : List Char) : readWord word (word ++ rest) = .ok rest := by
  induction word with
  | nil => rfl
  | cons char word ih => rwa [List.cons_append, readWord, if_pos rfl]

section Parts

variable {before after : List Char}

theorem nextItem_end (hbefore : Blanks before) (first : Bool) (rest : List Char) :
    nextItem first (before ++ ']' :: rest) = .ok (false, ']' :: rest) := by
  rw [nextItem, skipBlanks_append hbefore]
  rfl

theorem nextItem_start
    (hbefore : Blanks before) (hafter : Blanks after) {char : Char} (hchar : StartsValue char) (first : Bool)
    (rest : List Char) :
    nextItem first (before ++ (comma first ++ (after ++ char :: rest))) = .ok (true, char :: rest) := by
  have hnot := hchar.not_isBetween
  simp only [isBetween, List.mem_cons, List.not_mem_nil, or_false, decide_eq_false_iff_not, not_or] at hnot
  have hskip : skipBlanks (after ++ char :: rest) = char :: rest := by
    rw [skipBlanks_append hafter, skipBlanks_of_startsValue hchar]
  cases first with
  | true =>
      rw [nextItem, skipBlanks_append hbefore, comma, if_pos rfl, List.nil_append, hskip]
      split
      · next h => cases h
      · next h => exact absurd (List.cons.inj h).1 hnot.2.2.2.2.2.1
      · next h => exact absurd (List.cons.inj h).1 hnot.2.2.2.2.1
      · rfl
  | false =>
      have hcomma : skipBlanks (',' :: (after ++ char :: rest)) = ',' :: (after ++ char :: rest) := rfl
      rw [nextItem, skipBlanks_append hbefore, comma, if_neg Bool.false_ne_true, List.singleton_append, hcomma]
      simp only [Bool.false_eq_true, if_false, hskip]
      split
      · next h => cases h
      · next h => exact absurd (List.cons.inj h).1 hnot.2.2.2.2.2.1
      · rfl

theorem nextKey_end (hbefore : Blanks before) (first : Bool) (rest : List Char) :
    nextKey first (before ++ '\x7d' :: rest) = .ok (false, '\x7d' :: rest) := by
  rw [nextKey, skipBlanks_append hbefore]
  rfl

theorem nextKey_start (hbefore : Blanks before) (hafter : Blanks after) (first : Bool) (rest : List Char) :
    nextKey first (before ++ (comma first ++ (after ++ '"' :: rest))) = .ok (true, rest) := by
  have hquote : skipBlanks ('"' :: rest) = '"' :: rest := rfl
  cases first with
  | true =>
      rw [nextKey, skipBlanks_append hbefore, comma, if_pos rfl, List.nil_append, skipBlanks_append hafter, hquote]
      rfl
  | false =>
      have hcomma : skipBlanks (',' :: (after ++ '"' :: rest)) = ',' :: (after ++ '"' :: rest) := rfl
      rw [nextKey, skipBlanks_append hbefore, comma, if_neg Bool.false_ne_true, List.singleton_append, hcomma]
      simp only [Bool.false_eq_true, if_false, skipBlanks_append hafter, hquote]

theorem readColon_spelled (hbefore : Blanks before) (rest : List Char) :
    readColon (before ++ ':' :: rest) = .ok rest := by
  rw [readColon, skipBlanks_append hbefore]
  rfl

end Parts

/-! ## Reading values -/

theorem readValue_digit {digit : Char} (h : digit.isDigit = true) (depth fuel : Nat) (rest : List Char) :
    readValue depth (fuel + 1) (digit :: rest) =
      (readNumber false (digit :: rest)).map fun (value, rest) => (.number value, rest) := by
  have hother {char : Char} (hchar : char.isDigit = false) {more : List Char} : digit :: rest ≠ char :: more := by
    intro hsame
    rw [(List.cons.inj hsame).1, hchar] at h
    cases h
  rw [readValue, skipBlanks_of_startsValue (Or.inr h)]
  split
  case h_9 hsame =>
    obtain ⟨rfl, rfl⟩ := List.cons.inj hsame
    rw [if_pos h]
  case h_1 hnil => cases hnil
  all_goals exact absurd ‹_› (hother rfl)

theorem readValue_number
    {number : JsonNumber} {text rest : List Char} (h : NumberSpelling number text) (hrest : EndsNumber rest)
    (depth fuel : Nat) :
    readValue depth (fuel + 1) (text ++ rest) = .ok (.number number, rest) := by
  cases h with
  | minus h hread =>
      have hskip (more : List Char) : skipBlanks ('-' :: more) = '-' :: more := rfl
      rw [List.cons_append, readValue, hskip]
      simp only [readNumber_digits h hread hrest]
      rfl
  | plain h hread =>
      have hnumber := readNumber_digits h hread hrest
      obtain ⟨digit, digits, rfl⟩ := List.exists_cons_of_ne_nil h.ne_nil
      rw [List.cons_append] at hnumber ⊢
      rw [readValue_digit (h.isDigit digit (by simp)), hnumber]
      rfl

theorem readValue_blanks
    {blanks : List Char} (h : Blanks blanks) (depth : Nat) {fuel : Nat} (hfuel : 0 < fuel) (text : List Char) :
    readValue depth fuel (blanks ++ text) = readValue depth fuel text := by
  obtain ⟨fuel, rfl⟩ : ∃ less, fuel = less + 1 := ⟨fuel - 1, by omega⟩
  rw [readValue, readValue, skipBlanks_append h]

mutual

/-- The text of a value is read as that value, up to where it ends. -/
theorem readValue_spelled
    (value : Json) {text rest : List Char} (h : Spells value text) (hrest : EndsNumber rest) {depth fuel : Nat}
    (hdepth : value.depth ≤ depth) (hfuel : 2 * text.length < fuel) :
    readValue depth fuel (text ++ rest) = .ok (value, rest) := by
  obtain ⟨fuel, rfl⟩ : ∃ less, fuel = less + 1 := ⟨fuel - 1, by omega⟩
  match value with
  | .null =>
      obtain rfl : text = nullWord := h
      have hword := readWord_append ['u', 'l', 'l'] rest
      simp only [nullWord, List.cons_append, List.nil_append] at hword ⊢
      rw [readValue, skipBlanks_of_startsValue (Or.inl (by decide))]
      simp only [hword]
      rfl
  | .bool value =>
      obtain rfl : text = boolWord value := h
      cases value with
      | true =>
          have hword := readWord_append ['r', 'u', 'e'] rest
          simp only [boolWord, if_true, List.cons_append, List.nil_append] at hword ⊢
          rw [readValue, skipBlanks_of_startsValue (Or.inl (by decide))]
          simp only [hword]
          rfl
      | false =>
          have hword := readWord_append ['a', 'l', 's', 'e'] rest
          simp only [boolWord, Bool.false_eq_true, if_false, List.cons_append, List.nil_append] at hword ⊢
          rw [readValue, skipBlanks_of_startsValue (Or.inl (by decide))]
          simp only [hword]
          rfl
  | .number value => exact readValue_number h hrest depth fuel
  | .string value =>
      obtain ⟨written, hwritten, rfl⟩ := h
      have hstring := readString_spelled hwritten rest
      rw [String.ofList_toList] at hstring
      rw [List.cons_append, List.append_assoc, List.singleton_append, readValue,
        skipBlanks_of_startsValue (Or.inl (by decide))]
      simp only [hstring]
      rfl
  | .array items =>
      obtain ⟨written, hwritten, rfl⟩ := h
      have hdeep : depthItems items + 1 ≤ depth := hdepth
      obtain ⟨depth, rfl⟩ : ∃ less, depth = less + 1 := ⟨depth - 1, by omega⟩
      simp only [List.length_cons, List.length_append, List.length_nil] at hfuel
      have hitems : readItems depth fuel [] (written ++ ']' :: rest) = .ok (.array items, rest) :=
        readItems_spelled items [] hwritten rest (by omega) (by omega)
      rw [List.cons_append, List.append_assoc, List.singleton_append, readValue,
        skipBlanks_of_startsValue (Or.inl (by decide))]
      exact hitems
  | .object members =>
      obtain ⟨written, hwritten, rfl⟩ := h
      have hdeep : depthMembers members + 1 ≤ depth := hdepth
      obtain ⟨depth, rfl⟩ : ∃ less, depth = less + 1 := ⟨depth - 1, by omega⟩
      simp only [List.length_cons, List.length_append, List.length_nil] at hfuel
      have hmembers : readMembers depth fuel [] (written ++ '\x7d' :: rest) = .ok (.object members, rest) :=
        readMembers_spelled members [] hwritten rest (by omega) (by omega)
      rw [List.cons_append, List.append_assoc, List.singleton_append, readValue,
        skipBlanks_of_startsValue (Or.inl (by decide))]
      exact hmembers

/-- The items of an array are read behind those that were read before. -/
theorem readItems_spelled
    (items read : List Json) {text : List Char} (h : SpellsItems read.isEmpty items text)
    (rest : List Char) {depth fuel : Nat} (hdepth : depthItems items ≤ depth) (hfuel : 2 * text.length + 1 < fuel) :
    readItems depth fuel read (text ++ ']' :: rest) = .ok (.array (read.reverse ++ items), rest) := by
  obtain ⟨fuel, rfl⟩ : ∃ less, fuel = less + 1 := ⟨fuel - 1, by omega⟩
  match items with
  | [] =>
      rw [readItems, nextItem_end h]
      simp
  | item :: items =>
      obtain ⟨before, after, written, more, hbefore, hafter, hwritten, hmore, rfl⟩ := h
      obtain ⟨char, tail, rfl, hchar⟩ := hwritten.exists_start
      simp only [List.length_cons, List.length_append] at hfuel
      rw [depthItems] at hdepth
      have hitem : readValue depth fuel (char :: tail ++ (more ++ ']' :: rest)) = .ok (item, more ++ ']' :: rest) :=
        readValue_spelled item hwritten (hmore.endsNumber rest) (by omega) (by rw [List.length_cons]; omega)
      have hitems : readItems depth fuel (item :: read) (more ++ ']' :: rest) =
          .ok (.array ((item :: read).reverse ++ items), rest) :=
        readItems_spelled items (item :: read) hmore rest (by omega) (by omega)
      have hnext := nextItem_start hbefore hafter hchar read.isEmpty (tail ++ (more ++ ']' :: rest))
      simp only [List.append_assoc, List.cons_append] at hnext hitem ⊢
      simp only [readItems, hnext, hitem, hitems, List.reverse_cons, List.append_assoc, List.singleton_append]

/-- The members of an object are read behind those that were read before. -/
theorem readMembers_spelled
    (members read : List (String × Json)) {text : List Char}
    (h : SpellsMembers read.isEmpty members text) (rest : List Char) {depth fuel : Nat}
    (hdepth : depthMembers members ≤ depth) (hfuel : 2 * text.length + 1 < fuel) :
    readMembers depth fuel read (text ++ '\x7d' :: rest) = .ok (.object (read.reverse ++ members), rest) := by
  obtain ⟨fuel, rfl⟩ : ∃ less, fuel = less + 1 := ⟨fuel - 1, by omega⟩
  match members with
  | [] =>
      rw [readMembers, nextKey_end h]
      simp
  | (name, value) :: members =>
      obtain ⟨before, after, key, behind, ahead, written, more, hbefore, hafter, hkey, hbehind, hahead, hwritten, hmore,
        rfl⟩ := h
      simp only [List.length_cons, List.length_append] at hfuel
      rw [depthMembers] at hdepth
      have hnext := nextKey_start hbefore hafter read.isEmpty
        (key ++ '"' :: (behind ++ ':' :: (ahead ++ (written ++ (more ++ '\x7d' :: rest)))))
      have hname := readString_spelled hkey (behind ++ ':' :: (ahead ++ (written ++ (more ++ '\x7d' :: rest))))
      have hcolon := readColon_spelled hbehind (ahead ++ (written ++ (more ++ '\x7d' :: rest)))
      have hvalue : readValue depth fuel (written ++ (more ++ '\x7d' :: rest)) = .ok (value, more ++ '\x7d' :: rest) :=
        readValue_spelled value hwritten (hmore.endsNumber rest) (by omega) (by omega)
      have hmembers : readMembers depth fuel ((name, value) :: read) (more ++ '\x7d' :: rest) =
          .ok (.object (((name, value) :: read).reverse ++ members), rest) :=
        readMembers_spelled members ((name, value) :: read) hmore rest (by omega) (by omega)
      have hfuel : 0 < fuel := by omega
      rw [String.ofList_toList] at hname
      simp only [List.append_assoc, List.cons_append] at hnext hname hcolon ⊢
      simp only [readMembers, hnext, hname, hcolon, readValue_blanks hahead depth hfuel, hvalue, hmembers,
        List.reverse_cons, List.append_assoc, List.singleton_append]

end

/-- The text of a value is read as that value, if it is not nested too deep. -/
theorem read_spelled
    {value : Json} {text before after : List Char} (h : Spells value text) (hdepth : value.depth ≤ depthLimit)
    (hbefore : Blanks before) (hafter : Blanks after) :
    read (String.ofList (before ++ (text ++ after))) = .ok value := by
  have hends : EndsNumber after := by
    rw [← List.append_nil after]
    exact endsNumber_blanks_append hafter endsNumber_nil
  have hsteps : 2 * text.length < readSteps (before ++ (text ++ after)) := by
    simp only [readSteps, List.length_append]
    omega
  have hvalue := readValue_spelled value h hends hdepth hsteps
  rw [read, String.toList_ofList, readValue_blanks hbefore _ (Nat.zero_lt_of_lt hsteps), hvalue]
  simp only [bind, Except.bind, skipBlanks_blanks hafter]
  rfl

/-! ## The way in which values are written -/

mutual

/-- All numbers in a value are as they should be. -/
def AllNumbers (holds : JsonNumber → Prop) : Json → Prop
  | .null | .bool _ | .string _ => True
  | .number value => holds value
  | .array items => AllNumbersItems holds items
  | .object members => AllNumbersMembers holds members

/-- All numbers in the items of an array are as they should be. -/
def AllNumbersItems (holds : JsonNumber → Prop) : List Json → Prop
  | [] => True
  | item :: rest => AllNumbers holds item ∧ AllNumbersItems holds rest

/-- All numbers in the members of an object are as they should be. -/
def AllNumbersMembers (holds : JsonNumber → Prop) : List (String × Json) → Prop
  | [] => True
  | (_, value) :: rest => AllNumbers holds value ∧ AllNumbersMembers holds rest

end

/-- The numbers that are integers of 64 bits. -/
def IsWord : JsonNumber → Prop
  | .natural value => value < wordLimit
  | .negative magnitude => 0 < magnitude ∧ magnitude ≤ Nat.pow 2 63
  | .decimal _ => False

theorem allNumbersItems_iff {holds : JsonNumber → Prop} {items : List Json} :
    AllNumbersItems holds items ↔ ∀ item ∈ items, AllNumbers holds item := by
  induction items with
  | nil => simp [AllNumbersItems]
  | cons item rest ih => simp [AllNumbersItems, ih]

theorem allNumbersMembers_iff {holds : JsonNumber → Prop} {members : List (String × Json)} :
    AllNumbersMembers holds members ↔ ∀ member ∈ members, AllNumbers holds member.2 := by
  induction members with
  | nil => simp [AllNumbersMembers]
  | cons member rest ih => simp [AllNumbersMembers, ih]

theorem depthItems_le_iff {items : List Json} {limit : Nat} :
    depthItems items ≤ limit ↔ ∀ item ∈ items, item.depth ≤ limit := by
  induction items with
  | nil => simp [depthItems]
  | cons item rest ih => rw [depthItems, Nat.max_le, ih, List.forall_mem_cons]

theorem depthMembers_le_iff {members : List (String × Json)} {limit : Nat} :
    depthMembers members ≤ limit ↔ ∀ member ∈ members, member.2.depth ≤ limit := by
  induction members with
  | nil => simp [depthMembers]
  | cons member rest ih => rw [depthMembers, Nat.max_le, ih, List.forall_mem_cons]

theorem spells_number {number : JsonNumber} (h : IsWord number) :
    Spells (.number number) (renderNumber number) := by
  cases number with
  | natural value => exact .natural (digits_toDigits value) h
  | negative magnitude => exact .negative (digits_toDigits magnitude) h.1 h.2
  | decimal text => exact absurd h id

/-- The items of an array as they are written behind another item. -/
def renderItemsAfter (items : List Json) : List Char :=
  items.flatMap fun item => ',' :: render item

theorem renderItems_cons (item : Json) (items : List Json) :
    renderItems (item :: items) = render item ++ renderItemsAfter items := by
  induction items generalizing item with
  | nil => simp [renderItems, renderItemsAfter]
  | cons second rest ih =>
      rw [renderItems_cons_cons, ih]
      rfl

/-- A member of an object as it is written. -/
def renderMember (member : String × Json) : List Char :=
  renderString member.1 ++ ':' :: render member.2

/-- The members of an object as they are written behind another member. -/
def renderMembersAfter (members : List (String × Json)) : List Char :=
  members.flatMap fun member => ',' :: renderMember member

theorem renderMembers_cons (member : String × Json) (members : List (String × Json)) :
    renderMembers (member :: members) = renderMember member ++ renderMembersAfter members := by
  induction members generalizing member with
  | nil => simp [renderMembers, renderMember, renderMembersAfter]
  | cons second rest ih =>
      rw [renderMembers.eq_3 _ _ _ (by simp), ih]
      simp [renderMember, renderMembersAfter]

/-- A member is written without blanks. -/
theorem spellsMembers_cons
    {value : Json} {written more : List Char} (hvalue : Spells value written) {members : List (String × Json)}
    (hmore : SpellsMembers false members more) (first : Bool) (name : String) :
    SpellsMembers first ((name, value) :: members) (comma first ++ (renderString name ++ ':' :: (written ++ more))) :=
  ⟨[], [], _, [], [], written, more, blanks_nil, blanks_nil, stringSpelling_flatMap name.toList, blanks_nil, blanks_nil,
    hvalue, hmore, by simp [renderString]⟩

mutual

/-- Values are written in one of the ways in which they are read. -/
theorem spells_render (value : Json) (h : AllNumbers IsWord value) : Spells value (render value) := by
  match value with
  | .null => exact rfl
  | .bool value => exact rfl
  | .number _ => exact spells_number h
  | .string value => exact ⟨_, stringSpelling_flatMap value.toList, rfl⟩
  | .array [] => exact ⟨[], blanks_nil, rfl⟩
  | .array (item :: items) =>
      refine ⟨_, ⟨[], [], render item, renderItemsAfter items, blanks_nil, blanks_nil, spells_render item h.1,
        spellsItems_render items h.2, rfl⟩, ?_⟩
      rw [render, renderItems_cons]
      rfl
  | .object [] => exact ⟨[], blanks_nil, rfl⟩
  | .object ((name, value) :: members) =>
      refine ⟨_, spellsMembers_cons (spells_render value h.1) (spellsMembers_render members h.2) true name, ?_⟩
      simp [render, renderMembers_cons, renderMember, comma]

theorem spellsItems_render (items : List Json) (h : AllNumbersItems IsWord items) :
    SpellsItems false items (renderItemsAfter items) := by
  match items with
  | [] => exact blanks_nil
  | item :: items =>
      exact ⟨[], [], render item, renderItemsAfter items, blanks_nil, blanks_nil, spells_render item h.1,
        spellsItems_render items h.2, rfl⟩

theorem spellsMembers_render (members : List (String × Json)) (h : AllNumbersMembers IsWord members) :
    SpellsMembers false members (renderMembersAfter members) := by
  match members with
  | [] => exact blanks_nil
  | (name, value) :: members =>
      have hmember := spellsMembers_cons (spells_render value h.1) (spellsMembers_render members h.2) false name
      simpa [renderMembersAfter, renderMember, comma] using hmember

end

/-! ## No control characters -/

/-- A text without control characters. -/
def Printed (text : List Char) : Prop :=
  ∀ char ∈ text, 0x20 ≤ char.toNat

theorem Printed.append {first second : List Char} (hfirst : Printed first) (hsecond : Printed second) :
    Printed (first ++ second) :=
  fun char hchar => (List.mem_append.mp hchar).elim (hfirst char) (hsecond char)

theorem Printed.cons {char : Char} {text : List Char} (hchar : 0x20 ≤ char.toNat) (h : Printed text) :
    Printed (char :: text) :=
  List.forall_mem_cons.mpr ⟨hchar, h⟩

theorem printed_nil : Printed [] := by simp [Printed]

theorem printed_hexDigit : ∀ digit < 16, 0x20 ≤ (Text.hexDigit digit).toNat := by decide

theorem printed_escapeChar (char : Char) : Printed (escapeChar char) := by
  unfold escapeChar
  split
  case h_8 =>
    split
    · next hcontrol =>
        have hhigh := printed_hexDigit (char.toNat / 16) (by omega)
        have hlow := printed_hexDigit (char.toNat % 16) (by omega)
        exact .cons (by decide) (.cons (by decide) (.cons (by decide) (.cons (by decide)
          (.cons hhigh (.cons hlow printed_nil)))))
    · next hprinted => exact .cons (Nat.not_lt.mp hprinted) printed_nil
  all_goals exact .cons (by decide) (.cons (by decide) printed_nil)

theorem printed_renderString (text : String) : Printed (renderString text) := by
  have htext : Printed (text.toList.flatMap escapeChar) := by
    rintro char hchar
    obtain ⟨original, -, hpiece⟩ := List.mem_flatMap.mp hchar
    exact printed_escapeChar original char hpiece
  exact .cons (by decide) (htext.append (.cons (by decide) printed_nil))

theorem printed_nullWord : Printed nullWord := by simp [Printed, nullWord]

theorem printed_boolWord (value : Bool) : Printed (boolWord value) := by cases value <;> simp [Printed, boolWord]

theorem printed_toDigits (value : Nat) : Printed (Nat.toDigits 10 value) := by
  intro digit hdigit
  have hrange : digit.isDigit = true := Nat.isDigit_of_mem_toDigits (by decide) (by decide) hdigit
  simp only [Char.isDigit, Bool.and_eq_true, decide_eq_true_eq] at hrange
  exact Nat.le_trans (by decide) (show 48 ≤ digit.toNat from hrange.1)

mutual

/-- Only a number could hold a control character. -/
theorem printed_render (value : Json) (h : AllNumbers (fun number => Printed (renderNumber number)) value) :
    Printed (render value) := by
  match value with
  | .null => exact printed_nullWord
  | .bool value => exact printed_boolWord value
  | .number _ => exact h
  | .string value => exact printed_renderString value
  | .array [] => exact .cons (by decide) (.cons (by decide) printed_nil)
  | .array (item :: items) =>
      rw [render, renderItems_cons]
      have hitems := (printed_render item h.1).append (printed_renderItemsAfter items h.2)
      exact .cons (by decide) (hitems.append (.cons (by decide) printed_nil))
  | .object [] => exact .cons (by decide) (.cons (by decide) printed_nil)
  | .object ((name, value) :: members) =>
      rw [render, renderMembers_cons]
      have hmember : Printed (renderMember (name, value)) :=
        (printed_renderString name).append (.cons (by decide) (printed_render value h.1))
      exact .cons (by decide)
        ((hmember.append (printed_renderMembersAfter members h.2)).append (.cons (by decide) printed_nil))

theorem printed_renderItemsAfter
    (items : List Json) (h : AllNumbersItems (fun number => Printed (renderNumber number)) items) :
    Printed (renderItemsAfter items) := by
  match items with
  | [] => exact printed_nil
  | item :: items =>
      exact .append (.cons (by decide) (printed_render item h.1)) (printed_renderItemsAfter items h.2)

theorem printed_renderMembersAfter
    (members : List (String × Json)) (h : AllNumbersMembers (fun number => Printed (renderNumber number)) members) :
    Printed (renderMembersAfter members) := by
  match members with
  | [] => exact printed_nil
  | (name, value) :: members =>
      have hmember : Printed (renderMember (name, value)) :=
        (printed_renderString name).append (.cons (by decide) (printed_render value h.1))
      exact .append (.cons (by decide) hmember) (printed_renderMembersAfter members h.2)

end

/-! ## Reading back -/

/-- What is written is read back. -/
theorem read_compress {value : Json} (hwords : AllNumbers IsWord value) (hdepth : value.depth ≤ depthLimit) :
    read value.compress = .ok value := by
  have hread := read_spelled (spells_render value hwords) hdepth blanks_nil blanks_nil
  rwa [List.nil_append, List.append_nil] at hread

end Json
end CompilerRelay
