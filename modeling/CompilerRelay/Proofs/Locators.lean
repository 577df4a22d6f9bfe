import CompilerRelay.Path.Uri
import CompilerRelay.Proofs.TextDecoding

/-!
# Locators tell places apart

Two absolute paths have one locator exactly if they name the same place.

**Algorithm.**  The parts of a path stand behind slashes in its locator, each written byte by byte.  A slash is never
among what a part is written as, so the locator is cut at its slashes; a percent sign is never what a byte stands for
by itself, so the bytes are read off one after the other; and a text is known by its bytes.

**Results.**
* `Uri.encodeText_injective`: a text is known by what it is written as.
* `Uri.ofPath_eq_iff`: an absolute path is known by its locator, up to the way in which it is spelled.
-/

namespace CompilerRelay

theorem Text.splitOn_flatMap_cons
    {α : Type} [DecidableEq α] {separator : α} {pieces : List (List α)}
    (hopen : ∀ piece ∈ pieces, separator ∉ piece) :
    splitOn separator (pieces.flatMap (separator :: ·)) = [] :: pieces := by
  induction pieces using List.reverseRecOn with
  | nil => rfl
  | append_singleton pieces piece ih =>
      have hpiece : splitOn separator piece = [piece] := splitOn_of_notMem (hopen piece (by simp))
      have hpieces := ih fun other hother => hopen other (List.mem_append_left _ hother)
      rw [List.flatMap_append, List.flatMap_singleton, splitOn_append_cons, hpieces, hpiece]
      rfl

namespace Uri

/-! ## Bytes -/

theorem upperHexDigit_injOn : ∀ first second : Fin 16, upperHexDigit first = upperHexDigit second → first = second := by
  decide

theorem encodeByte_of_reserved {byte : UInt8} (h : isReserved byte = true) :
    encodeByte byte = ['%', upperHexDigit (byte.toNat / 16), upperHexDigit (byte.toNat % 16)] :=
  if_pos h

theorem encodeByte_of_plain {byte : UInt8} (h : isReserved byte = false) :
    encodeByte byte = [Char.ofNat byte.toNat] :=
  if_neg (by simp [h])

theorem toNat_ofNat_byte (byte : UInt8) : (Char.ofNat byte.toNat).toNat = byte.toNat := by
  have hvalid : byte.toNat.isValidChar := Or.inl (lt_trans byte.toNat_lt (by decide))
  rw [Char.ofNat, dif_pos hvalid]
  rfl

/-- A byte that stands for itself is none of the characters that do not. -/
theorem ofNat_ne_of_plain
    {byte : UInt8} (h : isReserved byte = false) {char : Char} (hchar : isReserved (UInt8.ofNat char.toNat) = true) :
    Char.ofNat byte.toNat ≠ char := by
  intro hsame
  have hbyte : byte = UInt8.ofNat char.toNat := by
    rw [← hsame, toNat_ofNat_byte, UInt8.ofNat_toNat]
  rw [hbyte, hchar] at h
  cases h

/-- A byte is read off what begins with it. -/
theorem encodeByte_append_inj
    {first second : UInt8} {left right : List Char} (h : encodeByte first ++ left = encodeByte second ++ right) :
    first = second ∧ left = right := by
  cases hfirst : isReserved first <;> cases hsecond : isReserved second
  · rw [encodeByte_of_plain hfirst, encodeByte_of_plain hsecond] at h
    obtain ⟨hchar, hrest⟩ := List.cons.inj h
    have hnumber := congrArg Char.toNat hchar
    rw [toNat_ofNat_byte, toNat_ofNat_byte] at hnumber
    exact ⟨UInt8.toNat_inj.mp hnumber, hrest⟩
  · rw [encodeByte_of_plain hfirst, encodeByte_of_reserved hsecond] at h
    exact absurd (List.cons.inj h).1 (ofNat_ne_of_plain hfirst (by decide))
  · rw [encodeByte_of_reserved hfirst, encodeByte_of_plain hsecond] at h
    exact absurd (List.cons.inj h).1.symm (ofNat_ne_of_plain hsecond (by decide))
  · rw [encodeByte_of_reserved hfirst, encodeByte_of_reserved hsecond] at h
    simp only [List.cons_append, List.nil_append, List.cons.injEq, true_and] at h
    obtain ⟨hhigh, hlow, hrest⟩ := h
    have hfirst := first.toNat_lt
    have hsecond := second.toNat_lt
    have hquotient := upperHexDigit_injOn ⟨first.toNat / 16, by omega⟩ ⟨second.toNat / 16, by omega⟩ hhigh
    have hremainder := upperHexDigit_injOn ⟨first.toNat % 16, by omega⟩ ⟨second.toNat % 16, by omega⟩ hlow
    simp only [Fin.mk.injEq] at hquotient hremainder
    exact ⟨UInt8.toNat_inj.mp (by omega), hrest⟩

theorem flatMap_encodeByte_injective : Function.Injective fun bytes : Bytes => bytes.flatMap encodeByte := by
  intro first
  induction first with
  | nil =>
      intro second h
      cases second with
      | nil => rfl
      | cons byte bytes => cases hreserved : isReserved byte <;> simp [encodeByte, hreserved] at h
  | cons byte bytes ih =>
      intro second h
      cases second with
      | nil => cases hreserved : isReserved byte <;> simp [encodeByte, hreserved] at h
      | cons other others =>
          simp only [List.flatMap_cons] at h
          obtain ⟨rfl, hrest⟩ := encodeByte_append_inj h
          rw [ih hrest]

theorem slash_notMem_encodeByte (byte : UInt8) : '/' ∉ encodeByte byte := by
  cases hreserved : isReserved byte with
  | false =>
      rw [encodeByte_of_plain hreserved, List.mem_singleton]
      exact (ofNat_ne_of_plain hreserved (by decide)).symm
  | true =>
      have hdigit : ∀ digit : Fin 16, '/' ≠ upperHexDigit digit := by decide
      have hlt := byte.toNat_lt
      rw [encodeByte_of_reserved hreserved]
      simp only [List.mem_cons, List.not_mem_nil, or_false, not_or]
      exact ⟨by decide, hdigit ⟨byte.toNat / 16, by omega⟩, hdigit ⟨byte.toNat % 16, by omega⟩⟩

/-! ## Texts -/

/-- A text as it stands in a locator. -/
def encodeText (text : List Char) : List Char :=
  (Utf8.encode (String.ofList text)).flatMap encodeByte

theorem encodeComponent_eq (component : Path.Component) : encodeComponent component = encodeText component.text := by
  simp [encodeComponent, encodeText, Utf8.encode]

theorem encodeText_injective : Function.Injective encodeText := by
  intro first second h
  exact String.ofList_injective (Utf8.encode_injective (flatMap_encodeByte_injective h))

theorem slash_notMem_encodeText (text : List Char) : '/' ∉ encodeText text := by
  simp [encodeText, slash_notMem_encodeByte]

end Uri

/-! ## Paths -/

namespace Path

/-- The parts of a path that count, after the anchor. -/
def parts (path : Path) : List (List Char) :=
  path.shape.body.filter (!isFiller ·)

theorem text_ofPart (part : List Char) : (Component.ofPart part).text = part := by
  unfold Component.ofPart
  split
  · next hparent => exact hparent.symm
  · rfl

theorem components_of_isAbsolute {path : Path} (h : path.isAbsolute = true) :
    path.components = .root :: path.parts.map Component.ofPart := by
  have hanchor : path.shape.anchor = .root := by
    unfold isAbsolute at h
    unfold shape
    cases htext : path.text.toList with
    | nil => simp [htext] at h
    | cons char rest =>
        obtain rfl : char = '/' := by simpa [htext] using h
        rw [Text.splitOn_cons, if_pos rfl]
        cases hparts : Text.splitOn '/' rest with
        | nil => exact absurd hparts (Text.splitOn_ne_nil '/' rest)
        | cons part rest => rfl
  rw [components, hanchor]
  rfl

theorem ne_nil_of_mem_parts {path : Path} {part : List Char} (h : part ∈ path.parts) : part ≠ [] := by
  have hfiller : isFiller part = false := by simpa using (List.mem_filter.mp h).2
  rintro rfl
  cases hfiller

end Path

namespace Uri

/-- The text of a locator behind the name of the scheme. -/
def encodeParts (parts : List (List Char)) : List Char :=
  if parts = [] then ['/'] else (parts.map encodeText).flatMap ('/' :: ·)

theorem ofPath_of_isAbsolute {path : Path} (h : path.isAbsolute = true) :
    ofPath path = "file://" ++ String.ofList (encodeParts path.parts) := by
  unfold ofPath
  rw [Path.components_of_isAbsolute h]
  cases hparts : path.parts with
  | nil => rfl
  | cons part rest =>
      simp [encodeParts, encodeComponent_eq, Path.text_ofPart, List.flatMap_map]

/-- What a locator is cut into at its slashes. -/
theorem splitOn_encodeParts (parts : List (List Char)) :
    Text.splitOn '/' (encodeParts parts) = [] :: if parts = [] then [[]] else parts.map encodeText := by
  unfold encodeParts
  split
  · rfl
  · refine Text.splitOn_flatMap_cons fun piece hpiece => ?_
    obtain ⟨part, -, rfl⟩ := List.mem_map.mp hpiece
    exact slash_notMem_encodeText part

theorem encodeParts_injOn
    {first second : List (List Char)} (hfirst : ∀ part ∈ first, part ≠ []) (hsecond : ∀ part ∈ second, part ≠ [])
    (h : encodeParts first = encodeParts second) :
    first = second := by
  have hcut := congrArg (Text.splitOn '/') h
  rw [splitOn_encodeParts, splitOn_encodeParts, List.cons.injEq] at hcut
  -- The locator of the root is none of a path with parts, since no part is written as nothing.
  have hsome {parts : List (List Char)} (hparts : ∀ part ∈ parts, part ≠ []) : [[]] ≠ parts.map encodeText := by
    intro hsame
    obtain ⟨part, hpart, hnone⟩ := List.mem_map.mp (hsame ▸ List.mem_singleton_self ([] : List Char))
    exact hparts part hpart (encodeText_injective hnone)
  by_cases hfirstNil : first = []
  · by_cases hsecondNil : second = []
    · rw [hfirstNil, hsecondNil]
    · rw [if_pos hfirstNil, if_neg hsecondNil] at hcut
      exact absurd hcut.2 (hsome hsecond)
  · by_cases hsecondNil : second = []
    · rw [if_neg hfirstNil, if_pos hsecondNil] at hcut
      exact absurd hcut.2.symm (hsome hfirst)
    · rw [if_neg hfirstNil, if_neg hsecondNil] at hcut
      exact encodeText_injective.list_map hcut.2

/-- An absolute path is known by its locator, up to the way in which it is spelled. -/
theorem ofPath_eq_iff
    {first second : Path} (hfirst : first.isAbsolute = true) (hsecond : second.isAbsolute = true) :
    ofPath first = ofPath second ↔ first.same second = true := by
  rw [Path.same_iff, Path.components_of_isAbsolute hfirst, Path.components_of_isAbsolute hsecond,
    ofPath_of_isAbsolute hfirst, ofPath_of_isAbsolute hsecond]
  constructor
  · intro h
    have htext := congrArg String.toList h
    simp only [String.toList_append, String.toList_ofList, List.append_cancel_left_eq] at htext
    have hparts : first.parts = second.parts :=
      encodeParts_injOn (fun _ => Path.ne_nil_of_mem_parts) (fun _ => Path.ne_nil_of_mem_parts) htext
    rw [hparts]
  · intro h
    have htexts := congrArg (List.map Path.Component.text) (List.cons.inj h).2
    simp only [List.map_map] at htexts
    have hparts : first.parts = second.parts := by
      simpa [Function.comp_def, Path.text_ofPart] using htexts
    rw [hparts]

end Uri
end CompilerRelay
