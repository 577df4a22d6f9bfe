import CompilerRelay.Proofs.TokenSpelling

/-!
# Progress of the reader

Whatever the reader of JSON takes is in front of what it leaves, so that its steps are never too few.

**Results.**
* `length_readString_lt`, `length_readNumber_lt`: a string and a number take at least one character.
* `length_read_lt`: so does a value.
* `read_steps`: more steps than are needed do not change what is read.
-/

namespace CompilerRelay
namespace Json

variable {text rest : List Char}

/-! ## Words -/

theorem length_readWord_le {word : List Char} (h : readWord word text = .ok rest) : rest.length ≤ text.length := by
  induction word generalizing text with
  | nil =>
      obtain rfl := Except.ok.inj h
      exact Nat.le_refl _
  | cons expected word ih =>
      cases text with
      | nil => cases h
      | cons char text =>
          rw [readWord] at h
          split at h
          · exact Nat.le_succ_of_le (ih h)
          · cases h

theorem length_readUnit_le {unit : Nat} (h : readUnit text = .ok (unit, rest)) : rest.length ≤ text.length := by
  unfold readUnit at h
  split at h
  · cases h
  · split at h
    · obtain ⟨-, rfl⟩ := Prod.mk.inj (Except.ok.inj h)
      exact (List.drop_suffix 4 text).length_le
    · cases h

theorem length_readLowSurrogate_le
    {high : Nat} {char : Char} (h : readLowSurrogate high text = .ok (char, rest)) :
    rest.length ≤ text.length := by
  unfold readLowSurrogate at h
  split at h
  · cases h
  · cases h
  · next more =>
      cases hunit : readUnit more with
      | error fault => simp [hunit, bind, Except.bind] at h
      | ok read =>
          obtain ⟨low, left⟩ := read
          have hle := length_readUnit_le hunit
          simp only [hunit, bind, Except.bind] at h
          split at h
          · cases h
          · obtain ⟨-, rfl⟩ := Prod.mk.inj (Except.ok.inj h)
            simp only [List.length_cons]
            omega
  · cases h
  · cases h

theorem length_readCode_le {char : Char} (h : readCode text = .ok (char, rest)) : rest.length ≤ text.length := by
  unfold readCode at h
  cases hunit : readUnit text with
  | error fault => simp [hunit, bind, Except.bind] at h
  | ok read =>
      obtain ⟨unit, left⟩ := read
      have hle := length_readUnit_le hunit
      simp only [hunit, bind, Except.bind] at h
      split at h
      · cases h
      · split at h
        · exact Nat.le_trans (length_readLowSurrogate_le h) hle
        · obtain ⟨-, rfl⟩ := Prod.mk.inj (Except.ok.inj h)
          exact hle

theorem length_readEscape_le {char : Char} (h : readEscape text = .ok (char, rest)) : rest.length ≤ text.length := by
  unfold readEscape at h
  split at h
  case h_10 => exact Nat.le_succ_of_le (length_readCode_le h)
  case h_1 => cases h
  case h_11 => cases h
  all_goals
    obtain ⟨-, rfl⟩ := Prod.mk.inj (Except.ok.inj h)
    exact Nat.le_succ _

theorem length_readStringGo_lt
    {fuel : Nat} {read : List Char} {string : String} (h : readString.go fuel read text = .ok (string, rest)) :
    rest.length < text.length := by
  fun_induction readString.go fuel read text with
  | case1 => cases h
  | case2 => cases h
  | case3 =>
      obtain ⟨-, rfl⟩ := Prod.mk.inj (Except.ok.inj h)
      exact Nat.lt_succ_self _
  | case4 _ _ _ _ _ hescape ih =>
      have hle := length_readEscape_le hescape
      have hlt := ih h
      rw [List.length_cons]
      omega
  | case5 => cases h
  | case6 => cases h
  | case7 _ _ _ _ _ _ _ ih => exact Nat.lt_succ_of_lt (ih h)

theorem length_readString_lt {string : String} (h : readString text = .ok (string, rest)) :
    rest.length < text.length :=
  length_readStringGo_lt h

/-! ## Numbers -/

theorem length_dropWhile_le (holds : Char → Bool) (text : List Char) : (text.dropWhile holds).length ≤ text.length :=
  (List.dropWhile_suffix holds).length_le

variable {negative : Bool} {significand : Nat} {number : JsonNumber}

theorem length_scaled {exponent : Int} (h : scaled negative significand exponent text = .ok (number, rest)) :
    rest.length = text.length := by
  unfold scaled at h
  split at h
  · obtain ⟨-, rfl⟩ := Prod.mk.inj (Except.ok.inj h)
    rfl
  · cases h

theorem length_readExponentDigits_le
    {down : Bool} {start : Int} {sum : Nat}
    (h : readExponentDigits negative down significand start sum text = .ok (number, rest)) :
    rest.length ≤ text.length := by
  fun_induction readExponentDigits negative down significand start sum text with
  | case1 => exact Nat.le_of_eq (length_scaled h)
  | case2 _ _ _ _ _ ih => exact Nat.le_succ_of_le (ih h)
  | case3 => cases h
  | case4 =>
      obtain ⟨-, rfl⟩ := Prod.mk.inj (Except.ok.inj h)
      exact Nat.le_succ_of_le (length_dropWhile_le _ _)
  | case5 => exact Nat.le_of_eq (length_scaled h)

theorem length_readExponent_le
    {start : Int} (h : readExponent negative significand start text = .ok (number, rest)) :
    rest.length ≤ text.length := by
  unfold readExponent at h
  split at h
  next down digits hsign =>
    -- The sign, if there is one, is one character more.
    have hdigits : digits.length ≤ text.length := by
      split at hsign
      · obtain ⟨rfl, rfl⟩ := Prod.mk.inj hsign
        exact Nat.le_succ _
      · obtain ⟨rfl, rfl⟩ := Prod.mk.inj hsign
        exact Nat.le_succ _
      · obtain ⟨rfl, rfl⟩ := Prod.mk.inj hsign
        exact Nat.le_refl _
    refine Nat.le_trans ?_ hdigits
    split at h
    · cases h
    · split at h
      · exact Nat.le_succ_of_le (length_readExponentDigits_le h)
      · cases h

theorem length_readScale_le
    {exponent : Int} (h : readScale negative significand exponent text = .ok (number, rest)) :
    rest.length ≤ text.length := by
  unfold readScale at h
  split at h
  · exact Nat.le_succ_of_le (length_readExponent_le h)
  · exact Nat.le_succ_of_le (length_readExponent_le h)
  · exact Nat.le_of_eq (length_scaled h)

theorem length_readFraction_le
    {start : Int} (h : readFraction negative significand start text = .ok (number, rest)) :
    rest.length ≤ text.length := by
  have hsuffix := (gatherDigits_isSuffix text significand 0).length_le
  unfold readFraction at h
  cases hcut : gatherDigits significand 0 text with
  | mk longer more =>
      obtain ⟨count, left⟩ := more
      rw [hcut] at hsuffix
      simp only [hcut] at h
      split at h
      · split at h
        · exact Nat.le_trans (length_readScale_le h) (Nat.le_trans (length_dropWhile_le _ _) hsuffix)
        · split at h
          · cases h
          · exact Nat.le_trans (length_readScale_le h) hsuffix
      · split at h
        · cases h
        · exact Nat.le_trans (length_readScale_le h) (Nat.zero_le _)

theorem length_readAfterInteger_le (h : readAfterInteger negative significand text = .ok (number, rest)) :
    rest.length ≤ text.length := by
  unfold readAfterInteger at h
  split at h
  · exact Nat.le_succ_of_le (length_readFraction_le h)
  · exact Nat.le_succ_of_le (length_readExponent_le h)
  · exact Nat.le_succ_of_le (length_readExponent_le h)
  · obtain ⟨-, rfl⟩ := Prod.mk.inj (Except.ok.inj h)
    exact Nat.le_refl _

theorem length_readLongInteger_le (h : readLongInteger negative significand text = .ok (number, rest)) :
    rest.length ≤ text.length := by
  have hdrop := length_dropWhile_le Char.isDigit text
  unfold readLongInteger at h
  simp only at h
  split at h
  · next hpoint =>
      rw [hpoint] at hdrop
      exact Nat.le_trans (length_readFraction_le h) (Nat.le_trans (Nat.le_succ _) hdrop)
  · exact Nat.le_trans (length_readScale_le h) hdrop

theorem length_readMagnitude_lt (h : readMagnitude negative text = .ok (number, rest)) :
    rest.length < text.length := by
  unfold readMagnitude at h
  split at h
  · cases h
  · split at h
    · split at h
      · cases h
      · exact Nat.lt_succ_of_le (length_readAfterInteger_le h)
    · exact Nat.lt_succ_of_le (length_readAfterInteger_le h)
  · next digit more _ =>
      have hsuffix := (gatherDigits_isSuffix more (digitValue digit) 1).length_le
      split at h
      · cases h
      · cases hcut : gatherDigits (digitValue digit) 1 more with
        | mk longer parts =>
            obtain ⟨count, left⟩ := parts
            rw [hcut] at hsuffix
            simp only [hcut] at h
            refine Nat.lt_succ_of_le (Nat.le_trans ?_ hsuffix)
            split at h
            · split at h
              · exact length_readLongInteger_le h
              · exact length_readAfterInteger_le h
            · exact length_readAfterInteger_le h

theorem length_readNumber_lt (h : readNumber negative text = .ok (number, rest)) : rest.length < text.length := by
  unfold readNumber at h
  split at h
  · next hread =>
      obtain rfl := Except.ok.inj h
      exact length_readMagnitude_lt hread
  · cases h

/-! ## Arrays and objects -/

theorem length_nextItem_le {first more : Bool} (h : nextItem first text = .ok (more, rest)) :
    rest.length ≤ text.length := by
  have hskip := length_skipBlanks_le text
  unfold nextItem at h
  split at h
  · cases h
  · next hend =>
      obtain ⟨-, rfl⟩ := Prod.mk.inj (Except.ok.inj h)
      rwa [hend] at hskip
  · next after hcomma =>
      rw [hcomma] at hskip
      split at h
      · obtain ⟨-, rfl⟩ := Prod.mk.inj (Except.ok.inj h)
        exact hskip
      · have hmore := length_skipBlanks_le after
        split at h
        · cases h
        · cases h
        · obtain ⟨-, rfl⟩ := Prod.mk.inj (Except.ok.inj h)
          exact Nat.le_trans hmore (Nat.le_trans (Nat.le_succ _) hskip)
  · split at h
    · obtain ⟨-, rfl⟩ := Prod.mk.inj (Except.ok.inj h)
      exact hskip
    · cases h

theorem length_nextKey_le {first more : Bool} (h : nextKey first text = .ok (more, rest)) :
    rest.length ≤ text.length := by
  have hskip := length_skipBlanks_le text
  unfold nextKey at h
  split at h
  · cases h
  · next hend =>
      obtain ⟨-, rfl⟩ := Prod.mk.inj (Except.ok.inj h)
      rwa [hend] at hskip
  · next hquote =>
      rw [hquote] at hskip
      split at h
      · obtain ⟨-, rfl⟩ := Prod.mk.inj (Except.ok.inj h)
        exact Nat.le_trans (Nat.le_succ _) hskip
      · cases h
  · next after hcomma =>
      rw [hcomma] at hskip
      split at h
      · cases h
      · have hmore := length_skipBlanks_le after
        split at h
        · cases h
        · next hquote =>
            obtain ⟨-, rfl⟩ := Prod.mk.inj (Except.ok.inj h)
            rw [hquote] at hmore
            simp only [List.length_cons] at hmore hskip
            omega
        · cases h
        · cases h
  · cases h

theorem length_readColon_lt (h : readColon text = .ok rest) : rest.length < text.length := by
  have hskip := length_skipBlanks_le text
  unfold readColon at h
  split at h
  · next hcolon =>
      obtain rfl := Except.ok.inj h
      rw [hcolon] at hskip
      exact hskip
  · cases h
  · cases h

/-! ## Values -/

/-- What is left of a value, of items and of members is part of the text. -/
theorem length_read_lt (fuel : Nat) :
    (∀ {depth text value rest}, readValue depth fuel text = .ok (value, rest) → rest.length < text.length) ∧
    (∀ {depth items text value rest}, readItems depth fuel items text = .ok (value, rest) →
      rest.length ≤ text.length) ∧
    ∀ {depth members text value rest}, readMembers depth fuel members text = .ok (value, rest) →
      rest.length ≤ text.length := by
  induction fuel with
  | zero =>
      refine ⟨fun h => ?_, fun h => ?_, fun h => ?_⟩
      · simp [readValue, faultBefore] at h
      · simp [readItems, faultBefore] at h
      · simp [readMembers, faultBefore] at h
  | succ fuel ih =>
      obtain ⟨hvalue, hitems, hmembers⟩ := ih
      refine ⟨fun {depth text value rest} h => ?_, fun {depth items text value rest} h => ?_,
        fun {depth members text value rest} h => ?_⟩
      · have hskip := length_skipBlanks_le text
        have hmap {α : Type} {make : α → Json} {read : Read α} {bound : Nat}
            (hle : ∀ {part rest}, read = .ok (part, rest) → rest.length ≤ bound)
            (h : (read.map fun (part, rest) => (make part, rest)) = .ok (value, rest)) :
            rest.length ≤ bound := by
          cases read with
          | error fault => cases h
          | ok read =>
              obtain ⟨-, rfl⟩ := Prod.mk.inj (Except.ok.inj h)
              exact hle rfl
        have hword {word text : List Char} {make : Json}
            (h : ((readWord word text).map (make, ·)) = .ok (value, rest)) : rest.length ≤ text.length := by
          cases hread : readWord word text with
          | error fault => simp [hread, Except.map] at h
          | ok left =>
              simp only [hread, Except.map] at h
              obtain ⟨-, rfl⟩ := Prod.mk.inj (Except.ok.inj h)
              exact length_readWord_le hread
        have hafter {char : Char} {more : List Char} (htext : skipBlanks text = char :: more)
            (hle : rest.length ≤ more.length) : rest.length < text.length := by
          rw [htext] at hskip
          exact Nat.lt_of_lt_of_le (Nat.lt_succ_of_le hle) hskip
        unfold readValue at h
        split at h
        · cases h
        · next htext => exact hafter htext (hword h)
        · next htext => exact hafter htext (hword h)
        · next htext => exact hafter htext (hword h)
        · next htext => exact hafter htext (hmap (fun hread => (length_readString_lt hread).le) h)
        · next htext => exact hafter htext (hmap (fun hread => (length_readNumber_lt hread).le) h)
        · next htext =>
            refine hafter htext ?_
            split at h
            · cases h
            · exact hitems h
        · next htext =>
            refine hafter htext ?_
            split at h
            · cases h
            · exact hmembers h
        · next htext =>
            refine hafter htext ?_
            split at h
            · refine hmap (fun hread => ?_) h
              have hlt := length_readNumber_lt hread
              exact Nat.le_of_lt_succ hlt
            · cases h
      · rw [readItems] at h
        split at h
        · cases h
        · next hnext =>
            obtain ⟨-, rfl⟩ := Prod.mk.inj (Except.ok.inj h)
            exact Nat.le_trans (List.drop_suffix 1 _).length_le (length_nextItem_le hnext)
        · next hnext =>
            split at h
            · cases h
            · next hread =>
                exact Nat.le_trans (hitems h) (Nat.le_trans (hvalue hread).le (length_nextItem_le hnext))
      · rw [readMembers] at h
        split at h
        · cases h
        · next hnext =>
            obtain ⟨-, rfl⟩ := Prod.mk.inj (Except.ok.inj h)
            exact Nat.le_trans (List.drop_suffix 1 _).length_le (length_nextKey_le hnext)
        · next hnext =>
            have hkey := length_nextKey_le hnext
            split at h
            · cases h
            · next hname =>
                have hstring := length_readString_lt hname
                split at h
                · cases h
                · next hcolon =>
                    have hafter := length_readColon_lt hcolon
                    split at h
                    · cases h
                    · next hread =>
                        have hrest := hmembers h
                        have hvalue := hvalue hread
                        omega

/-! ## Steps -/

/-- More steps than the text is long do not change what is read. -/
theorem read_steps (fuel : Nat) :
    (∀ {depth text more}, 2 * text.length < fuel → fuel ≤ more →
      readValue depth fuel text = readValue depth more text) ∧
    (∀ {depth items text more}, 2 * text.length + 1 < fuel → fuel ≤ more →
      readItems depth fuel items text = readItems depth more items text) ∧
    ∀ {depth members text more}, 2 * text.length + 1 < fuel → fuel ≤ more →
      readMembers depth fuel members text = readMembers depth more members text := by
  induction fuel with
  | zero => exact ⟨fun h => absurd h (Nat.not_lt_zero _), fun h => absurd h (Nat.not_lt_zero _),
      fun h => absurd h (Nat.not_lt_zero _)⟩
  | succ fuel ih =>
      obtain ⟨hvalue, hitems, hmembers⟩ := ih
      refine ⟨fun {depth text more} hlong hmore => ?_, fun {depth items text more} hlong hmore => ?_,
        fun {depth members text more} hlong hmore => ?_⟩
      all_goals obtain ⟨more, rfl⟩ : ∃ less, more = less + 1 := ⟨more - 1, by omega⟩
      · have hskip := length_skipBlanks_le text
        rw [readValue, readValue]
        split
        case h_7 htext =>
          rw [htext, List.length_cons] at hskip
          cases depth with
          | zero => rfl
          | succ depth => exact hitems (by omega) (by omega)
        case h_8 htext =>
          rw [htext, List.length_cons] at hskip
          cases depth with
          | zero => rfl
          | succ depth => exact hmembers (by omega) (by omega)
        all_goals rfl
      · rw [readItems, readItems]
        cases hnext : nextItem items.isEmpty text with
        | error fault => rfl
        | ok next =>
            obtain ⟨another, left⟩ := next
            have hleft := length_nextItem_le hnext
            cases another with
            | false => rfl
            | true =>
                have hsame : readValue depth fuel left = readValue depth more left := hvalue (by omega) (by omega)
                simp only [← hsame]
                cases hread : readValue depth fuel left with
                | error fault => rfl
                | ok read =>
                    have hlt := (length_read_lt fuel).1 hread
                    exact hitems (by omega) (by omega)
      · rw [readMembers, readMembers]
        cases hnext : nextKey members.isEmpty text with
        | error fault => rfl
        | ok next =>
            obtain ⟨another, left⟩ := next
            have hleft := length_nextKey_le hnext
            cases another with
            | false => rfl
            | true =>
                simp only
                split
                · rfl
                · next hname =>
                    have hstring := length_readString_lt hname
                    split
                    · rfl
                    · next behind hcolon =>
                        have hafter := length_readColon_lt hcolon
                        have hsame : readValue depth fuel behind = readValue depth more behind :=
                          hvalue (by omega) (by omega)
                        simp only [← hsame]
                        split
                        · rfl
                        · next hread =>
                            have hlt := (length_read_lt fuel).1 hread
                            exact hmembers (by omega) (by omega)

end Json
end CompilerRelay
