import CompilerRelay.Proofs.LossyDecoding

/-!
# Strict decoding

Which bytes are text, and which text they are.

**Form.**  `Utf8.Decoder.step?` reads one byte and stops at one that can stand there in no text.  Strict decoding succeeds
if it reads all bytes in this way and then stands between characters; lossy decoding does the same as long as it goes on.

**Invariant.**  `Utf8.Partial.After`: whatever completes an unfinished character, the bytes that were read and those that
are owed are the encoding of the character that comes of it.

**Results.**
* `Utf8.foldlM_encode`: the bytes of a text are read to their end.
* `Utf8.Decoder.After.step?`: what was decoded is encoded to the bytes that were read.
* `Utf8.decode?_eq_ok_iff`: bytes are decoded to a text exactly if the text is encoded to them.
-/

namespace CompilerRelay
namespace Utf8

namespace Decoder

/-- Read one byte that can stand there. -/
def step? (decoder : Decoder) (byte : UInt8) : Option Decoder :=
  match decoder.pending with
  | none => if start byte = .nothing then none else some (decoder.accept (start byte))
  | some rest => if rest.admits byte then some (decoder.accept (rest.feed byte)) else none

/-- Reading on is what lossy decoding does too. -/
theorem step_of_step?
    {decoder after : Decoder} {byte : UInt8} (h : decoder.step? byte = some after) :
    decoder.step byte = after := by
  cases hpending : decoder.pending with
  | none =>
      simp only [step?, hpending, Option.ite_none_left_eq_some, Option.some.injEq] at h
      simp only [step, hpending, h.2]
  | some rest =>
      simp only [step?, hpending, Option.ite_none_right_eq_some, Option.some.injEq] at h
      simp only [step, hpending, h.1, if_true, h.2]

theorem foldl_of_foldlM
    {bytes : Bytes} {decoder after : Decoder} (h : bytes.foldlM step? decoder = some after) :
    bytes.foldl step decoder = after := by
  induction bytes generalizing decoder with
  | nil => exact Option.some.inj h
  | cons byte rest ih =>
      rw [List.foldlM_cons, Option.bind_eq_bind, Option.bind_eq_some_iff] at h
      obtain ⟨between, hstep, hrest⟩ := h
      rw [List.foldl_cons, step_of_step? hstep]
      exact ih hrest

end Decoder

theorem feed_ne_nothing (rest : Partial) (byte : UInt8) : rest.feed byte ≠ .nothing := by
  unfold Partial.feed
  split <;> simp

/-- The first byte is read, and then the others. -/
theorem decodeFrom_cons_eq_ok_iff
    {index : Nat} {decoded text : List Char} {pending : Option Partial} {byte : UInt8} {bytes : Bytes} :
    decodeFrom index decoded pending (byte :: bytes) = .ok text ↔
      ∃ after, Decoder.step? ⟨decoded, pending⟩ byte = some after ∧
        decodeFrom (index + 1) after.decoded after.pending bytes = .ok text := by
  cases pending with
  | none =>
      cases hstart : start byte <;> simp [decodeFrom, Decoder.step?, hstart, Decoder.accept]
  | some rest =>
      cases hadmits : rest.admits byte with
      | false => simp [decodeFrom, Decoder.step?, hadmits]
      | true =>
          cases hfeed : rest.feed byte with
          | nothing => exact absurd hfeed (feed_ne_nothing rest byte)
          | whole | unfinished => simp [decodeFrom, Decoder.step?, hadmits, hfeed, Decoder.accept]

/-- Strict decoding reads every byte and ends between characters. -/
theorem decodeFrom_eq_ok_iff
    {index : Nat} {decoded text : List Char} {pending : Option Partial} {bytes : Bytes} :
    decodeFrom index decoded pending bytes = .ok text ↔
      bytes.foldlM Decoder.step? ⟨decoded, pending⟩ = some ⟨text.reverse, none⟩ := by
  induction bytes generalizing index decoded pending with
  | nil =>
      cases pending with
      | none =>
          simp only [decodeFrom, Except.ok.injEq, List.foldlM_nil, Option.pure_def, Option.some.injEq,
            Decoder.mk.injEq, and_true]
          exact ⟨fun h => by rw [← h, List.reverse_reverse], fun h => by rw [h, List.reverse_reverse]⟩
      | some rest => simp [decodeFrom]
  | cons byte bytes ih =>
      rw [decodeFrom_cons_eq_ok_iff, List.foldlM_cons, Option.bind_eq_bind, Option.bind_eq_some_iff]
      exact exists_congr fun after => and_congr_right fun _ => ih

/-- A byte of ASCII stands for itself. -/
theorem start_of_ascii
    {byte : UInt8}
    (hascii : byte.toNat < 128) :
    start byte = .whole (Char.ofNat byte.toNat) := by
  have hlt : byte < 0x80 := UInt8.lt_iff_toNat_lt.mpr hascii
  exact if_pos hlt

/-! ## Encoded text -/

section Encoded

variable {decoded : List Char}

/-- A byte that an unfinished character admits brings six bits. -/
theorem admits_ofNat
    {rest : Partial} {bits : Nat} (hbits : bits < 64)
    (hlow : rest.low.toNat ≤ bits + 128) (hhigh : bits + 128 ≤ rest.high.toNat) :
    rest.admits (UInt8.ofNat (bits + 128)) = true ∧
      rest.extend (UInt8.ofNat (bits + 128)) = rest.bits * 64 + bits := by
  have hbyte : (UInt8.ofNat (bits + 128)).toNat = bits + 128 := by
    rw [UInt8.toNat_ofNat']
    omega
  constructor
  · simp only [Partial.admits, UInt8.le_iff_toNat_le, hbyte, Bool.and_eq_true, decide_eq_true_eq]
    exact ⟨hlow, hhigh⟩
  · have hlower : (UInt8.ofNat (bits + 128)).toNat - 0x80 = bits := by omega
    exact congrArg (rest.bits * 64 + ·) hlower

/-- A byte that is read is followed by the others. -/
theorem foldlM_of_step?
    {decoder after : Decoder} {byte : UInt8} (h : decoder.step? byte = some after) (bytes : Bytes) :
    (byte :: bytes).foldlM Decoder.step? decoder = bytes.foldlM Decoder.step? after := by
  rw [List.foldlM_cons, h, Option.bind_eq_bind, Option.bind_some]

/-- A byte in the middle of a character. -/
theorem foldlM_middle
    {rest : Partial} {bits : Nat} {bytes : Bytes} (howed : 1 < rest.owed) (hbits : bits < 64)
    (hlow : rest.low.toNat ≤ bits + 128) (hhigh : bits + 128 ≤ rest.high.toNat) :
    (UInt8.ofNat (bits + 128) :: bytes).foldlM Decoder.step? ⟨decoded, some rest⟩ =
      bytes.foldlM Decoder.step?
        ⟨decoded, some ⟨rest.bits * 64 + bits, rest.seen + 1, rest.owed - 1, 0x80, 0xBF⟩⟩ := by
  obtain ⟨hadmits, hextend⟩ := admits_ofNat hbits hlow hhigh
  have hlater : ¬ rest.owed ≤ 1 := by omega
  refine foldlM_of_step? ?_ bytes
  simp only [Decoder.step?, hadmits, if_true, Partial.feed, hlater, if_false, Decoder.accept, hextend]

/-- The last byte of a character. -/
theorem foldlM_last
    {rest : Partial} {bits : Nat} (howed : rest.owed = 1) (hbits : bits < 64)
    (hlow : rest.low.toNat ≤ bits + 128) (hhigh : bits + 128 ≤ rest.high.toNat) :
    [UInt8.ofNat (bits + 128)].foldlM Decoder.step? ⟨decoded, some rest⟩ =
      some ⟨Char.ofNat (rest.bits * 64 + bits) :: decoded, none⟩ := by
  obtain ⟨hadmits, hextend⟩ := admits_ofNat hbits hlow hhigh
  refine foldlM_of_step? ?_ []
  simp only [Decoder.step?, hadmits, if_true, Partial.feed, howed, le_refl, Decoder.accept, hextend]

/-- The first byte of a character of several bytes. -/
theorem foldlM_first
    {byte : UInt8} {rest : Partial} {bytes : Bytes}
    (hstart : start byte = .unfinished rest) :
    (byte :: bytes).foldlM Decoder.step? ⟨decoded, none⟩ = bytes.foldlM Decoder.step? ⟨decoded, some rest⟩ :=
  foldlM_of_step? (by simp [Decoder.step?, hstart, Decoder.accept]) bytes

/-- The first byte of a character of two. -/
theorem start_two
    {bits : Nat} (hleast : 2 ≤ bits) (hmost : bits < 32) :
    start (UInt8.ofNat (bits + 192)) = .unfinished ⟨bits, 1, 1, 0x80, 0xBF⟩ := by
  interval_cases bits <;> rfl

/-- The first byte of a character of three. -/
theorem start_three
    {bits : Nat} (hbits : bits < 16) :
    start (UInt8.ofNat (bits + 224)) =
      .unfinished ⟨bits, 1, 2, if bits = 0 then 0xA0 else 0x80, if bits = 13 then 0x9F else 0xBF⟩ := by
  interval_cases bits <;> rfl

/-- The first byte of a character of four. -/
theorem start_four
    {bits : Nat} (hbits : bits < 5) :
    start (UInt8.ofNat (bits + 240)) =
      .unfinished ⟨bits, 1, 3, if bits = 0 then 0x90 else 0x80, if bits = 4 then 0x8F else 0xBF⟩ := by
  interval_cases bits <;> rfl

/-- A lower bound that is raised in one case. -/
theorem toNat_low_le
    {case : Prop} [Decidable case] {raised : UInt8} {number : Nat}
    (hcase : case → raised.toNat ≤ number) (hleast : 128 ≤ number) :
    (if case then raised else 0x80).toNat ≤ number := by
  split
  · next h => exact hcase h
  · exact hleast

/-- An upper bound that is lowered in one case. -/
theorem le_toNat_high
    {case : Prop} [Decidable case] {lowered : UInt8} {number : Nat}
    (hcase : case → number ≤ lowered.toNat) (hmost : number ≤ 191) :
    number ≤ (if case then lowered else 0xBF).toNat := by
  split
  · next h => exact hcase h
  · exact hmost

/-- The bytes of a character are decoded to it. -/
theorem foldlM_utf8EncodeChar (char : Char) :
    (String.utf8EncodeChar char).foldlM Decoder.step? ⟨decoded, none⟩ = some ⟨char :: decoded, none⟩ := by
  have hchar : Char.ofNat char.val.toNat = char := char.ofNat_toNat
  have hvalid : char.val.toNat < 55296 ∨ 57343 < char.val.toNat ∧ char.val.toNat < 1114112 := char.valid
  have hrest {bits : Nat} (hbits : bits < 64) : bits + 128 ≤ (0xBF : UInt8).toNat := by
    change bits + 128 ≤ 191
    omega
  unfold String.utf8EncodeChar
  generalize char.val.toNat = number at hchar hvalid ⊢
  simp only
  split_ifs with hone htwo hthree
  · -- A byte of ASCII.
    have hbyte : (UInt8.ofNat number).toNat = number := by
      rw [UInt8.toNat_ofNat']
      omega
    have hascii : (UInt8.ofNat number).toNat < 128 := by omega
    simp [Decoder.step?, start_of_ascii hascii, Decoder.accept, hbyte, hchar]
  · have hsum : number / 64 % 32 * 64 + number % 64 = number := by omega
    rw [foldlM_first (start_two (by omega) (by omega)),
      foldlM_last rfl (by omega) (Nat.le_add_left _ _) (hrest (by omega)), hsum, hchar]
  · have hsum : (number / 4096 % 16 * 64 + number / 64 % 64) * 64 + number % 64 = number := by omega
    -- The second byte is bounded more closely, so that nothing is encoded in two ways and no surrogate at all.
    have hlow : (if number / 4096 % 16 = 0 then 0xA0 else 0x80 : UInt8).toNat ≤ number / 64 % 64 + 128 :=
      toNat_low_le (fun hzero => by change 160 ≤ _; omega) (Nat.le_add_left _ _)
    have hhigh : number / 64 % 64 + 128 ≤ (if number / 4096 % 16 = 13 then 0x9F else 0xBF : UInt8).toNat :=
      le_toNat_high (fun hlast => by change _ ≤ 159; omega) (by omega)
    rw [foldlM_first (start_three (by omega)), foldlM_middle (by simp) (by omega) hlow hhigh,
      foldlM_last rfl (by omega) (Nat.le_add_left _ _) (hrest (by omega)), hsum, hchar]
  · have hsum : ((number / 262144 % 8 * 64 + number / 4096 % 64) * 64 + number / 64 % 64) * 64 + number % 64 =
        number := by omega
    have hlow : (if number / 262144 % 8 = 0 then 0x90 else 0x80 : UInt8).toNat ≤ number / 4096 % 64 + 128 :=
      toNat_low_le (fun hzero => by change 144 ≤ _; omega) (Nat.le_add_left _ _)
    have hhigh : number / 4096 % 64 + 128 ≤ (if number / 262144 % 8 = 4 then 0x8F else 0xBF : UInt8).toNat :=
      le_toNat_high (fun hlast => by change _ ≤ 143; omega) (by omega)
    rw [foldlM_first (start_four (by omega)), foldlM_middle (by simp) (by omega) hlow hhigh,
      foldlM_middle (by simp) (by omega) (Nat.le_add_left _ _) (hrest (by omega)),
      foldlM_last rfl (by omega) (Nat.le_add_left _ _) (hrest (by omega)), hsum, hchar]

end Encoded

/-- The bytes of a text are read to their end. -/
theorem foldlM_encode (text : List Char) (decoded : List Char) :
    (text.flatMap String.utf8EncodeChar).foldlM Decoder.step? ⟨decoded, none⟩ =
      some ⟨text.reverse ++ decoded, none⟩ := by
  induction text generalizing decoded with
  | nil => rfl
  | cons char rest ih =>
      rw [List.flatMap_cons, List.foldlM_append, foldlM_utf8EncodeChar, Option.bind_eq_bind, Option.bind_some, ih]
      simp

/-! ## Decoded text -/

/-- The bytes of the last so many groups of six bits of a number. -/
def sextets : Nat → Nat → Bytes
  | 0, _ => []
  | count + 1, number => UInt8.ofNat (number / 64 ^ count % 64 + 128) :: sextets count number

namespace Partial

/-- An unfinished character after the bytes that were read of it. -/
structure After (read : Bytes) (rest : Partial) : Prop where
  owed_pos : 0 < rest.owed
  low_le : 128 ≤ rest.low.toNat
  high_le : rest.high.toNat ≤ 191
  /-- Whatever number completes it is a character, and is encoded to the bytes that were read and those that are owed. -/
  completes : ∀ number, number / 64 ^ rest.owed = rest.bits →
    rest.low.toNat ≤ number / 64 ^ (rest.owed - 1) % 64 + 128 →
    number / 64 ^ (rest.owed - 1) % 64 + 128 ≤ rest.high.toNat →
      String.utf8EncodeChar (Char.ofNat number) = read ++ sextets rest.owed number

end Partial

section Lengths

variable {number : Nat}

theorem val_ofNat (hvalid : number.isValidChar) : (Char.ofNat number).val.toNat = number := by
  rw [Char.ofNat, dif_pos hvalid]
  rfl

theorem encode_two (hleast : 128 ≤ number) (hmost : number < 2048) :
    String.utf8EncodeChar (Char.ofNat number) = UInt8.ofNat (number / 64 + 192) :: sextets 1 number := by
  have hval : (Char.ofNat number).val.toNat = number := val_ofNat (Or.inl (by omega))
  unfold String.utf8EncodeChar
  simp only [hval]
  rw [if_neg (by omega), if_pos (by omega), Nat.mod_eq_of_lt (by omega : number / 64 < 32)]
  simp [sextets]

theorem encode_three
    (hleast : 2048 ≤ number) (hmost : number < 65536) (hvalid : number.isValidChar) :
    String.utf8EncodeChar (Char.ofNat number) = UInt8.ofNat (number / 4096 + 224) :: sextets 2 number := by
  have hval := val_ofNat hvalid
  unfold String.utf8EncodeChar
  simp only [hval]
  rw [if_neg (by omega), if_neg (by omega), if_pos (by omega), Nat.mod_eq_of_lt (by omega : number / 4096 < 16)]
  simp [sextets]

theorem encode_four (hleast : 65536 ≤ number) (hmost : number < 1114112) :
    String.utf8EncodeChar (Char.ofNat number) = UInt8.ofNat (number / 262144 + 240) :: sextets 3 number := by
  have hval : (Char.ofNat number).val.toNat = number := val_ofNat (Or.inr ⟨by omega, hmost⟩)
  unfold String.utf8EncodeChar
  simp only [hval]
  rw [if_neg (by omega), if_neg (by omega), if_neg (by omega), Nat.mod_eq_of_lt (by omega : number / 262144 < 8)]
  simp [sextets]

end Lengths

theorem ofNat_of_eq {byte : UInt8} {number : Nat} (h : byte.toNat = number) : UInt8.ofNat number = byte := by
  rw [← h, UInt8.ofNat_toNat]

/-- After the first byte of a character of two. -/
theorem after_two {byte : UInt8} {bits : Nat} (hbyte : byte.toNat = bits + 192) (hleast : 2 ≤ bits) (hmost : bits < 32) :
    Partial.After [byte] ⟨bits, 1, 1, 0x80, 0xBF⟩ := by
  refine ⟨Nat.one_pos, Nat.le_refl _, Nat.le_refl _, fun number hbits _ _ => ?_⟩
  have hnumber : number / 64 = bits := hbits
  rw [encode_two (by omega) (by omega), hnumber, ofNat_of_eq hbyte]
  rfl

/-- After the first byte of a character of three, which is encoded in no shorter way and is no surrogate. -/
theorem after_three
    {byte low high : UInt8} {bits : Nat} (hbyte : byte.toNat = bits + 224) (hmost : bits < 16)
    (hlow : 128 ≤ low.toNat) (hhigh : high.toNat ≤ 191)
    (hlong : bits = 0 → 160 ≤ low.toNat) (hplain : bits = 13 → high.toNat ≤ 159) :
    Partial.After [byte] ⟨bits, 1, 2, low, high⟩ := by
  refine ⟨Nat.two_pos, hlow, hhigh, fun number hbits hleast hgreatest => ?_⟩
  have hnumber : number / 4096 = bits := hbits
  have hleast : low.toNat ≤ number / 64 % 64 + 128 := hleast
  have hgreatest : number / 64 % 64 + 128 ≤ high.toNat := hgreatest
  rw [encode_three (by omega) (by omega) (by unfold Nat.isValidChar; omega), hnumber, ofNat_of_eq hbyte]
  rfl

/-- After the first byte of a character of four, which is encoded in no shorter way and is not too large. -/
theorem after_four
    {byte low high : UInt8} {bits : Nat} (hbyte : byte.toNat = bits + 240) (hmost : bits < 5)
    (hlow : 128 ≤ low.toNat) (hhigh : high.toNat ≤ 191)
    (hlong : bits = 0 → 144 ≤ low.toNat) (hvalid : bits = 4 → high.toNat ≤ 143) :
    Partial.After [byte] ⟨bits, 1, 3, low, high⟩ := by
  refine ⟨Nat.succ_pos 2, hlow, hhigh, fun number hbits hleast hgreatest => ?_⟩
  have hnumber : number / 262144 = bits := hbits
  have hleast : low.toNat ≤ number / 4096 % 64 + 128 := hleast
  have hgreatest : number / 4096 % 64 + 128 ≤ high.toNat := hgreatest
  rw [encode_four (by omega) (by omega), hnumber, ofNat_of_eq hbyte]
  rfl

/-- A first byte leads to an unfinished character after it. -/
theorem after_start
    {byte : UInt8} {rest : Partial} (h : start byte = .unfinished rest) :
    rest.After [byte] := by
  unfold start at h
  simp only [UInt8.lt_iff_toNat_lt, ← UInt8.toNat_inj, UInt8.reduceToNat] at h
  rcases ite_eq_iff.mp h with ⟨-, h⟩ | ⟨-, h⟩
  · cases h
  rcases ite_eq_iff.mp h with ⟨-, h⟩ | ⟨hbeyond, h⟩
  · cases h
  rcases ite_eq_iff.mp h with ⟨htwo, h⟩ | ⟨hbeyond, h⟩
  · obtain rfl := Start.unfinished.inj h
    exact after_two (by omega) (by omega) (by omega)
  rcases ite_eq_iff.mp h with ⟨hE0, h⟩ | ⟨hE0, h⟩
  · obtain rfl := Start.unfinished.inj h
    exact after_three hE0 (by decide) (by decide) (by decide) (by decide) (by decide)
  rcases ite_eq_iff.mp h with ⟨hED, h⟩ | ⟨hED, h⟩
  · obtain rfl := Start.unfinished.inj h
    exact after_three (by omega) (by omega) (by decide) (by decide) (by omega) (fun _ => by decide)
  rcases ite_eq_iff.mp h with ⟨hthree, h⟩ | ⟨hbeyond, h⟩
  · obtain rfl := Start.unfinished.inj h
    exact after_three (by omega) (by omega) (by decide) (by decide) (by omega) (by omega)
  rcases ite_eq_iff.mp h with ⟨hF0, h⟩ | ⟨hF0, h⟩
  · obtain rfl := Start.unfinished.inj h
    exact after_four hF0 (by decide) (by decide) (by decide) (by decide) (by decide)
  rcases ite_eq_iff.mp h with ⟨hfour, h⟩ | ⟨hbeyond, h⟩
  · obtain rfl := Start.unfinished.inj h
    exact after_four (by omega) (by omega) (by decide) (by decide) (by omega) (by omega)
  rcases ite_eq_iff.mp h with ⟨hF4, h⟩ | ⟨-, h⟩
  · obtain rfl := Start.unfinished.inj h
    exact after_four hF4 (by decide) (by decide) (by decide) (by decide) (by decide)
  · cases h

/-- What bytes lead to is what they encode. -/
def Start.After (read : Bytes) : Start → Prop
  | .whole char => String.utf8EncodeChar char = read
  | .unfinished rest => rest.After read
  | .nothing => True

theorem start_after (byte : UInt8) : (start byte).After [byte] := by
  cases hstart : start byte with
  | whole char =>
      have hascii : byte.toNat < 128 := by
        unfold start at hstart
        rcases ite_eq_iff.mp hstart with ⟨hlt, -⟩ | ⟨-, hbeyond⟩
        · exact UInt8.lt_iff_toNat_lt.mp hlt
        -- What begins further on is nothing, or unfinished.
        iterate 8
          rcases ite_eq_iff.mp hbeyond with ⟨-, hother⟩ | ⟨-, hbeyond⟩
          · cases hother
        cases hbeyond
      rw [start_of_ascii hascii] at hstart
      have hval : char.val.toNat = byte.toNat := by
        rw [← Start.whole.inj hstart]
        exact val_ofNat (Or.inl (by omega))
      change String.utf8EncodeChar char = [byte]
      unfold String.utf8EncodeChar
      simp only [hval]
      rw [if_pos (by omega), UInt8.ofNat_toNat]
  | unfinished rest => exact after_start hstart
  | nothing => trivial

/-- A byte that is admitted was owed. -/
theorem Partial.After.feed
    {read : Bytes} {rest : Partial} (h : rest.After read) {byte : UInt8} (hadmits : rest.admits byte = true) :
    (rest.feed byte).After (read ++ [byte]) := by
  obtain ⟨hpos, hlow, hhigh, hcompletes⟩ := h
  simp only [admits, Bool.and_eq_true, decide_eq_true_eq, UInt8.le_iff_toNat_le] at hadmits
  obtain ⟨hleast, hmost⟩ := hadmits
  have hbyte : UInt8.ofNat (byte.toNat - 128 + 128) = byte := by
    rw [Nat.sub_add_cancel (by omega), UInt8.ofNat_toNat]
  have hextend : rest.extend byte = rest.bits * 64 + (byte.toNat - 128) := rfl
  unfold Partial.feed
  split
  · next howed =>
      have hlast : rest.owed = 1 := by omega
      have hnumber := hcompletes (rest.extend byte)
      simp only [hlast, sextets, hextend, Nat.sub_self, Nat.pow_zero, Nat.pow_one, Nat.div_one] at hnumber
      have hbits : (rest.bits * 64 + (byte.toNat - 128)) % 64 = byte.toNat - 128 := by omega
      rw [hbits, hbyte] at hnumber
      exact hnumber (by omega) (by omega) (by omega)
  · next howed =>
      refine ⟨by simp only; omega, by simp, by simp, ?_⟩
      intro number hnumber _ _
      simp only [hextend] at hnumber ⊢
      obtain ⟨owed, howed⟩ : ∃ owed, rest.owed = owed + 1 := ⟨rest.owed - 1, by omega⟩
      have hwhole := hcompletes number
      simp only [howed, Nat.add_sub_cancel, sextets] at hwhole hnumber ⊢
      have hbits : number / 64 ^ owed % 64 = byte.toNat - 128 := by omega
      have hfront : number / 64 ^ (owed + 1) = rest.bits := by
        rw [Nat.pow_succ, ← Nat.div_div_eq_div_mul, hnumber]
        omega
      rw [hbits, hbyte] at hwhole
      rw [hwhole hfront (by omega) (by omega), List.append_assoc]
      rfl

namespace Decoder

/-- What was decoded and what is unfinished are what these bytes encode. -/
def After (bytes : Bytes) (decoder : Decoder) : Prop :=
  ∃ read, bytes = decoder.decoded.reverse.flatMap String.utf8EncodeChar ++ read ∧
    match decoder.pending with
    | none => read = []
    | some rest => rest.After read

theorem after_accept
    {decoded : List Char} {pending : Option Partial} {read : Bytes} {start : Start} (h : start.After read)
    (hstart : start ≠ .nothing) :
    (accept ⟨decoded, pending⟩ start).After (decoded.reverse.flatMap String.utf8EncodeChar ++ read) := by
  cases start with
  | whole char =>
      have hchar : String.utf8EncodeChar char = read := h
      exact ⟨[], by simp [accept, hchar], rfl⟩
  | unfinished rest => exact ⟨read, rfl, h⟩
  | nothing => exact absurd rfl hstart

/-- A byte that is read is encoded with the others. -/
theorem After.step?
    {bytes : Bytes} {decoder after : Decoder} (h : decoder.After bytes) {byte : UInt8}
    (hstep : decoder.step? byte = some after) :
    after.After (bytes ++ [byte]) := by
  obtain ⟨decoded, pending⟩ := decoder
  obtain ⟨read, rfl, hread⟩ := h
  cases pending with
  | none =>
      simp only [Decoder.step?, Option.ite_none_left_eq_some, Option.some.injEq] at hstep
      obtain ⟨hstart, rfl⟩ := hstep
      obtain rfl : read = [] := hread
      rw [List.append_nil]
      exact after_accept (start_after byte) hstart
  | some rest =>
      simp only [Decoder.step?, Option.ite_none_right_eq_some, Option.some.injEq] at hstep
      obtain ⟨hadmits, rfl⟩ := hstep
      have hrest : rest.After read := hread
      rw [List.append_assoc]
      exact after_accept (hrest.feed hadmits) (feed_ne_nothing rest byte)

theorem After.foldlM
    {before bytes : Bytes} {decoder after : Decoder} (h : decoder.After before)
    (hread : bytes.foldlM Decoder.step? decoder = some after) :
    after.After (before ++ bytes) := by
  induction bytes generalizing before decoder with
  | nil =>
      obtain rfl := Option.some.inj hread
      rwa [List.append_nil]
  | cons byte rest ih =>
      rw [List.foldlM_cons, Option.bind_eq_bind, Option.bind_eq_some_iff] at hread
      obtain ⟨between, hstep, hrest⟩ := hread
      have hwhole := ih (h.step? hstep) hrest
      rwa [List.append_assoc, List.singleton_append] at hwhole

end Decoder

/-- Bytes are decoded to a text exactly if the text is encoded to them. -/
theorem decode?_eq_ok_iff {bytes : Bytes} {text : String} :
    decode? bytes = .ok text ↔ encode text = bytes := by
  have hchars : decode? bytes = .ok text ↔ decodeFrom 0 [] none bytes = .ok text.toList := by
    unfold decode?
    cases decodeFrom 0 [] none bytes with
    | error fault => simp [Except.map]
    | ok chars => simp [Except.map, ← String.toList_inj]
  rw [hchars, decodeFrom_eq_ok_iff]
  constructor
  · intro h
    have hstart : Decoder.After [] ⟨[], none⟩ := ⟨[], rfl, rfl⟩
    obtain ⟨read, hbytes, hread⟩ := hstart.foldlM h
    obtain rfl : read = [] := hread
    simpa [encode] using hbytes.symm
  · rintro rfl
    simpa [encode] using foldlM_encode text.toList []

theorem encode_injective : Function.Injective encode := by
  intro first second h
  have hfirst : decode? (encode second) = .ok first := decode?_eq_ok_iff.mpr h
  exact Except.ok.inj (hfirst.symm.trans (decode?_eq_ok_iff.mpr rfl))

/-- Bytes that are not decoded are the encoding of no text. -/
theorem decode?_eq_error_iff {bytes : Bytes} :
    (∃ fault, decode? bytes = .error fault) ↔ ∀ text, encode text ≠ bytes := by
  constructor
  · rintro ⟨fault, hfault⟩ text htext
    rw [decode?_eq_ok_iff.mpr htext] at hfault
    cases hfault
  · intro hnone
    cases hdecode : decode? bytes with
    | error fault => exact ⟨fault, rfl⟩
    | ok text => exact absurd (decode?_eq_ok_iff.mp hdecode) (hnone text)

end Utf8
end CompilerRelay
