import CompilerRelay.LineBuffer
import Mathlib.Tactic

/-!
# Carriage returns and lossy decoding

A carriage return at the end of a line can be taken off before or after decoding.

**Invariant.**  `Utf8.Partial.Beyond`: an unfinished character will be none of the first 128, whatever completes
it, and no byte below 0x80 continues it.

**Results.**
* `Utf8.decodeLossy_carriageReturn`: a carriage return is decoded as itself, whatever stands before it.
* `LineBuffer.dropReturnChar_decodeLossy`: both orders give one line.
* `LineBuffer.flush_fst`: what is flushed is the line that a newline would have ended.
-/

namespace CompilerRelay
namespace Utf8

theorem char_ofNat_toNat (number : Nat) :
    (Char.ofNat number).toNat = number ∨ (Char.ofNat number).toNat = 0 := by
  by_cases hvalid : number.isValidChar
  · rw [Char.ofNat, dif_pos hvalid]
    exact Or.inl rfl
  · rw [Char.ofNat, dif_neg hvalid]
    exact Or.inr rfl

/-- Only one number gives the carriage return. -/
theorem char_ofNat_ne_return
    {number : Nat}
    (hnumber : number ≠ 13) :
    Char.ofNat number ≠ '\r' := by
  intro h
  have hnat : (Char.ofNat number).toNat = 13 := by rw [h]; rfl
  rcases char_ofNat_toNat number with heq | hzero
  · omega
  · omega

namespace Partial

/-- The least number that an unfinished character can still become is beyond the first 128. -/
structure Beyond (rest : Partial) : Prop where
  least : 128 ≤ (rest.bits * 64 + (rest.low.toNat - 128)) * 64 ^ (rest.owed - 1)
  low : 128 ≤ rest.low.toNat

theorem Beyond.not_admits
    {rest : Partial} (h : rest.Beyond) {byte : UInt8}
    (hbyte : byte.toNat < 128) :
    rest.admits byte = false := by
  have hlow := h.low
  have hlt : ¬ rest.low ≤ byte := by
    rw [UInt8.le_iff_toNat_le]
    omega
  simp [admits, hlt]

end Partial

/-- What a byte leads to is not a carriage return and cannot become one. -/
def Start.Apart : Start → Prop
  | .whole char => char ≠ '\r'
  | .unfinished rest => rest.Beyond
  | .nothing => True

/-- A byte that continues an unfinished character keeps it beyond the first 128. -/
theorem Partial.Beyond.feed
    {rest : Partial} (h : rest.Beyond) {byte : UInt8}
    (hadmits : rest.admits byte = true) :
    (rest.feed byte).Apart := by
  have hbyte : rest.low.toNat ≤ byte.toNat := by
    simp only [admits, Bool.and_eq_true, decide_eq_true_eq] at hadmits
    exact UInt8.le_iff_toNat_le.mp hadmits.1
  have hleast := h.least
  have hextend : rest.bits * 64 + (rest.low.toNat - 128) ≤ rest.extend byte := by
    unfold extend
    omega
  by_cases howed : rest.owed ≤ 1
  · have hpower : rest.owed - 1 = 0 := by omega
    rw [hpower, Nat.pow_zero, Nat.mul_one] at hleast
    have hne : Char.ofNat (rest.extend byte) ≠ '\r' := char_ofNat_ne_return (by omega)
    simpa [Partial.feed, howed, Start.Apart] using hne
  · have hpower : 64 ^ (rest.owed - 1) = 64 * 64 ^ (rest.owed - 1 - 1) := by
      rw [← Nat.pow_succ']
      congr 1
      omega
    have hmore : 128 ≤ rest.extend byte * 64 * 64 ^ (rest.owed - 1 - 1) :=
      calc 128 ≤ (rest.bits * 64 + (rest.low.toNat - 128)) * 64 ^ (rest.owed - 1) := hleast
        _ ≤ rest.extend byte * 64 ^ (rest.owed - 1) := Nat.mul_le_mul_right _ hextend
        _ = rest.extend byte * 64 * 64 ^ (rest.owed - 1 - 1) := by rw [hpower, Nat.mul_assoc]
    simp only [Partial.feed, howed, if_false, Start.Apart]
    exact ⟨by simpa using hmore, le_refl 128⟩

/-- A first byte other than the carriage return leads to none. -/
theorem start_apart
    {byte : UInt8}
    (hbyte : byte ≠ LineBuffer.carriageReturn) :
    (start byte).Apart := by
  have hnumber : byte.toNat ≠ 13 := fun h => hbyte (UInt8.toNat_inj.mp h)
  unfold start
  simp only [UInt8.lt_iff_toNat_lt, ← UInt8.toNat_inj, UInt8.reduceToNat]
  split_ifs with hascii hlow htwo hE0 hED hthree hF0 hfour hF4
  · exact char_ofNat_ne_return hnumber
  · trivial
  · refine ⟨?_, le_refl 128⟩
    simp
    omega
  · exact ⟨by decide, by decide⟩
  · refine ⟨?_, le_refl 128⟩
    simp
    omega
  · refine ⟨?_, le_refl 128⟩
    simp
    omega
  · exact ⟨by decide, by decide⟩
  · refine ⟨?_, le_refl 128⟩
    simp
    omega
  · exact ⟨by decide, by decide⟩
  · trivial

namespace Decoder

/-- The unfinished character of a decoder, if there is one, is beyond the first 128. -/
def Sound (decoder : Decoder) : Prop :=
  ∀ rest, decoder.pending = some rest → rest.Beyond

theorem accept_apart
    (decoder : Decoder) {start : Start}
    (h : start.Apart) :
    (decoder.accept start).Sound ∧ (decoder.accept start).finish.getLast? ≠ some '\r' := by
  cases start with
  | whole char =>
      have hchar : char ≠ '\r' := h
      exact ⟨by simp [Sound, accept], by simpa [accept, finish] using hchar⟩
  | unfinished rest =>
      refine ⟨?_, by simp [accept, finish, replacement]⟩
      intro other hother
      obtain rfl := Option.some.inj hother
      exact h
  | nothing => exact ⟨by simp [Sound, accept], by simp [accept, finish, replacement]⟩

/-- A byte other than the carriage return adds none to what was decoded. -/
theorem step_apart
    {decoder : Decoder} (h : decoder.Sound) {byte : UInt8}
    (hbyte : byte ≠ LineBuffer.carriageReturn) :
    (decoder.step byte).Sound ∧ (decoder.step byte).finish.getLast? ≠ some '\r' := by
  cases hpending : decoder.pending with
  | none =>
      simp only [step, hpending]
      exact accept_apart decoder (start_apart hbyte)
  | some rest =>
      cases hadmits : rest.admits byte with
      | true =>
          simp only [step, hpending, hadmits, if_true]
          exact accept_apart decoder ((h rest hpending).feed hadmits)
      | false =>
          simp only [step, hpending, hadmits, Bool.false_eq_true, if_false]
          exact accept_apart _ (start_apart hbyte)

/-- A carriage return stands after whatever was decoded before it. -/
theorem step_return
    {decoder : Decoder} (h : decoder.Sound) :
    (decoder.step LineBuffer.carriageReturn).Sound ∧
    (decoder.step LineBuffer.carriageReturn).finish = decoder.finish ++ ['\r'] := by
  have hstart : start LineBuffer.carriageReturn = .whole '\r' := by decide
  cases hpending : decoder.pending with
  | none => simp [step, hpending, hstart, accept, finish, Sound]
  | some rest =>
      have hadmits : rest.admits LineBuffer.carriageReturn = false :=
        (h rest hpending).not_admits (by decide)
      simp [step, hpending, hadmits, hstart, accept, finish, Sound]

theorem foldl_sound (bytes : Bytes) :
    ∀ decoder : Decoder, decoder.Sound → (bytes.foldl step decoder).Sound := by
  induction bytes with
  | nil => exact fun _ h => h
  | cons byte bytes ih =>
      intro decoder h
      by_cases hbyte : byte = LineBuffer.carriageReturn
      · subst hbyte
        exact ih _ (step_return h).1
      · exact ih _ (step_apart h hbyte).1

theorem sound_decode (bytes : Bytes) : (bytes.foldl step {}).Sound :=
  foldl_sound bytes {} (by simp [Sound])

end Decoder

/-- A carriage return is decoded as itself, whatever stands before it. -/
theorem decodeLossy_carriageReturn (bytes : Bytes) :
    (decodeLossy (bytes ++ [LineBuffer.carriageReturn])).toList =
      (decodeLossy bytes).toList ++ ['\r'] := by
  simp [decodeLossy, List.foldl_append, (Decoder.step_return (Decoder.sound_decode bytes)).2]

/-- No other byte at the end is decoded as a carriage return. -/
theorem decodeLossy_getLast?_ne
    (bytes : Bytes) {byte : UInt8}
    (hbyte : byte ≠ LineBuffer.carriageReturn) :
    (decodeLossy (bytes ++ [byte])).toList.getLast? ≠ some '\r' := by
  simpa [decodeLossy, List.foldl_append] using
    (Decoder.step_apart (Decoder.sound_decode bytes) hbyte).2

end Utf8

namespace LineBuffer

/-- The carriage return at the end may be taken off after decoding as well as before. -/
theorem dropReturnChar_decodeLossy (run : Bytes) :
    dropReturnChar (Utf8.decodeLossy run).toList = (lineOf run).toList := by
  induction run using List.reverseRecOn with
  | nil => rfl
  | append_singleton bytes byte _ =>
      by_cases hbyte : byte = carriageReturn
      · subst hbyte
        simp [dropReturnChar, lineOf, dropReturn, Utf8.decodeLossy_carriageReturn]
      · have hlast := Utf8.decodeLossy_getLast?_ne bytes hbyte
        simp [dropReturnChar, lineOf, dropReturn, hlast, hbyte]

/-- What is flushed is the line that a newline would have ended. -/
theorem flush_fst (buffer : LineBuffer) :
    buffer.flush.1 = if buffer.pending = [] then none else some (lineOf buffer.pending) := by
  unfold flush
  split
  · rfl
  · rw [dropReturnChar_decodeLossy, String.ofList_toList]

end LineBuffer
end CompilerRelay
