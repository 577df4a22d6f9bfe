import CompilerRelay.Proofs.StrictDecoding

/-!
# Text that is decoded whole

Bytes that a text was encoded to are decoded to the text, and a character of ASCII stands for itself wherever its
byte stands.

**Form.**  What was decoded before a byte is never looked at again (`Utf8.Decoder.foldl_behind`), so it is enough to
follow the bytes of one character from a decoder that stands between characters.

**Results.**
* `Utf8.decodeLossy_encode`: decoding undoes encoding.
* `Utf8.decodeLossy_append_of_ascii`: bytes before one of ASCII are decoded on their own.
* `LineBuffer.lineOf_append`: so a line that begins with ASCII is seen behind whatever bytes stand before it.
-/

namespace CompilerRelay
namespace Utf8
namespace Decoder

/-- A decoder with more decoded before all that it decoded. -/
def behind (decoder : Decoder) (before : List Char) : Decoder :=
  { decoder with decoded := decoder.decoded ++ before }

theorem accept_behind (decoder : Decoder) (before : List Char) (start : Start) :
    (decoder.behind before).accept start = (decoder.accept start).behind before := by
  cases start <;> rfl

theorem step_behind (decoder : Decoder) (before : List Char) (byte : UInt8) :
    (decoder.behind before).step byte = (decoder.step byte).behind before := by
  cases hpending : decoder.pending with
  | none =>
      simp only [step, behind, hpending]
      exact accept_behind decoder before _
  | some rest =>
      cases hadmits : rest.admits byte with
      | true =>
          simp only [step, behind, hpending, hadmits, if_true]
          exact accept_behind decoder before _
      | false =>
          simp only [step, behind, hpending, hadmits, Bool.false_eq_true, if_false]
          exact accept_behind ⟨replacement :: decoder.decoded, none⟩ before _

/-- What was decoded before is never looked at again. -/
theorem foldl_behind (bytes : Bytes) (decoder : Decoder) (before : List Char) :
    bytes.foldl step (decoder.behind before) = (bytes.foldl step decoder).behind before := by
  induction bytes generalizing decoder with
  | nil => rfl
  | cons byte bytes ih => rw [List.foldl_cons, List.foldl_cons, step_behind, ih]

theorem finish_behind (decoder : Decoder) (before : List Char) :
    (decoder.behind before).finish = before.reverse ++ decoder.finish := by
  cases hpending : decoder.pending <;> simp [finish, behind, hpending]

/-- From between two characters, bytes are decoded as if nothing stood before them. -/
theorem finish_foldl (bytes : Bytes) (decoded : List Char) :
    (bytes.foldl step ⟨decoded, none⟩).finish = decoded.reverse ++ (decodeLossy bytes).toList := by
  have hbehind := foldl_behind bytes {} decoded
  rw [show (behind {} decoded : Decoder) = ⟨decoded, none⟩ from rfl] at hbehind
  rw [hbehind, finish_behind, decodeLossy, String.toList_ofList]

end Decoder

/-! ## ASCII -/

/-- A byte of ASCII ends what is unfinished, and stands for itself. -/
theorem Decoder.step_of_ascii
    {decoder : Decoder} (h : decoder.Sound) {byte : UInt8}
    (hascii : byte.toNat < 128) :
    decoder.step byte = ⟨Char.ofNat byte.toNat :: decoder.finish.reverse, none⟩ := by
  cases hpending : decoder.pending with
  | none => simp [step, hpending, start_of_ascii hascii, accept, finish]
  | some rest =>
      have hadmits : rest.admits byte = false := (h rest hpending).not_admits hascii
      simp [step, hpending, hadmits, start_of_ascii hascii, accept, finish]

/-- Bytes before one of ASCII are decoded on their own. -/
theorem decodeLossy_append_of_ascii
    (before : Bytes) {byte : UInt8} (hascii : byte.toNat < 128) (after : Bytes) :
    decodeLossy (before ++ byte :: after) = decodeLossy before ++ decodeLossy (byte :: after) := by
  have hstep (decoder : Decoder) (hsound : decoder.Sound) :
      ((byte :: after).foldl Decoder.step decoder).finish =
        decoder.finish ++ Char.ofNat byte.toNat :: (decodeLossy after).toList := by
    rw [List.foldl_cons, Decoder.step_of_ascii hsound hascii, Decoder.finish_foldl]
    simp
  have halone : (decodeLossy (byte :: after)).toList =
      Char.ofNat byte.toNat :: (decodeLossy after).toList := by
    rw [decodeLossy, String.toList_ofList, hstep {} (by simp [Decoder.Sound])]
    rfl
  have hboth : (decodeLossy (before ++ byte :: after)).toList =
      (decodeLossy before).toList ++ Char.ofNat byte.toNat :: (decodeLossy after).toList := by
    rw [decodeLossy, String.toList_ofList, List.foldl_append, hstep _ (Decoder.sound_decode before),
      decodeLossy.eq_def before, String.toList_ofList]
  rw [← String.toList_inj, String.toList_append, halone, hboth]

/-- Where there are bytes, something is decoded. -/
theorem decodeLossy_ne_empty
    {bytes : Bytes}
    (hbytes : bytes ≠ []) :
    decodeLossy bytes ≠ "" := by
  obtain ⟨front, last, rfl⟩ := (List.eq_nil_or_concat' bytes).resolve_left hbytes
  have haccept (decoder : Decoder) (start : Start) : (decoder.accept start).finish ≠ [] := by
    cases start <;> simp [Decoder.accept, Decoder.finish]
  have hstep (decoder : Decoder) : (decoder.step last).finish ≠ [] := by
    unfold Decoder.step
    split
    · exact haccept _ _
    · split <;> exact haccept _ _
  intro hempty
  have hlist := congrArg String.toList hempty
  rw [decodeLossy, String.toList_ofList, List.foldl_append] at hlist
  exact hstep _ hlist

/-! ## Encoded text -/

/-- Decoding undoes encoding. -/
theorem decodeLossy_encode (text : String) : decodeLossy (encode text) = text := by
  rw [decodeLossy, encode, Decoder.foldl_of_foldlM (foldlM_encode text.toList [])]
  simp [Decoder.finish]

/-- A byte of ASCII stands only for its own character. -/
theorem toNat_of_mem_utf8EncodeChar
    {char : Char} {byte : UInt8}
    (hbyte : byte ∈ String.utf8EncodeChar char) (hascii : byte.toNat < 128) :
    char.toNat = byte.toNat := by
  have hbeyond {number : Nat} (hleast : 128 ≤ number) (hmost : number < 256) :
      ¬ (UInt8.ofNat number).toNat < 128 := by
    rw [UInt8.toNat_ofNat']
    omega
  change char.val.toNat = byte.toNat
  unfold String.utf8EncodeChar at hbyte
  simp only at hbyte
  -- Every byte of a longer character is beyond ASCII.
  split_ifs at hbyte
  · obtain rfl := List.mem_singleton.mp hbyte
    rw [UInt8.toNat_ofNat']
    omega
  · simp only [List.mem_cons, List.not_mem_nil, or_false] at hbyte
    rcases hbyte with rfl | rfl
    all_goals exact absurd hascii (hbeyond (by omega) (by omega))
  · simp only [List.mem_cons, List.not_mem_nil, or_false] at hbyte
    rcases hbyte with rfl | rfl | rfl
    all_goals exact absurd hascii (hbeyond (by omega) (by omega))
  · simp only [List.mem_cons, List.not_mem_nil, or_false] at hbyte
    rcases hbyte with rfl | rfl | rfl | rfl
    all_goals exact absurd hascii (hbeyond (by omega) (by omega))

/-- A text without a newline is encoded without one. -/
theorem newline_notMem_encode
    {text : String}
    (htext : '\n' ∉ text.toList) :
    LineBuffer.newline ∉ encode text := by
  intro hmem
  obtain ⟨char, hchar, hbyte⟩ := List.mem_flatMap.mp hmem
  have hnumber : char.toNat = 10 := toNat_of_mem_utf8EncodeChar hbyte (by decide)
  obtain rfl : char = '\n' := Char.toNat_inj.mp hnumber
  exact htext hchar

end Utf8

namespace LineBuffer

theorem dropReturn_append
    (before : Bytes) {byte : UInt8} (hreturn : byte ≠ carriageReturn) (after : Bytes) :
    dropReturn (before ++ byte :: after) = before ++ dropReturn (byte :: after) := by
  cases after with
  | nil => simp [dropReturn, hreturn]
  | cons next after =>
      unfold dropReturn
      rw [List.getLast?_append_of_ne_nil _ (by simp), List.dropLast_append_of_ne_nil (by simp)]
      split <;> rfl

theorem dropReturn_cons
    {byte : UInt8} (hreturn : byte ≠ carriageReturn) (after : Bytes) :
    ∃ more, dropReturn (byte :: after) = byte :: more := by
  cases after with
  | nil => exact ⟨[], by simp [dropReturn, hreturn]⟩
  | cons next after =>
      unfold dropReturn
      split
      · exact ⟨_, List.dropLast_cons_cons⟩
      · exact ⟨_, rfl⟩

/-- A line that begins with ASCII is seen behind whatever bytes stand before it. -/
theorem lineOf_append
    (before : Bytes) {byte : UInt8} (hascii : byte.toNat < 128) (hreturn : byte ≠ carriageReturn)
    (after : Bytes) :
    lineOf (before ++ byte :: after) = Utf8.decodeLossy before ++ lineOf (byte :: after) := by
  obtain ⟨more, hmore⟩ := dropReturn_cons hreturn after
  unfold lineOf
  rw [dropReturn_append before hreturn, hmore, Utf8.decodeLossy_append_of_ascii before hascii]

/-- So bytes before it make another line of it. -/
theorem lineOf_append_ne
    {before : Bytes} (hbefore : before ≠ [])
    {byte : UInt8} (hascii : byte.toNat < 128) (hreturn : byte ≠ carriageReturn) (after : Bytes) :
    lineOf (before ++ byte :: after) ≠ lineOf (byte :: after) := by
  rw [lineOf_append before hascii hreturn]
  intro hsame
  have hlength := congrArg String.length hsame
  rw [String.length_append] at hlength
  have hempty : (Utf8.decodeLossy before).length = 0 := by omega
  exact Utf8.decodeLossy_ne_empty hbefore (String.length_eq_zero_iff.mp hempty)

/-- A text that does not end with a return is the line that it is encoded to. -/
theorem lineOf_encode
    {text : String}
    (htext : text.toList.getLast? ≠ some '\r') :
    lineOf (Utf8.encode text) = text := by
  rw [← String.toList_inj, ← dropReturnChar_decodeLossy, Utf8.decodeLossy_encode]
  exact if_neg htext

end LineBuffer
end CompilerRelay
