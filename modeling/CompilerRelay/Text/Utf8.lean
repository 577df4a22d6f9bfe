/-!
# UTF-8

Text leaves the program as bytes and comes back as bytes, and not every byte string that comes back is
text.  This module holds both directions.

**Input.**  A string to encode, or a list of bytes to decode.

**Algorithm.**  Decoding reads one byte at a time.  Between two bytes the decoder either stands between
characters, or is inside one: it then knows the bits read so far, how many bytes are owed, and the interval
in which the next byte has to lie.  A byte outside that interval ends the unfinished character and is read
again as a first byte.

* `decodeLossy` puts one replacement character for each maximal unfinished character and for each byte
  that starts none.
* `decode?` refuses instead, and says where and why.

**Results.**  `encode_append`: texts are encoded one after the other.
-/

namespace CompilerRelay

/-- A byte string. -/
abbrev Bytes := List UInt8

namespace Utf8

/-- The bytes of a text. -/
def encode (text : String) : Bytes :=
  text.toList.flatMap String.utf8EncodeChar

@[simp] theorem encode_append (first second : String) :
    encode (first ++ second) = encode first ++ encode second := by
  simp [encode]

/-- The character that stands for bytes which are no character. -/
def replacement : Char := '\uFFFD'

/-- An unfinished character: its bits so far, the bytes read and owed, and the interval of the next byte. -/
structure Partial where
  bits : Nat
  seen : Nat
  owed : Nat
  low : UInt8
  high : UInt8
  deriving DecidableEq, Repr

/-- What a first byte starts: a whole character, an unfinished one, or nothing. -/
inductive Start where
  | whole (char : Char)
  | unfinished (rest : Partial)
  | nothing
  deriving DecidableEq, Repr

/-- Classify a first byte. -/
def start (byte : UInt8) : Start :=
  let bits := byte.toNat
  if byte < 0x80 then .whole (Char.ofNat bits)
  else if byte < 0xC2 then .nothing
  else if byte < 0xE0 then .unfinished ⟨bits - 0xC0, 1, 1, 0x80, 0xBF⟩
  else if byte = 0xE0 then .unfinished ⟨0, 1, 2, 0xA0, 0xBF⟩
  else if byte = 0xED then .unfinished ⟨bits - 0xE0, 1, 2, 0x80, 0x9F⟩
  else if byte < 0xF0 then .unfinished ⟨bits - 0xE0, 1, 2, 0x80, 0xBF⟩
  else if byte = 0xF0 then .unfinished ⟨0, 1, 3, 0x90, 0xBF⟩
  else if byte < 0xF4 then .unfinished ⟨bits - 0xF0, 1, 3, 0x80, 0xBF⟩
  else if byte = 0xF4 then .unfinished ⟨4, 1, 3, 0x80, 0x8F⟩
  else .nothing

/-- Whether a byte continues an unfinished character. -/
def Partial.admits (rest : Partial) (byte : UInt8) : Bool :=
  rest.low ≤ byte && byte ≤ rest.high

/-- The bits after one more byte. -/
def Partial.extend (rest : Partial) (byte : UInt8) : Nat :=
  rest.bits * 64 + (byte.toNat - 0x80)

/-- An unfinished character after a byte it admits: the character, or what is still unfinished. -/
def Partial.feed (rest : Partial) (byte : UInt8) : Start :=
  if rest.owed ≤ 1 then .whole (Char.ofNat (rest.extend byte))
  else .unfinished ⟨rest.extend byte, rest.seen + 1, rest.owed - 1, 0x80, 0xBF⟩

/-- A lossy decoder between two bytes: what it has decoded, newest first, and the unfinished character. -/
structure Decoder where
  decoded : List Char := []
  pending : Option Partial := none
  deriving DecidableEq, Repr

namespace Decoder

/-- Take what a byte led to. -/
def accept (decoder : Decoder) : Start → Decoder
  | .whole char => ⟨char :: decoder.decoded, none⟩
  | .unfinished rest => ⟨decoder.decoded, some rest⟩
  | .nothing => ⟨replacement :: decoder.decoded, none⟩

/-- Read one byte. -/
def step (decoder : Decoder) (byte : UInt8) : Decoder :=
  match decoder.pending with
  | none => decoder.accept (start byte)
  | some rest =>
      if rest.admits byte then decoder.accept (rest.feed byte)
      else (Decoder.mk (replacement :: decoder.decoded) none).accept (start byte)

/-- The characters at the end of the bytes, in order. -/
def finish (decoder : Decoder) : List Char :=
  match decoder.pending with
  | none => decoder.decoded.reverse
  | some _ => (replacement :: decoder.decoded).reverse

end Decoder

/-- Decode every byte string, with replacement characters where it is not text. -/
def decodeLossy (bytes : Bytes) : String :=
  String.ofList (bytes.foldl Decoder.step {}).finish

/-- Why bytes are not text. -/
inductive Fault where
  /-- `length` bytes from `index` on belong to no character. -/
  | invalid (index length : Nat)
  /-- The bytes end inside the character that begins at `index`. -/
  | incomplete (index : Nat)
  deriving DecidableEq, Repr

/-- The wording of a fault. -/
def Fault.message : Fault → String
  | .invalid index length =>
      s!"invalid utf-8 sequence of {length} bytes from index {index}"
  | .incomplete index =>
      s!"incomplete utf-8 byte sequence from index {index}"

/-- Read bytes strictly; `index` counts those read, and `decoded` is newest first. -/
def decodeFrom (index : Nat) (decoded : List Char) (pending : Option Partial) :
    Bytes → Except Fault (List Char)
  | [] =>
      match pending with
      | none => .ok decoded.reverse
      | some rest => .error (.incomplete (index - rest.seen))
  | byte :: bytes =>
      let outcome :=
        match pending with
        | none => some (start byte)
        | some rest => if rest.admits byte then some (rest.feed byte) else none
      match outcome, pending with
      | some (.whole char), _ => decodeFrom (index + 1) (char :: decoded) none bytes
      | some (.unfinished rest), _ => decodeFrom (index + 1) decoded (some rest) bytes
      | _, none => .error (.invalid index 1)
      | _, some rest => .error (.invalid (index - rest.seen) rest.seen)

/-- Decode bytes that are text, and refuse all others. -/
def decode? (bytes : Bytes) : Except Fault String :=
  (decodeFrom 0 [] none bytes).map String.ofList

end Utf8

end CompilerRelay
