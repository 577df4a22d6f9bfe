import CompilerRelay.Text.Search
import CompilerRelay.Text.Utf8

/-!
# From chunks of bytes to lines

Output arrives in chunks that end anywhere.  The buffer keeps the bytes after the last newline until the
newline that ends them arrives.

**Input.**  Chunks of bytes, and an optional cap on the bytes that are kept.

**Algorithm.**  A chunk is put behind the bytes kept so far and the whole is cut at its newlines.  Each
finished run loses one carriage return at its end and is decoded; the unfinished run is kept.  If it is
longer than the cap, its oldest bytes are dropped and counted.  Decoding whole runs leaves a character that
was cut in two by a chunk intact.

**Results.**  `length_pending_push_le`: what is kept never exceeds the cap.
-/

namespace CompilerRelay

/-- The bytes of an unfinished line. -/
structure LineBuffer where
  pending : Bytes := []
  cap : Option Nat := none
  dropped : Nat := 0
  deriving DecidableEq, Repr

namespace LineBuffer

/-- The byte that ends a line. -/
def newline : UInt8 := 0x0A

/-- The byte that may stand before the newline and is no part of the line. -/
def carriageReturn : UInt8 := 0x0D

/-- A run of bytes without one carriage return at its end. -/
def dropReturn (run : Bytes) : Bytes :=
  if run.getLast? = some carriageReturn then run.dropLast else run

/-- The line that a finished run of bytes is. -/
def lineOf (run : Bytes) : String :=
  Utf8.decodeLossy (dropReturn run)

/-- The finished runs of a byte string. -/
def finishedRuns (bytes : Bytes) : List Bytes :=
  (Text.splitOn newline bytes).dropLast

/-- The bytes after the last newline. -/
def unfinishedRun (bytes : Bytes) : Bytes :=
  (Text.splitOn newline bytes).getLastD []

/-- How many bytes of an unfinished run the cap drops. -/
def excess (cap : Option Nat) (run : Bytes) : Nat :=
  match cap with
  | none => 0
  | some most => run.length - most

/-- The largest count of dropped bytes that is kept. -/
def droppedLimit : Nat := 18446744073709551615

/-- Take in a chunk: the lines it finishes, and the buffer after it. -/
def push (buffer : LineBuffer) (chunk : Bytes) : List String × LineBuffer :=
  let bytes := buffer.pending ++ chunk
  let rest := unfinishedRun bytes
  let surplus := excess buffer.cap rest
  ((finishedRuns bytes).map lineOf,
    { buffer with
      pending := rest.drop surplus
      dropped := min (buffer.dropped + surplus) droppedLimit })

/-- A text without one carriage return at its end. -/
def dropReturnChar (text : List Char) : List Char :=
  if text.getLast? = some '\r' then text.dropLast else text

/-- Take what is unfinished as a line of its own, if there is anything. -/
def flush (buffer : LineBuffer) : Option String × LineBuffer :=
  if buffer.pending = [] then (none, buffer)
  else
    (some (String.ofList (dropReturnChar (Utf8.decodeLossy buffer.pending).toList)),
      { buffer with pending := [] })

/-- How many bytes were dropped since the last call, and a buffer that starts counting anew. -/
def takeDropped (buffer : LineBuffer) : Nat × LineBuffer :=
  (buffer.dropped, { buffer with dropped := 0 })

theorem length_pending_push_le
    (buffer : LineBuffer) (chunk : Bytes) {most : Nat}
    (capped : buffer.cap = some most) :
    (buffer.push chunk).2.pending.length ≤ most := by
  simp only [push, excess, capped, List.length_drop]
  omega

end LineBuffer
end CompilerRelay
