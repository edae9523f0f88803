import Wordcode.Word

/-! # Bit streams

A compressed stream is read bit by bit, each byte from its lowest bit on. A number is written from its
lowest bit on too. Decompressing is a run of reading steps over the bits ahead and the bytes produced
so far; it stops early when the bits run out or when they mean nothing.

A run takes its input in pieces and produces its output in windows, both of 32 KiB. What was there when the
last piece or window was started had been given out before a defect could be found behind it. -/

namespace Wordcode.Deflate

/-- The size of a piece of input and of a window of output. -/
def windowSize : Nat := 32768

/-- The bits ahead: what is left of the current byte, and the bytes after it. -/
structure BitStream where
  bits : List Bool
  bytes : Bytes
  /-- The number of bytes before these. -/
  taken : Nat

/-- The bits of a byte, the lowest first. -/
def bitsOf (b : UInt8) : List Bool := (List.range 8).map b.toNat.testBit

/-- The stream of bytes. -/
def BitStream.ofBytes (bytes : Bytes) : BitStream := ⟨[], bytes, 0⟩

/-- The next bit. -/
def BitStream.next? : BitStream → Option (Bool × BitStream)
  | ⟨b :: bits, bytes, taken⟩ => some (b, ⟨bits, bytes, taken⟩)
  | ⟨[], byte :: bytes, taken⟩ =>
    match bitsOf byte with
    | b :: bits => some (b, ⟨bits, bytes, taken + 1⟩)
    | [] => none
  | ⟨[], [], _⟩ => none

/-- Whether the next bit is the first one of a piece. -/
def BitStream.startsPiece (stream : BitStream) : Bool :=
  stream.bits.isEmpty && stream.taken % windowSize == 0

/-- Why decompressing stops early. -/
inductive Stop
  /-- The input ends inside the stream. -/
  | truncated
  /-- The input is no compressed stream. -/
  | corrupt
  deriving DecidableEq, Repr

/-- The bits ahead and the output. -/
structure Progress where
  input : BitStream
  output : Array UInt8
  /-- The size of the output when the last piece was started. -/
  mark : Nat

/-- A step of decompressing. -/
abbrev Inflater := EStateM Stop Progress

namespace Inflater

/-- The next bit, as a number. -/
def bit : Inflater Nat := fun s =>
  match s.input.next? with
  | none => .error .truncated s
  | some (b, input) =>
    .ok b.toNat { s with input, mark := if s.input.startsPiece then s.output.size else s.mark }

/-- The number in the next `width` bits. -/
def number : Nat → Inflater Nat
  | 0 => pure 0
  | width + 1 => do
    let low ← bit
    let high ← number width
    pure (low + 2 * high)

/-- Drops what is left of the current byte. -/
def align : Inflater Unit := modify fun s => { s with input := { s.input with bits := [] } }

/-- Appends a byte to the output. -/
def emit (b : UInt8) : Inflater Unit := modify fun s => { s with output := s.output.push b }

/-- The byte `distance` back in the output. In front of the output there are zeros. -/
def lookBack (distance : Nat) : Inflater UInt8 := fun s =>
  .ok (if distance ≤ s.output.size then s.output.getD (s.output.size - distance) 0 else 0) s

/-- Repeats `length` bytes from `distance` back; they may overlap what is appended. -/
def copy (distance : Nat) : Nat → Inflater Unit
  | 0 => pure ()
  | length + 1 => do
    emit (← lookBack distance)
    copy distance length

/-- Appends the next `length` bytes of the input. -/
def store : Nat → Inflater Unit
  | 0 => pure ()
  | length + 1 => do
    emit (.ofNat (← number 8))
    store length

end Inflater

end Wordcode.Deflate
