import Wordcode.Codec
import Wordcode.Deflate.Inflate

/-! # A library for zlib streams

A zlib stream is a deflate stream between a header of two bytes and the checksum of its contents. The decoder
reads any such stream, and what follows it is ignored. The encoder makes do with stored blocks, which the
format allows at every level. -/

namespace Wordcode.Deflate

/-- The checksum of Adler: two sums modulo 65521. -/
def adler32 (bytes : Bytes) : Nat :=
  let (a, b) := bytes.foldl (fun (a, b) byte =>
    let a := (a + byte.toNat) % 65521
    (a, (b + a) % 65521)) (1, 0)
  b * 65536 + a

/-- The number in the next four bytes, the highest first. -/
def bigEndian32 : Inflater Nat := do
  let a ← Inflater.number 8
  let b ← Inflater.number 8
  let c ← Inflater.number 8
  let d ← Inflater.number 8
  pure (((a * 256 + b) * 256 + c) * 256 + d)

/-- The header: method 8, a window of at most 32 KiB, no preset dictionary, and a check sum. -/
def header : Inflater Unit := do
  let method ← Inflater.number 8
  let flags ← Inflater.number 8
  if method % 16 ≠ 8 ∨ 7 < method / 16 ∨ flags.testBit 5 ∨ (method * 256 + flags) % 31 ≠ 0 then
    throw .corrupt

/-- Decompresses a zlib stream, where the input has at most `bound` bits. -/
def zlib (bound : Nat) : Inflater Unit := do
  header
  inflate bound
  Inflater.align
  let checksum ← bigEndian32
  if checksum ≠ adler32 (← get).output.toList then throw .corrupt

/-! ### Decoders -/

/-- The error that a reader reports. -/
def Stop.fault : Stop → StreamFault
  | truncated => ⟨.unexpectedEof, "incomplete deflate stream"⟩
  | corrupt => ⟨.invalidInput, "corrupt deflate stream"⟩

/-- Data and a place in what they are decompressed to. -/
structure Decoder where
  output : Bytes
  /-- The size of the output when the last piece of the data was started. -/
  mark : Nat
  /-- The defect behind the output, if the stream does not end there. -/
  stop : Option Stop
  place : Nat

namespace Decoder

/-- The start of what data are decompressed to. -/
def ofData (data : Bytes) : Decoder :=
  match zlib (8 * data.length) ⟨.ofBytes data, #[], 0⟩ with
  | .ok _ s => ⟨s.output.toList, s.mark, none, 0⟩
  | .error stop s => ⟨s.output.toList, s.mark, some stop, 0⟩

/-- Whether the bytes up to the one at `last` are given out before a defect is reported. A missing end is
reported when nothing else is left, and bits that mean nothing along with all of their piece and window. -/
def givesFirst (d : Decoder) (last : Nat) : Stop → Bool
  | .truncated => d.place < d.output.length
  | .corrupt => d.place < d.output.length &&
      ((last / windowSize + 1) * windowSize < d.output.length || last < d.mark)

/-- Reads on. -/
def read (size : Nat) : EStateM StreamFault Decoder Bytes := fun d =>
  match d.stop.filter (!d.givesFirst (d.place + size - 1) ·) with
  | some stop => .error stop.fault d
  | none =>
    let bytes := (d.output.drop d.place).take size
    .ok bytes { d with place := d.place + bytes.length }

end Decoder

/-! ### Encoders -/

/-- The two bytes of a number of 16 bits, the lower first. -/
def littleEndian16 (n : Nat) : Bytes := [.ofNat n, .ofNat (n / 256)]

/-- The largest stored block. -/
def maxStored : Nat := 65535

/-- A stored block. -/
def stored (isLast : Bool) (bytes : Bytes) : Bytes :=
  (if isLast then 1 else 0) :: (littleEndian16 bytes.length ++
    littleEndian16 (maxStored - bytes.length) ++ bytes)

/-- The bytes as stored blocks, at most `bound` of them before the last. -/
def storedBlocks : Nat → Bytes → Bytes
  | 0, bytes => stored true bytes
  | bound + 1, bytes =>
    if bytes.length ≤ maxStored then stored true bytes
    else stored false (bytes.take maxStored) ++ storedBlocks bound (bytes.drop maxStored)

/-- The header for a level: the effort is noted in its upper bits, and the lower make it divisible by
31. -/
def headerBytes (level : Nat) : Bytes :=
  [0x78, if level < 2 then 0x01 else if level < 6 then 0x5E else if level = 6 then 0x9C else 0xDA]

/-- A zlib stream of the bytes. The header tells which level was asked for. -/
def compress (level : Nat) (bytes : Bytes) : Bytes :=
  let checksum := adler32 bytes
  headerBytes level ++ storedBlocks bytes.length bytes ++
    [.ofNat (checksum / 16777216), .ofNat (checksum / 65536), .ofNat (checksum / 256),
      .ofNat checksum]

/-- What an encoder has got so far. -/
structure Encoder where
  level : Nat
  payload : Bytes

/-- The library. -/
def library : ZlibLibrary Encoder Decoder where
  encoder level := ⟨level.toNat, []⟩
  write bytes := fun s => .ok bytes.length { s with payload := s.payload ++ bytes }
  finish s := .ok (compress s.level s.payload)
  decoder := Decoder.ofData
  reader := {
    read := Decoder.read
    read_le := by
      intro size d d' bytes h
      unfold Decoder.read at h
      split at h <;> cases h
      exact List.length_take_le size _ }

end Wordcode.Deflate
