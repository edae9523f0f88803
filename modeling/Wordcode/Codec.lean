import Wordcode.Settings
import Wordcode.Stream

/-! # Codecs

A codec compresses the payload of a container. The usual one writes and reads zlib streams by means of a
library, which is left open here. Whoever decompresses says how many bytes have to come of it. That number is
not trusted: reading goes on for one more byte, so that contents that are too long are noticed too. -/

namespace Wordcode

/-- A way to compress payloads. -/
structure Codec (ε : Type) where
  compress : Bytes → Except ε Bytes
  /-- Decompresses to exactly the given number of bytes, or fails. -/
  decompress : Bytes → Nat → Except ε Bytes

/-- A library for zlib streams, by the states of its encoders and decoders. -/
structure ZlibLibrary (κ δ : Type) where
  /-- An encoder for a level of effort. -/
  encoder (level : UInt32) : κ
  /-- Hands bytes to an encoder, which takes some of them from the front and says how many. -/
  write (bytes : Bytes) : EStateM StreamFault κ Nat
  /-- Ends a stream and gives all of it. -/
  finish (s : κ) : Except StreamFault Bytes
  /-- A decoder at the start of its data. -/
  decoder (data : Bytes) : δ
  reader : ByteReader δ

variable {κ δ : Type}

namespace ZlibLibrary

/-- Compresses a payload. -/
def compress (library : ZlibLibrary κ δ) (level : UInt32) (payload : Bytes) : Except StreamFault Bytes := do
  library.finish (← writeAll library.write payload (library.encoder level))

/-- How many bytes are read at most: one more than expected, as far as 64 bits can count. -/
def readLimit (expected : Nat) : Nat := min (expected + 1) (UInt64.size - 1)

/-- The error about another number of bytes than the expected one. -/
def wrongLength (expected actual : Nat) : StreamFault :=
  ⟨.invalidData, s!"expected {expected} bytes, decompressed {actual}"⟩

/-- Decompresses to the expected number of bytes. -/
def decompress (library : ZlibLibrary κ δ) (buffering : Buffering) (data : Bytes) (expected : Nat) :
    Except StreamFault Bytes := do
  let out ← library.reader.readToEnd buffering [] ⟨library.decoder data, readLimit expected⟩
  if out.length ≠ expected then throw (wrongLength expected out.length)
  pure out

end ZlibLibrary

/-- The codec of zlib streams, at a level of 9 at most. -/
def Codec.deflate (library : ZlibLibrary κ δ) (buffering : Buffering) (settings : CodecSettings) :
    Codec StreamFault where
  compress := library.compress (min settings.level 9)
  decompress := library.decompress buffering

end Wordcode
