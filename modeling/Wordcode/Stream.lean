import Wordcode.Word

/-! # Byte streams

Readers and writers pass bytes on in pieces. A piece can be smaller than what was asked for, but a reader that
gives nothing where there is room has come to its end. Here every call is one that was not interrupted;
interrupted calls are repeated and leave no trace. -/

namespace Wordcode

/-- The kinds of errors of streams. -/
inductive ErrorKind
  | invalidInput
  | invalidData
  | unexpectedEof
  | writeZero
  | other
  deriving DecidableEq, Repr

/-- An error of a stream. -/
structure StreamFault where
  kind : ErrorKind
  message : String
  deriving DecidableEq, Repr

instance : ToString StreamFault := ⟨StreamFault.message⟩

variable {σ : Type}

/-! ### Writing -/

/-- Writes all bytes. `write` takes some of them from the front and says how many. -/
def writeAll (write : Bytes → EStateM StreamFault σ Nat) (bytes : Bytes) (s : σ) : Except StreamFault σ :=
  if _left : bytes = [] then .ok s
  else
    match write bytes s with
    | .error fault _ => .error fault
    | .ok taken s' =>
      if _taken : taken = 0 then .error ⟨.writeZero, "failed to write whole buffer"⟩
      else writeAll write (bytes.drop taken) s'
termination_by bytes.length
decreasing_by
  have := List.length_pos_iff.mpr _left
  rw [List.length_drop]
  omega

/-! ### Reading -/

/-- A way to read bytes. -/
structure ByteReader (σ : Type) where
  /-- Reads into a buffer of this size. -/
  read (size : Nat) : EStateM StreamFault σ Bytes
  read_le {size : Nat} {s s' : σ} {bytes : Bytes} : read size s = .ok bytes s' → bytes.length ≤ size

/-- A place in a stream of which only so many more bytes are read. -/
structure Limited (σ : Type) where
  inner : σ
  limit : Nat

/-- Reads within the limit. At the limit nothing is asked for. -/
def ByteReader.readLimited (reader : ByteReader σ) (size : Nat) : EStateM StreamFault (Limited σ) Bytes :=
  fun s =>
    if s.limit = 0 then .ok [] s
    else
      match reader.read (min size s.limit) s.inner with
      | .ok bytes inner => .ok bytes ⟨inner, s.limit - bytes.length⟩
      | .error fault inner => .error fault { s with inner }

theorem ByteReader.limit_lt_of_readLimited {reader : ByteReader σ} {size : Nat} {s s' : Limited σ} {b : UInt8}
    {bytes : Bytes} (h : reader.readLimited size s = .ok (b :: bytes) s') : s'.limit < s.limit := by
  unfold readLimited at h
  split at h
  · cases h
  · split at h
    · cases h
      rw [List.length_cons]
      dsimp only
      omega
    · cases h

/-- The sizes of the buffers for reading to the end, each by the number of bytes that were read before. -/
structure Buffering where
  size : Nat → Nat
  size_pos : ∀ filled, 0 < size filled

/-- Buffers of the size of a window. -/
def Buffering.even : Buffering := ⟨fun _ => 32768, fun _ => by decide⟩

/-- Reads to the end or to the limit; `out` is what was read before. -/
def ByteReader.readToEnd (reader : ByteReader σ) (buffering : Buffering) (out : Bytes) (s : Limited σ) :
    Except StreamFault Bytes :=
  match _read : reader.readLimited (buffering.size out.length) s with
  | .error fault _ => .error fault
  | .ok [] _ => .ok out
  | .ok (b :: bytes) s' => reader.readToEnd buffering (out ++ b :: bytes) s'
termination_by s.limit
decreasing_by exact limit_lt_of_readLimited _read

end Wordcode
