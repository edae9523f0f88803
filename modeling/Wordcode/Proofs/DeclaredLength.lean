import Wordcode.Proofs.Deflate.Library
import Wordcode.Proofs.Framing

/-! # Declared lengths

The length in a container is not trusted: a stream is read up to one byte more than it says, and what was
read must have this length. So of all lengths only that of the payload is accepted
(`declared_length_checked`), whatever the library and the sizes of the buffers. -/

namespace Wordcode

variable {κ δ : Type} {library : ZlibLibrary κ δ} {IsStream : Bytes → Bytes → Prop}
  {buffering buffering' : Buffering} {data payload out out' : Bytes} {n n' : Nat}

/-! ### Expected lengths -/

namespace ZlibLibrary.Documented

variable (hlibrary : library.Documented IsStream)
include hlibrary

theorem isStream_of_decompress (h : library.decompress buffering data n = .ok out) (hn : n < UInt64.size - 1) :
    IsStream data out := by
  obtain ⟨-, -, s, hruns, hend⟩ := decompress_ok h
  exact hlibrary.ends hruns (hend hn)

/-- A longer output would not be the one of a stream that has ended. -/
theorem not_lt_of_decompress (h : library.decompress buffering data n = .ok out)
    (h' : library.decompress buffering' data n' = .ok out') : ¬n < n' := by
  intro hlt
  obtain ⟨rfl, -, -, -, -⟩ := decompress_ok h
  obtain ⟨rfl, hle, s, hruns, -⟩ := decompress_ok h'
  have hstream := isStream_of_decompress hlibrary h (Nat.lt_of_lt_of_le hlt hle)
  exact Nat.not_le_of_gt hlt ((hlibrary.delivers hstream).inOrder hruns).length_le

theorem decompress_length_unique (h : library.decompress buffering data n = .ok out)
    (h' : library.decompress buffering' data n' = .ok out') : n = n' :=
  Nat.le_antisymm (Nat.not_lt.mp (hlibrary.not_lt_of_decompress h' h))
    (Nat.not_lt.mp (hlibrary.not_lt_of_decompress h h'))

end ZlibLibrary.Documented

/-! ### Containers -/

namespace Container

/-- The bytes of a container with another length. -/
def withLength (n : Nat) (bytes : Bytes) : Bytes :=
  bytes.take 4 ++ littleEndian32 n ++ bytes.drop 8

theorem withLength_frame (n m : Nat) (rest : Bytes) :
    withLength n (magic ++ littleEndian32 m ++ rest) = magic ++ littleEndian32 n ++ rest := rfl

/-- **A container with a wrong length is not loaded.** -/
theorem load_withLength (hlibrary : library.Documented IsStream) (buffering : Buffering) (settings : CodecSettings)
    (hpayload : payload.length < UInt32.size) (hn : n < UInt32.size) (hne : n ≠ payload.length) :
    ∃ bytes actual, save (.deflate library buffering settings) payload = .ok bytes ∧
      load (.deflate library buffering settings) (withLength n bytes) =
        .error (.decompress (ZlibLibrary.wrongLength n actual)) := by
  obtain ⟨data, hdata, hstream⟩ := hlibrary.compress_deflate buffering settings payload
  obtain ⟨actual, hactual⟩ := hlibrary.decompress_of_ne buffering hstream (Nat.lt_trans hpayload (by decide)) hne
  refine ⟨_, actual, save_ok_iff.mpr ⟨hpayload, data, hdata, rfl⟩, ?_⟩
  rw [withLength_frame, load_frame _ hn]
  exact congrArg (Except.mapError _) hactual

/-- **Declared lengths are checked exactly.** Whatever the library, if it does what is documented, decompressing
succeeds only with the expected length and, as far as 64 bits can count one byte more, with the end of a stream;
for each byte string at most one length succeeds, and of a stream it is the length of its payload. A container
with another length than that of its payload is not loaded, at no level, as its data are invalid. -/
theorem declared_length_checked (hlibrary : library.Documented IsStream) :
    (∀ buffering settings data n out, (Codec.deflate library buffering settings).decompress data n = .ok out →
      out.length = n ∧ (n < UInt64.size - 1 → IsStream data out)) ∧
    (∀ buffering buffering' settings data n n' out out',
      (Codec.deflate library buffering settings).decompress data n = .ok out →
      (Codec.deflate library buffering' settings).decompress data n' = .ok out' → n = n') ∧
    (∀ buffering settings data payload, IsStream data payload → payload.length < UInt64.size →
      (Codec.deflate library buffering settings).decompress data payload.length = .ok payload) ∧
    ∀ buffering settings payload n, payload.length < UInt32.size → n < UInt32.size → n ≠ payload.length →
      ∃ bytes cause, save (.deflate library buffering settings) payload = .ok bytes ∧
        load (.deflate library buffering settings) (withLength n bytes) = .error (.decompress cause) ∧
          cause.kind = .invalidData := by
  refine ⟨fun _ _ _ _ _ h => ⟨(ZlibLibrary.decompress_ok h).1, hlibrary.isStream_of_decompress h⟩,
    fun _ _ _ _ _ _ _ _ => hlibrary.decompress_length_unique,
    fun _ _ _ _ => hlibrary.decompress_length _, ?_⟩
  intro buffering settings payload n hpayload hn hne
  obtain ⟨bytes, actual, hsave, hload⟩ := load_withLength hlibrary buffering settings hpayload hn hne
  exact ⟨bytes, _, hsave, hload, rfl⟩

/-- Two bytes that are only stored are loaded with no other length than two: with less, with more, or with the
greatest one. -/
theorem declared_length_checked_two :
    Deflate.library.Documented Deflate.IsStream ∧
    Deflate.IsStream (Deflate.compress 0 [7, 9]) [7, 9] ∧
    (Codec.deflate Deflate.library .even ⟨0⟩).decompress (Deflate.compress 0 [7, 9]) 2 = .ok [7, 9] ∧
    (∀ n out, (Codec.deflate Deflate.library .even ⟨0⟩).decompress (Deflate.compress 0 [7, 9]) n = .ok out →
      n = 2) ∧
    ∀ n ∈ [0, 1, 3, UInt32.size - 1], ∃ bytes cause, save (.deflate Deflate.library .even ⟨0⟩) [7, 9] = .ok bytes ∧
      load (.deflate Deflate.library .even ⟨0⟩) (withLength n bytes) = .error (.decompress cause) ∧
        cause.kind = .invalidData := by
  obtain ⟨-, honce, hread, hload⟩ := declared_length_checked Deflate.library_documented
  have hstream : Deflate.IsStream (Deflate.compress 0 [7, 9]) [7, 9] := Deflate.isStream_compress 0 [7, 9]
  have htwo : (Codec.deflate Deflate.library .even ⟨0⟩).decompress (Deflate.compress 0 [7, 9]) 2 = .ok [7, 9] :=
    hread _ _ _ [7, 9] hstream (by decide)
  refine ⟨Deflate.library_documented, hstream, htwo, fun n out h => honce _ _ _ _ _ _ _ _ h htwo, fun n hn => ?_⟩
  refine hload _ _ [7, 9] n (by decide) ?_ ?_
  · revert n
    decide
  · revert n
    decide

end Container

end Wordcode
