import Mathlib.Data.List.Infix
import Mathlib.Tactic.SplitIfs
import Wordcode.Codec

/-! # Decompression

Reading a stream to the end within a limit gives what a run of reads gives, up to the limit, and where the limit
is not reached the reader has reported its end (`ByteReader.readToEnd_ok`). Of the library for zlib streams no
more is used than what is documented (`ZlibLibrary.Documented`). So what a stream is decompressed to is its
payload up to the limit, if that has the expected length (`ZlibLibrary.decompress_of_isStream`). -/

namespace Wordcode

/-! ### Runs of reads -/

namespace ByteReader

variable {σ : Type} {reader : ByteReader σ} {buffering : Buffering} {size limit : Nat} {s : σ}
  {out bytes : Bytes}

/-- Reads one after the other, with buffers of any size: the bytes that they give, and where they lead. -/
inductive Runs (reader : ByteReader σ) : σ → Bytes → σ → Prop
  | done (s : σ) : Runs reader s [] s
  | more {s s₁ s' : σ} {size : Nat} {chunk bytes : Bytes} (read : reader.read size s = .ok chunk s₁)
    (rest : Runs reader s₁ bytes s') : Runs reader s (chunk ++ bytes) s'

/-- The reader reports its end: it gives nothing where there is room. -/
def AtEnd (reader : ByteReader σ) (s : σ) : Prop := ∃ size s', 0 < size ∧ reader.read size s = .ok [] s'

/-- The reader gives the bytes in order and without errors, and ends behind the last one. -/
structure Delivers (reader : ByteReader σ) (s : σ) (bytes : Bytes) : Prop where
  inOrder {out : Bytes} {s' : σ} : reader.Runs s out s' → out <+: bytes
  all {out : Bytes} {s' : σ} : reader.Runs s out s' → reader.AtEnd s' → out = bytes
  succeeds {out : Bytes} {s' : σ} : reader.Runs s out s' → ∀ size, ∃ chunk s'', reader.read size s' = .ok chunk s''

theorem readLimited_ok {s s' : Limited σ} (h : reader.readLimited size s = .ok bytes s') :
    (s.limit = 0 ∧ bytes = []) ∨
    (0 < s.limit ∧ reader.read (min size s.limit) s.inner = .ok bytes s'.inner ∧ bytes.length ≤ s.limit ∧
      s'.limit = s.limit - bytes.length) := by
  unfold readLimited at h
  split_ifs at h with hlimit
  · cases h
    exact .inl ⟨hlimit, rfl⟩
  · split at h
    case h_1 bytes' inner hread =>
      cases h
      exact .inr ⟨Nat.pos_of_ne_zero hlimit, hread, Nat.le_trans (reader.read_le hread) (Nat.min_le_right ..), rfl⟩
    case h_2 => cases h

/-- **Reading to the end** gives what a run of reads gives, and no more than the limit. If it gives less, the
reader has reported its end. -/
theorem readToEnd_ok {s : Limited σ} (h : reader.readToEnd buffering out s = .ok bytes) : ∃ read s',
    bytes = out ++ read ∧ reader.Runs s.inner read s' ∧ read.length ≤ s.limit ∧
      (read.length < s.limit → reader.AtEnd s') := by
  fun_induction readToEnd reader buffering out s with
  | case1 => cases h
  | case2 out s s' hread =>
    cases h
    refine ⟨[], s.inner, (List.append_nil _).symm, .done _, Nat.zero_le _, fun hlimit => ?_⟩
    rcases readLimited_ok hread with ⟨hzero, -⟩ | ⟨hpos, hend, -, -⟩
    · exact absurd hzero (Nat.ne_of_gt hlimit)
    · exact ⟨_, _, Nat.lt_min.mpr ⟨buffering.size_pos _, hpos⟩, hend⟩
  | case3 out s b chunk s₁ hread ih =>
    obtain ⟨read, s', rfl, hruns, hle, hend⟩ := ih h
    rcases readLimited_ok hread with ⟨-, hnil⟩ | ⟨-, hfirst, hchunk, hlimit⟩
    · cases hnil
    · rw [hlimit] at hle hend
      refine ⟨b :: chunk ++ read, s', List.append_assoc _ _ _, .more hfirst hruns, ?_, fun hlt => hend ?_⟩
      · rw [List.length_append]
        omega
      · rw [List.length_append] at hlt
        omega

theorem exists_readToEnd_ok {s : Limited σ}
    (h : ∀ {read s'}, reader.Runs s.inner read s' → ∀ size, ∃ chunk s'', reader.read size s' = .ok chunk s'') :
    ∃ bytes, reader.readToEnd buffering out s = .ok bytes := by
  fun_induction readToEnd reader buffering out s with
  | case1 out s fault s' hread =>
    obtain ⟨chunk, s'', hok⟩ := h (.done _) (min (buffering.size out.length) s.limit)
    unfold readLimited at hread
    rw [hok] at hread
    split_ifs at hread
  | case2 out => exact ⟨out, rfl⟩
  | case3 out s b chunk s₁ hread ih =>
    rcases readLimited_ok hread with ⟨-, hnil⟩ | ⟨-, hfirst, -, -⟩
    · cases hnil
    · exact ih fun hruns => h (.more hfirst hruns)

theorem Delivers.readToEnd_eq (h : reader.Delivers s bytes) :
    reader.readToEnd buffering [] ⟨s, limit⟩ = .ok (bytes.take limit) := by
  obtain ⟨out, hout⟩ : ∃ out, reader.readToEnd buffering [] ⟨s, limit⟩ = .ok out :=
    exists_readToEnd_ok h.succeeds
  obtain ⟨_, s', rfl, hruns, hle, hend⟩ := readToEnd_ok hout
  rw [hout]
  rcases Nat.lt_or_eq_of_le hle with hlt | heq
  · obtain rfl : out = bytes := h.all hruns (hend hlt)
    rw [List.take_of_length_le hle]
  · rw [List.prefix_iff_eq_take.mp (h.inOrder hruns), heq]

end ByteReader

/-! ### Streams -/

namespace ZlibLibrary

variable {κ δ : Type} {library : ZlibLibrary κ δ} {IsStream : Bytes → Bytes → Prop} {buffering : Buffering}
  {data payload out : Bytes} {n : Nat}

/-- **What is documented of a library.** `IsStream data payload` says that the data start with a zlib stream whose
contents are the payload. -/
structure Documented (library : ZlibLibrary κ δ) (IsStream : Bytes → Bytes → Prop) : Prop where
  /-- Compressing at a level from 0 to 9 gives a stream of the payload. -/
  compresses {level : UInt32} : level ≤ 9 → ∀ payload, ∃ data,
    library.compress level payload = .ok data ∧ IsStream data payload
  /-- The decoder gives the contents of a stream in order. -/
  delivers {data payload : Bytes} : IsStream data payload →
    library.reader.Delivers (library.decoder data) payload
  /-- The decoder checks the end of a stream before it reports it. -/
  ends {data out : Bytes} {s : δ} : library.reader.Runs (library.decoder data) out s → library.reader.AtEnd s →
    IsStream data out

theorem decompress_eq (h : library.reader.readToEnd buffering [] ⟨library.decoder data, readLimit n⟩ = .ok out) :
    library.decompress buffering data n = if out.length = n then .ok out else .error (wrongLength n out.length) := by
  unfold decompress
  rw [h]
  change (if out.length ≠ n then _ else _) = _
  rw [ite_not]
  rfl

/-- **What is decompressed** has the expected length, and a run of reads gives it. The decoder has reported its
end behind it if 64 bits can count one more byte. -/
theorem decompress_ok (h : library.decompress buffering data n = .ok out) :
    out.length = n ∧ n ≤ UInt64.size - 1 ∧ ∃ s, library.reader.Runs (library.decoder data) out s ∧
      (n < UInt64.size - 1 → library.reader.AtEnd s) := by
  cases hread : library.reader.readToEnd buffering [] ⟨library.decoder data, readLimit n⟩ with
  | error fault =>
    unfold decompress at h
    rw [hread] at h
    cases h
  | ok read =>
    rw [decompress_eq hread] at h
    split_ifs at h with hlength
    cases h
    obtain ⟨_, s, rfl, hruns, hle, hend⟩ := ByteReader.readToEnd_ok hread
    dsimp only [readLimit] at hle hend
    refine ⟨hlength, ?_, s, hruns, fun hn => hend ?_⟩
    · exact hlength ▸ Nat.le_trans hle (Nat.min_le_right ..)
    · exact hlength.symm ▸ Nat.lt_min.mpr ⟨Nat.lt_succ_self n, hn⟩

namespace Documented

variable (hlibrary : library.Documented IsStream)
include hlibrary

theorem compress_deflate (buffering : Buffering) (settings : CodecSettings) (payload : Bytes) : ∃ data,
    (Codec.deflate library buffering settings).compress payload = .ok data ∧ IsStream data payload :=
  hlibrary.compresses Std.min_le_right payload

/-- **Of a stream** the payload is read up to the limit, and that is accepted if it has the expected length. -/
theorem decompress_of_isStream (buffering : Buffering) (h : IsStream data payload) (n : Nat) :
    library.decompress buffering data n =
      if (payload.take (readLimit n)).length = n then .ok (payload.take (readLimit n))
      else .error (wrongLength n (payload.take (readLimit n)).length) :=
  decompress_eq (hlibrary.delivers h).readToEnd_eq

theorem decompress_length (buffering : Buffering) (h : IsStream data payload)
    (hlength : payload.length < UInt64.size) :
    library.decompress buffering data payload.length = .ok payload := by
  have htake : payload.take (readLimit payload.length) = payload :=
    List.take_of_length_le (Nat.le_min.mpr ⟨Nat.le_succ _, Nat.le_pred_of_lt hlength⟩)
  rw [hlibrary.decompress_of_isStream buffering h, htake, if_pos rfl]

/-- Where another number of bytes is expected, no more is read than one byte above it. -/
theorem decompress_of_ne (buffering : Buffering) (h : IsStream data payload)
    (hlength : payload.length < UInt64.size) (hne : n ≠ payload.length) :
    ∃ actual, library.decompress buffering data n = .error (wrongLength n actual) := by
  have htake : (payload.take (readLimit n)).length ≠ n := by
    rw [List.length_take, readLimit]
    omega
  exact ⟨_, by rw [hlibrary.decompress_of_isStream buffering h, if_neg htake]⟩

end Documented

end ZlibLibrary

end Wordcode
