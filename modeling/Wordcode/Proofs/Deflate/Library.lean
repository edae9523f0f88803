import Wordcode.Proofs.Decompression
import Wordcode.Proofs.Deflate.Stored

/-! # The library does what is documented

The decoder gives out what the data are decompressed to, piece by piece (`runs_library`). It reports an end only
behind all of it, and no end where it has found a defect (`stop_of_atEnd`). -/

namespace Wordcode.Deflate

variable {data payload out bytes : Bytes} {size : Nat} {d d' : Decoder}

/-- The data start with a stream of the payload: they are decompressed to it and to its end. -/
def IsStream (data payload : Bytes) : Prop :=
  (Decoder.ofData data).stop = none ∧ (Decoder.ofData data).output = payload

namespace Decoder

theorem read_eq_ok_iff : read size d = .ok bytes d' ↔
    d.stop.filter (!d.givesFirst (d.place + size - 1) ·) = none ∧ bytes = (d.output.drop d.place).take size ∧
      d' = { d with place := d.place + bytes.length } := by
  unfold read
  cases d.stop.filter (!d.givesFirst (d.place + size - 1) ·) with
  | none =>
    dsimp only
    rw [EStateM.Result.ok.injEq]
    constructor
    · rintro ⟨rfl, rfl⟩
      exact ⟨rfl, rfl, rfl⟩
    · rintro ⟨-, rfl, rfl⟩
      exact ⟨rfl, rfl⟩
  | some stop => exact iff_of_false nofun nofun

theorem place_lt_of_givesFirst {last : Nat} {stop : Stop} (h : d.givesFirst last stop = true) :
    d.place < d.output.length := by
  cases stop with
  | truncated => exact of_decide_eq_true h
  | corrupt => exact of_decide_eq_true (Bool.and_eq_true_iff.mp h).1

/-- Where there is room and nothing is read, the output is at its end and no defect is behind it. -/
theorem stop_of_read (h : read size d = .ok [] d') (hsize : 0 < size) :
    d.stop = none ∧ d.output.drop d.place = [] := by
  obtain ⟨hstop, hnil, -⟩ := read_eq_ok_iff.mp h
  have hdrop : d.output.drop d.place = [] :=
    (List.take_eq_nil_iff.mp hnil.symm).resolve_left (Nat.ne_of_gt hsize)
  refine ⟨?_, hdrop⟩
  cases hd : d.stop with
  | none => rfl
  | some stop =>
    have hgives : d.givesFirst (d.place + size - 1) stop = true := by
      rw [hd, Option.filter_some] at hstop
      simpa using hstop
    exact absurd (List.drop_eq_nil_iff.mp hdrop) (Nat.not_le_of_gt (place_lt_of_givesFirst hgives))

end Decoder

/-- A run of reads goes on in the same output by the bytes that it gives. -/
theorem runs_library (h : library.reader.Runs d bytes d') :
    d'.output = d.output ∧ d'.stop = d.stop ∧ d.output.drop d.place = bytes ++ d'.output.drop d'.place := by
  induction h with
  | done d => exact ⟨rfl, rfl, rfl⟩
  | @more d d₁ d' size chunk bytes read rest ih =>
    obtain ⟨houtput, hstop, hdrop⟩ := ih
    obtain ⟨-, hchunk, rfl⟩ := Decoder.read_eq_ok_iff.mp read
    refine ⟨houtput, hstop, ?_⟩
    have hrest : d.output.drop d.place = chunk ++ d.output.drop (d.place + chunk.length) := by
      rw [← List.drop_drop]
      exact (List.prefix_append_drop (hchunk ▸ List.take_prefix size _))
    rw [hrest, hdrop, List.append_assoc]

theorem stop_of_atEnd (h : library.reader.Runs d bytes d') (hend : library.reader.AtEnd d') :
    d.stop = none ∧ d.output.drop d.place = bytes := by
  obtain ⟨houtput, hstop, hdrop⟩ := runs_library h
  obtain ⟨size, _, hsize, hread⟩ := hend
  obtain ⟨hnone, hnil⟩ := Decoder.stop_of_read hread hsize
  rw [hnil, List.append_nil] at hdrop
  exact ⟨hstop ▸ hnone, hdrop⟩

theorem place_ofData (data : Bytes) : (Decoder.ofData data).place = 0 := by
  unfold Decoder.ofData
  split <;> rfl

theorem delivers_of_isStream (h : IsStream data payload) :
    library.reader.Delivers (library.decoder data) payload := by
  obtain ⟨hstop, rfl⟩ := h
  have hstart : (Decoder.ofData data).output.drop (Decoder.ofData data).place = (Decoder.ofData data).output := by
    rw [place_ofData, List.drop_zero]
  refine ⟨fun hruns => ?_, fun hruns hend => ?_, fun {out d'} hruns size => ?_⟩
  · obtain ⟨-, -, hdrop⟩ := runs_library hruns
    exact ⟨_, hdrop.symm.trans hstart⟩
  · exact (stop_of_atEnd hruns hend).2.symm.trans hstart
  · have hnone : d'.stop = none := (runs_library hruns).2.1.trans hstop
    exact ⟨_, _, Decoder.read_eq_ok_iff.mpr ⟨by rw [hnone]; rfl, rfl, rfl⟩⟩

theorem isStream_compress (level : Nat) (payload : Bytes) : IsStream (compress level payload) payload := by
  obtain ⟨s, hs, rfl⟩ := zlib_compress level payload
  unfold IsStream Decoder.ofData
  rw [hs]
  exact ⟨rfl, rfl⟩

/-- The encoder takes everything at once. -/
theorem compress_library (level : UInt32) (payload : Bytes) :
    library.compress level payload = .ok (compress level.toNat payload) := by
  have hwrite : writeAll library.write payload (library.encoder level) = .ok ⟨level.toNat, payload⟩ := by
    cases payload with
    | nil =>
      rw [writeAll, dif_pos rfl]
      rfl
    | cons b payload =>
      have htaken : library.write (b :: payload) (library.encoder level) =
        .ok (b :: payload).length ⟨level.toNat, b :: payload⟩ := rfl
      rw [writeAll, dif_neg (List.cons_ne_nil b payload), htaken]
      dsimp only
      rw [dif_neg (List.length_eq_zero_iff.not.mpr (List.cons_ne_nil b payload)), List.drop_length, writeAll,
        dif_pos rfl]
  unfold ZlibLibrary.compress
  rw [hwrite]
  rfl

/-- **The library does what is documented.** -/
theorem library_documented : library.Documented IsStream where
  compresses _ payload := ⟨_, compress_library _ payload, isStream_compress _ payload⟩
  delivers := delivers_of_isStream
  ends {data out d} hruns hend := by
    obtain ⟨hstop, hdrop⟩ := stop_of_atEnd hruns hend
    rw [show library.decoder data = Decoder.ofData data from rfl, place_ofData, List.drop_zero] at hdrop
    exact ⟨hstop, hdrop⟩

end Wordcode.Deflate
