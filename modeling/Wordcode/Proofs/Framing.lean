import Mathlib.Data.List.TakeWhile
import Wordcode.Container

/-! # The frame of a container

A byte string is a marker, a length and compressed bytes, or it ends within its length, or it has another
start (`frame_cases`); loading treats each of the three in one way (`load_frame`, `load_cut`,
`load_unmarked`). So the outcome of loading tells which of them a string is, whatever the codec does
(`loading_follows_frame`). -/

namespace Wordcode.Container

variable {ε : Type} {codec : Codec ε} {bytes rest : Bytes} {n : Nat}

/-! ### Lengths of four bytes -/

theorem ofLittleEndian32_bytes {n : Nat} (h : n < UInt32.size) :
    ofLittleEndian32 (.ofNat n) (.ofNat (n / 256)) (.ofNat (n / 65536)) (.ofNat (n / 16777216)) = n := by
  have hsize : UInt32.size = 4294967296 := rfl
  simp only [ofLittleEndian32, UInt8.toNat_ofNat']
  omega

theorem ofLittleEndian32_lt (a b c d : UInt8) : ofLittleEndian32 a b c d < UInt32.size := by
  have ha := a.toNat_lt
  have hb := b.toNat_lt
  have hc := c.toNat_lt
  have hd := d.toNat_lt
  simp only [ofLittleEndian32, UInt32.size]
  omega

/-- Every four bytes are those of the number they stand for. -/
theorem littleEndian32_ofLittleEndian32 (a b c d : UInt8) :
    littleEndian32 (ofLittleEndian32 a b c d) = [a, b, c, d] := by
  have ha := a.toNat_lt
  have hb := b.toNat_lt
  have hc := c.toNat_lt
  have hd := d.toNat_lt
  have hbyte : ∀ {m : Nat} (x : UInt8), m % 256 = x.toNat → UInt8.ofNat m = x := fun x h => by
    rw [← UInt8.toNat_inj, UInt8.toNat_ofNat', ← h]
  unfold littleEndian32 ofLittleEndian32
  rw [hbyte a (by omega), hbyte b (by omega), hbyte c (by omega), hbyte d (by omega)]

/-! ### The three kinds of byte strings -/

/-- A byte string is a whole frame, or is cut off in its length, or does not start with the marker. -/
theorem frame_cases (bytes : Bytes) :
    (∃ n rest, n < UInt32.size ∧ bytes = magic ++ littleEndian32 n ++ rest) ∨
      (magic <+: bytes ∧ bytes.length < 8) ∨ ¬ magic <+: bytes := by
  by_cases hmagic : magic <+: bytes
  · obtain ⟨tail, rfl⟩ := hmagic
    match tail with
    | a :: b :: c :: d :: rest =>
      refine .inl ⟨_, rest, ofLittleEndian32_lt a b c d, ?_⟩
      rw [littleEndian32_ofLittleEndian32, List.append_assoc]
      rfl
    | [] | [_] | [_, _] | [_, _, _] => exact .inr (.inl ⟨List.prefix_append _ _, by simp [magic]⟩)
  · exact .inr (.inr hmagic)

theorem take_eq_magic_iff : bytes.take magic.length = magic ↔ magic <+: bytes := by
  rw [List.prefix_iff_eq_take, eq_comm]

theorem load_frame (codec : Codec ε) (hn : n < UInt32.size) (rest : Bytes) :
    load codec (magic ++ littleEndian32 n ++ rest) = (codec.decompress rest n).mapError .decompress := by
  rw [load, if_neg (fun h => h rfl)]
  show (codec.decompress rest (ofLittleEndian32 _ _ _ _)).mapError _ = _
  rw [ofLittleEndian32_bytes hn]

theorem load_cut (codec : Codec ε) (hmagic : magic <+: bytes) (hlen : bytes.length < 8) :
    load codec bytes = .error (.truncated bytes.length) := by
  rw [load, if_neg (not_not_intro (take_eq_magic_iff.mpr hmagic))]
  obtain ⟨tail, rfl⟩ := hmagic
  match tail with
  | [] | [_] | [_, _] | [_, _, _] => rfl
  | _ :: _ :: _ :: _ :: _ => simp [magic] at hlen; omega

theorem load_unmarked (codec : Codec ε) (hmagic : ¬ magic <+: bytes) :
    load codec bytes = .error .badMagic := by
  rw [load, if_pos (mt take_eq_magic_iff.mp hmagic)]

/-! ### Outcomes of loading -/

theorem load_ok_iff {payload : Bytes} : load codec bytes = .ok payload ↔
    ∃ n rest, n < UInt32.size ∧ bytes = magic ++ littleEndian32 n ++ rest ∧
      codec.decompress rest n = .ok payload := by
  constructor
  · intro h
    rcases frame_cases bytes with ⟨n, rest, hn, rfl⟩ | ⟨hmagic, hlen⟩ | hmagic
    · rw [load_frame codec hn] at h
      refine ⟨n, rest, hn, rfl, ?_⟩
      cases hd : codec.decompress rest n with
      | ok raw => rw [hd] at h; exact congrArg _ (Except.ok.inj h)
      | error cause => rw [hd] at h; cases h
    · rw [load_cut codec hmagic hlen] at h
      cases h
    · rw [load_unmarked codec hmagic] at h
      cases h
  · rintro ⟨n, rest, hn, rfl, hd⟩
    rw [load_frame codec hn, hd]
    rfl

theorem load_error {fault : ContainerFault ε} (h : load codec bytes = .error fault) :
    (fault = .badMagic ∧ ¬ magic <+: bytes) ∨
      (fault = .truncated bytes.length ∧ magic <+: bytes ∧ bytes.length < 8) ∨
        ∃ n rest cause, n < UInt32.size ∧ bytes = magic ++ littleEndian32 n ++ rest ∧
          codec.decompress rest n = .error cause ∧ fault = .decompress cause := by
  rcases frame_cases bytes with ⟨n, rest, hn, rfl⟩ | ⟨hmagic, hlen⟩ | hmagic
  · rw [load_frame codec hn] at h
    cases hd : codec.decompress rest n with
    | ok raw => rw [hd] at h; cases h
    | error cause =>
      rw [hd] at h
      exact .inr (.inr ⟨n, rest, cause, hn, rfl, hd, (Except.error.inj h).symm⟩)
  · rw [load_cut codec hmagic hlen] at h
    exact .inr (.inl ⟨(Except.error.inj h).symm, hmagic, hlen⟩)
  · rw [load_unmarked codec hmagic] at h
    exact .inl ⟨(Except.error.inj h).symm, hmagic⟩

theorem load_badMagic_iff : load codec bytes = .error .badMagic ↔ ¬ magic <+: bytes := by
  refine ⟨fun h => ?_, load_unmarked codec⟩
  rcases load_error h with ⟨-, hmagic⟩ | ⟨hfault, -⟩ | ⟨_, _, _, -, -, -, hfault⟩
  · exact hmagic
  · cases hfault
  · cases hfault

theorem load_truncated_iff {size : Nat} : load codec bytes = .error (.truncated size) ↔
    size = bytes.length ∧ magic <+: bytes ∧ bytes.length < 8 := by
  constructor
  · intro h
    rcases load_error h with ⟨hfault, -⟩ | ⟨hfault, hmagic, hlen⟩ | ⟨_, _, _, -, -, -, hfault⟩
    · cases hfault
    · exact ⟨ContainerFault.truncated.inj hfault, hmagic, hlen⟩
    · cases hfault
  · rintro ⟨rfl, hmagic, hlen⟩
    exact load_cut codec hmagic hlen

theorem not_magic_prefix_iff : ¬ magic <+: bytes ↔ bytes.length < 4 ∨ bytes.take 4 ≠ magic := by
  rw [← take_eq_magic_iff]
  constructor
  · exact .inr
  · rintro (hlen | h) hmagic
    · have := congrArg List.length hmagic
      simp only [List.length_take, magic, List.length_cons, List.length_nil] at this
      omega
    · exact h hmagic

/-! ### Saving -/

theorem save_ok_iff {payload : Bytes} : save codec payload = .ok bytes ↔
    payload.length < UInt32.size ∧ ∃ compressed, codec.compress payload = .ok compressed ∧
      bytes = magic ++ littleEndian32 payload.length ++ compressed := by
  unfold save
  split_ifs with hsize
  · refine iff_of_false (by simp [throw, throwThe, MonadExceptOf.throw, bind, Except.bind]) ?_
    omega
  · cases codec.compress payload <;>
      simp [Nat.lt_of_not_le hsize, Except.mapError, bind, Except.bind, pure, Except.pure, eq_comm]

theorem load_save_of_decompress {payload compressed : Bytes} (hsize : payload.length < UInt32.size)
    (hcompress : codec.compress payload = .ok compressed)
    (hdecompress : codec.decompress compressed payload.length = .ok payload) :
    ∃ bytes, save codec payload = .ok bytes ∧ load codec bytes = .ok payload :=
  ⟨_, save_ok_iff.mpr ⟨hsize, compressed, hcompress, rfl⟩,
    load_ok_iff.mpr ⟨_, compressed, hsize, rfl, hdecompress⟩⟩

/-- **Loading follows the frame**, for any codec. A payload that the codec gives back is loaded as it was
saved. A load succeeds with what the codec makes of the bytes behind a whole frame, it misses the marker or
the length exactly where they are missing, and every other fault is one of the codec. A saved container
whose marker is changed in any way is not loaded. -/
theorem loading_follows_frame (codec : Codec ε) :
    (∀ payload compressed, payload.length < UInt32.size → codec.compress payload = .ok compressed →
      codec.decompress compressed payload.length = .ok payload →
        ∃ bytes, save codec payload = .ok bytes ∧ load codec bytes = .ok payload) ∧
    (∀ bytes payload, load codec bytes = .ok payload ↔
      ∃ n rest, n < UInt32.size ∧ bytes = magic ++ littleEndian32 n ++ rest ∧
        codec.decompress rest n = .ok payload) ∧
    (∀ bytes, load codec bytes = .error .badMagic ↔ bytes.length < 4 ∨ bytes.take 4 ≠ magic) ∧
    (∀ bytes size, load codec bytes = .error (.truncated size) ↔
      size = bytes.length ∧ magic <+: bytes ∧ bytes.length < 8) ∧
    (∀ bytes fault, load codec bytes = .error fault → fault ≠ .badMagic →
      fault ≠ .truncated bytes.length →
        ∃ n rest cause, n < UInt32.size ∧ bytes = magic ++ littleEndian32 n ++ rest ∧
          codec.decompress rest n = .error cause ∧ fault = .decompress cause) ∧
    (∀ payload bytes start, save codec payload = .ok bytes → start.length = 4 →
      start ≠ bytes.take 4 → load codec (start ++ bytes.drop 4) = .error .badMagic) := by
  refine ⟨fun payload compressed => load_save_of_decompress, fun _ _ => load_ok_iff,
    fun _ => load_badMagic_iff.trans not_magic_prefix_iff, fun _ _ => load_truncated_iff, ?_, ?_⟩
  · intro bytes fault h hbad htruncated
    rcases load_error h with ⟨hfault, -⟩ | ⟨hfault, -⟩ | hcodec
    · exact absurd hfault hbad
    · exact absurd hfault htruncated
    · exact hcodec
  · intro payload bytes start hsave hlen hne
    obtain ⟨-, compressed, -, rfl⟩ := save_ok_iff.mp hsave
    refine load_unmarked codec fun hmagic => hne ?_
    have htake : (start ++ _).take 4 = magic := take_eq_magic_iff.mpr hmagic
    rw [List.take_left' hlen] at htake
    exact htake

/-- The codec that leaves payloads as they are. -/
def plainCodec : Codec Unit where
  compress := .ok
  decompress bytes n := if bytes.length = n then .ok bytes else .error ()

/-- A payload of two bytes is loaded; it is not with another marker or without its length, and the codec
refuses it with a length of three bytes. -/
theorem loading_follows_frame_plain :
    (∃ bytes, save plainCodec [7, 9] = .ok bytes ∧ load plainCodec bytes = .ok [7, 9]) ∧
      save plainCodec [7, 9] = .ok (magic ++ [2, 0, 0, 0, 7, 9]) ∧
      load plainCodec ([0xA5, 0x74, 0xEF, 0x18] ++ [2, 0, 0, 0, 7, 9]) = .error .badMagic ∧
      load plainCodec (magic ++ [2, 0]) = .error (.truncated 6) ∧
      ∃ n rest, magic ++ [3, 0, 0, 0, 7, 9] = magic ++ littleEndian32 n ++ rest ∧
        plainCodec.decompress rest n = .error () := by
  obtain ⟨hsaved, -, -, htruncated, hcodec, hchanged⟩ := loading_follows_frame plainCodec
  have hsave : save plainCodec [7, 9] = .ok (magic ++ [2, 0, 0, 0, 7, 9]) := rfl
  refine ⟨hsaved [7, 9] [7, 9] (by decide) rfl rfl, hsave,
    hchanged [7, 9] _ [0xA5, 0x74, 0xEF, 0x18] hsave rfl (by decide),
    (htruncated _ 6).mpr (by decide), ?_⟩
  obtain ⟨n, rest, _, -, hframe, hcause, -⟩ :=
    hcodec (magic ++ [3, 0, 0, 0, 7, 9]) (.decompress ()) rfl (by simp) (by simp)
  exact ⟨n, rest, hframe, hcause⟩

end Wordcode.Container
