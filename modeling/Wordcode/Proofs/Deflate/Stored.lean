import Mathlib.Tactic.Ring
import Mathlib.Tactic.Set
import Mathlib.Tactic.SplitIfs
import Wordcode.Deflate.Zlib

/-! # Reading stored streams

A compressed stream is read as the bytes it was made of, at every level (`zlib_compress`). Its blocks are
stored, so from the start of a byte on it is read byte by byte (`passes_byte`). -/

namespace Wordcode.Deflate

variable {α β : Type} {a : α} {b : UInt8} {bits : List Bool} {bytes rest : Bytes} {taken mark n : Nat}
  {output : List UInt8}

/-- The progress of a run at the start of a byte. -/
def Progress.between (bytes : Bytes) (taken : Nat) (output : List UInt8) (mark : Nat) : Progress :=
  ⟨⟨[], bytes, taken⟩, output.toArray, mark⟩

/-- The step gives `a`. Wherever the bytes stand in the input, it reads up to `rest`, and the output becomes
`output'`. -/
def Passes (step : Inflater α) (a : α) (bytes rest : Bytes) (output output' : List UInt8) : Prop :=
  ∀ taken mark, ∃ taken' mark',
    step (.between bytes taken output mark) = .ok a (.between rest taken' output' mark')

open Inflater

namespace Inflater

theorem bind_ok {x : Inflater α} {f : α → Inflater β} {s s' : Progress} {a : α} (h : x s = .ok a s') :
    (x >>= f) s = f a s' := by
  show EStateM.bind x f s = _
  rw [EStateM.bind, h]

theorem passes_pure (a : α) : Passes (pure a) a bytes bytes output output :=
  fun taken mark => ⟨taken, mark, rfl⟩

end Inflater

theorem Passes.bind {step : Inflater α} {f : α → Inflater β} {b : β} {rest' : Bytes} {output' output'' : List UInt8}
    (h : Passes step a bytes rest output output') (h' : Passes (f a) b rest rest' output' output'') :
    Passes (step >>= f) b bytes rest' output output'' := by
  intro taken mark
  obtain ⟨_, _, hstep⟩ := h taken mark
  obtain ⟨_, _, hf⟩ := h' _ _
  exact ⟨_, _, (bind_ok hstep).trans hf⟩

namespace Inflater

/-! ### Bits and bytes -/

/-- The number that bits stand for, the lowest first. -/
def valueOf : List Bool → Nat
  | [] => 0
  | b :: bits => b.toNat + 2 * valueOf bits

theorem valueOf_bitsOf (b : UInt8) : valueOf (bitsOf b) = b.toNat := by
  have hall : ∀ n < 256, valueOf ((List.range 8).map n.testBit) = n := by decide +kernel
  exact hall _ b.toNat_lt

theorem number_bits : ∀ (bits more : List Bool) (output : Array UInt8),
    number bits.length ⟨⟨bits ++ more, bytes, taken⟩, output, mark⟩ =
      .ok (valueOf bits) ⟨⟨more, bytes, taken⟩, output, mark⟩
  | [], _, _ => rfl
  | b :: bits, more, output => by
    have hbit : bit ⟨⟨b :: bits ++ more, bytes, taken⟩, output, mark⟩ =
      .ok b.toNat ⟨⟨bits ++ more, bytes, taken⟩, output, mark⟩ := rfl
    rw [List.length_cons, number, bind_ok hbit, bind_ok (number_bits bits more output)]
    rfl

theorem number_succ_congr {s s' : Progress} (h : bit s = bit s') :
    number (n + 1) s = number (n + 1) s' := by
  rw [number]
  show EStateM.bind bit _ s = EStateM.bind bit _ s'
  rw [EStateM.bind, EStateM.bind, h]

/-- The first bit of a byte may start a piece; then the output so far is noted. -/
theorem bit_between (b : UInt8) (bytes : Bytes) (taken : Nat) (output : List UInt8) (mark : Nat) :
    ∃ mark', bit (.between (b :: bytes) taken output mark) =
      bit ⟨⟨bitsOf b, bytes, taken + 1⟩, output.toArray, mark'⟩ := ⟨_, rfl⟩

theorem passes_byte : Passes (number 8) b.toNat (b :: rest) rest output output := by
  intro taken mark
  obtain ⟨mark', hbit⟩ := bit_between b rest taken output mark
  refine ⟨taken + 1, mark', ?_⟩
  rw [number_succ_congr hbit, ← List.append_nil (bitsOf b)]
  exact (number_bits (bitsOf b) [] _).trans (by rw [valueOf_bitsOf]; rfl)

theorem number_add (m n : Nat) : number (m + n) = (do
    let low ← number m
    let high ← number n
    pure (low + 2 ^ m * high)) := by
  induction m with
  | zero => simp only [number, pure_bind, Nat.zero_add, Nat.pow_zero, Nat.one_mul, bind_pure]
  | succ m ih =>
    rw [Nat.succ_add, number, ih, number]
    simp only [bind_assoc, pure_bind]
    refine bind_congr fun low => bind_congr fun middle => bind_congr fun high => ?_
    congr 1
    ring

theorem passes_littleEndian16 (hn : n < 65536) :
    Passes (number 16) n (littleEndian16 n ++ rest) rest output output := by
  have hvalue : (UInt8.ofNat n).toNat + 2 ^ 8 * (UInt8.ofNat (n / 256)).toNat = n := by
    simp only [UInt8.toNat_ofNat']
    omega
  have hpasses : Passes (do
      let low ← number 8
      let high ← number 8
      pure (low + 2 ^ 8 * high)) _ (littleEndian16 n ++ rest) rest output output :=
    passes_byte.bind (passes_byte.bind (passes_pure _))
  rw [hvalue] at hpasses
  rwa [show number 16 = _ from number_add 8 8]

/-! ### Stored bytes -/

theorem passes_emit (b : UInt8) : Passes (emit b) () bytes bytes output (output ++ [b]) := fun taken mark =>
  ⟨taken, mark, congrArg (EStateM.Result.ok ()) (by simp only [Progress.between, List.push_toArray])⟩

theorem passes_store : ∀ (bytes : Bytes) (output : List UInt8),
    Passes (store bytes.length) () (bytes ++ rest) rest output (output ++ bytes)
  | [], output => by
    rw [List.append_nil]
    exact passes_pure ()
  | b :: bytes, output => by
    have hemit : Passes (emit (.ofNat b.toNat)) () (bytes ++ rest) (bytes ++ rest) output (output ++ [b]) := by
      rw [UInt8.ofNat_toNat]
      exact passes_emit b
    have hrest := passes_store bytes (output ++ [b])
    rw [List.append_assoc] at hrest
    exact passes_byte.bind (hemit.bind hrest)

end Inflater

/-! ### Blocks -/

/-- What is left of the byte in front of the length of a block is dropped. -/
theorem storedBlock_stored (bits : List Bool) (taken mark : Nat) (hlength : bytes.length ≤ maxStored) :
    ∃ taken' mark', storedBlock ⟨⟨bits, littleEndian16 bytes.length ++ (littleEndian16 (maxStored - bytes.length) ++
        (bytes ++ rest)), taken⟩, output.toArray, mark⟩ =
      .ok () (.between rest taken' (output ++ bytes) mark') := by
  have halign : align ⟨⟨bits, littleEndian16 bytes.length ++ (littleEndian16 (maxStored - bytes.length) ++
      (bytes ++ rest)), taken⟩, output.toArray, mark⟩ =
      .ok () (.between (littleEndian16 bytes.length ++ (littleEndian16 (maxStored - bytes.length) ++
        (bytes ++ rest))) taken output mark) := rfl
  have hmax : maxStored = 65535 := rfl
  obtain ⟨taken₁, mark₁, hcount⟩ := passes_littleEndian16 (n := bytes.length) (by omega) taken mark
  obtain ⟨taken₂, mark₂, hcomplement⟩ :=
    passes_littleEndian16 (n := maxStored - bytes.length) (by omega) taken₁ mark₁
  obtain ⟨taken', mark', hstore⟩ := passes_store bytes output taken₂ mark₂
  refine ⟨taken', mark', ?_⟩
  rw [storedBlock, bind_ok halign, bind_ok hcount, bind_ok hcomplement, if_neg (by omega)]
  exact hstore

/-- The first byte of a stored block holds three bits, which say whether it is the last one and that it is
stored. -/
theorem blocks_stored {bound : Nat} {isLast : Bool} (hlength : bytes.length ≤ maxStored) (taken mark : Nat) :
    ∃ taken' mark', blocks bound (n + 1) (.between (stored isLast bytes ++ rest) taken output mark) =
      if isLast then .ok () (.between rest taken' (output ++ bytes) mark')
      else blocks bound n (.between rest taken' (output ++ bytes) mark') := by
  set contents := littleEndian16 bytes.length ++ (littleEndian16 (maxStored - bytes.length) ++
    (bytes ++ rest)) with hcontents
  have hstored : stored isLast bytes ++ rest = (if isLast then 1 else 0) :: contents := by
    simp only [stored, hcontents, List.cons_append, List.append_assoc]
  obtain ⟨mark₁, hfinal⟩ : ∃ mark₁, bit (.between (stored isLast bytes ++ rest) taken output mark) =
      .ok isLast.toNat ⟨⟨List.replicate 7 false, contents, taken + 1⟩, output.toArray, mark₁⟩ := by
    rw [hstored]
    obtain ⟨mark₁, hbit⟩ := bit_between (if isLast then 1 else 0) contents taken output mark
    refine ⟨mark₁, hbit.trans ?_⟩
    cases isLast <;> rfl
  have htype : number 2 ⟨⟨List.replicate 7 false, contents, taken + 1⟩, output.toArray, mark₁⟩ =
      .ok 0 ⟨⟨List.replicate 5 false, contents, taken + 1⟩, output.toArray, mark₁⟩ := rfl
  obtain ⟨taken', mark', hblock⟩ := storedBlock_stored (List.replicate 5 false) (taken + 1) mark₁ hlength
  refine ⟨taken', mark', ?_⟩
  have hblock' : block bound 0 ⟨⟨List.replicate 5 false, contents, taken + 1⟩, output.toArray, mark₁⟩ =
      .ok () (.between rest taken' (output ++ bytes) mark') := by
    rw [block, if_pos rfl]
    exact hblock
  rw [blocks, bind_ok hfinal, bind_ok htype, bind_ok hblock']
  cases isLast <;> rfl

theorem passes_storedBlocks {bound : Nat} : ∀ (k : Nat) (bytes : Bytes) (n : Nat) (output : List UInt8),
    bytes.length ≤ k → (storedBlocks k bytes).length < n →
    Passes (blocks bound n) () (storedBlocks k bytes ++ rest) rest output (output ++ bytes)
  | _, _, 0, _, _, hn => absurd hn (Nat.not_lt_zero _)
  | 0, bytes, n + 1, output, hk, _ => blocks_stored (Nat.le_trans hk (Nat.zero_le _))
  | k + 1, bytes, n + 1, output, hk, hn => by
    rw [storedBlocks] at hn ⊢
    split_ifs at hn ⊢ with hlast
    · exact blocks_stored hlast
    · have htake : (bytes.take maxStored).length = maxStored := by
        rw [List.length_take]
        omega
      have hdrop : (bytes.drop maxStored).length = bytes.length - maxStored := List.length_drop
      have hmax : maxStored = 65535 := rfl
      have hfirst : (stored false (bytes.take maxStored)).length = 5 + maxStored := by
        simp [stored, littleEndian16, htake]
        omega
      rw [List.length_append, hfirst] at hn
      intro taken mark
      obtain ⟨taken₁, mark₁, hblock⟩ : ∃ taken₁ mark₁, blocks bound (n + 1)
          (.between (stored false (bytes.take maxStored) ++ (storedBlocks k (bytes.drop maxStored) ++ rest)) taken
            output mark) = _ := blocks_stored htake.le taken mark
      obtain ⟨taken', mark', hrest⟩ := passes_storedBlocks k (bytes.drop maxStored) n
        (output ++ bytes.take maxStored) (by omega) (by omega) taken₁ mark₁
      refine ⟨taken', mark', ?_⟩
      rw [List.append_assoc, hblock, if_neg (by decide), hrest, List.append_assoc, List.take_append_drop]

/-! ### Streams -/

theorem adler32_lt (bytes : Bytes) : adler32 bytes < 4294967296 := by
  have hbound : ∀ sum : Nat, sum % 65521 < 65521 := fun sum => Nat.mod_lt sum (by decide)
  have hstart : ((1, 0) : Nat × Nat).1 < 65521 ∧ ((1, 0) : Nat × Nat).2 < 65521 := by decide
  rw [adler32]
  generalize hsums : bytes.foldl _ _ = sums
  have hbounds : sums.1 < 65521 ∧ sums.2 < 65521 := by
    rw [← hsums]
    exact List.foldlRecOn (motive := fun sums : Nat × Nat => sums.1 < 65521 ∧ sums.2 < 65521)
      bytes _ hstart fun _ _ _ _ => ⟨hbound _, hbound _⟩
  dsimp only
  omega

theorem passes_bigEndian32 (hn : n < 4294967296) :
    Passes bigEndian32 n [.ofNat (n / 16777216), .ofNat (n / 65536), .ofNat (n / 256), .ofNat n] []
      output output := by
  have hvalue : (((UInt8.ofNat (n / 16777216)).toNat * 256 + (UInt8.ofNat (n / 65536)).toNat) * 256 +
      (UInt8.ofNat (n / 256)).toNat) * 256 + (UInt8.ofNat n).toNat = n := by
    simp only [UInt8.toNat_ofNat']
    omega
  have hpasses : Passes bigEndian32 _ [.ofNat (n / 16777216), .ofNat (n / 65536), .ofNat (n / 256), .ofNat n]
      [] output output :=
    passes_byte.bind (passes_byte.bind (passes_byte.bind (passes_byte.bind (passes_pure _))))
  rwa [hvalue] at hpasses

/-- The flags of every level make the header divisible by 31. -/
theorem passes_header (level : Nat) : Passes header () (headerBytes level ++ rest) rest output output := by
  have hvalid : ∀ flags : UInt8, flags = 0x01 ∨ flags = 0x5E ∨ flags = 0x9C ∨ flags = 0xDA →
      ¬((0x78 : UInt8).toNat % 16 ≠ 8 ∨ 7 < (0x78 : UInt8).toNat / 16 ∨ flags.toNat.testBit 5 ∨
        ((0x78 : UInt8).toNat * 256 + flags.toNat) % 31 ≠ 0) := by
    rintro _ (rfl | rfl | rfl | rfl) <;> decide
  obtain ⟨flags, hflags, hbytes⟩ : ∃ flags : UInt8, (flags = 0x01 ∨ flags = 0x5E ∨ flags = 0x9C ∨
      flags = 0xDA) ∧ headerBytes level = [0x78, flags] := by
    refine ⟨_, ?_, rfl⟩
    split_ifs <;> simp
  rw [hbytes, header]
  refine passes_byte.bind (passes_byte.bind ?_)
  rw [if_neg (hvalid flags hflags)]
  exact passes_pure ()

theorem passes_align : Passes align () bytes bytes output output := fun taken mark => ⟨taken, mark, rfl⟩

/-- **What is compressed is decompressed again**, at every level. -/
theorem zlib_compress (level : Nat) (bytes : Bytes) : ∃ s : Progress,
    zlib (8 * (compress level bytes).length) ⟨.ofBytes (compress level bytes), #[], 0⟩ = .ok () s ∧
      s.output.toList = bytes := by
  set data := compress level bytes with hdata
  set checksum : Bytes := [.ofNat (adler32 bytes / 16777216), .ofNat (adler32 bytes / 65536),
    .ofNat (adler32 bytes / 256), .ofNat (adler32 bytes)] with hchecksum
  have hsplit : data = headerBytes level ++ (storedBlocks bytes.length bytes ++ checksum) := by
    rw [hdata, compress, List.append_assoc]
  have hblocks : Passes (inflate (8 * data.length)) () (storedBlocks bytes.length bytes ++ checksum) checksum
      [] bytes := by
    refine passes_storedBlocks bytes.length bytes _ [] (Nat.le_refl _) ?_
    rw [hsplit, List.length_append, List.length_append]
    omega
  have hend : Passes (do
      let sum ← bigEndian32
      if sum ≠ adler32 (← get).output.toList then throw .corrupt) () checksum [] bytes bytes := by
    refine (passes_bigEndian32 (adler32_lt bytes)).bind fun taken mark => ⟨taken, mark, ?_⟩
    have hget : (get : Inflater Progress) (.between [] taken bytes mark) =
        .ok (.between [] taken bytes mark) (.between [] taken bytes mark) := rfl
    have hsame : ¬adler32 bytes ≠ adler32 (Progress.between [] taken bytes mark).output.toList := fun h => h rfl
    rw [bind_ok hget, if_neg hsame]
    rfl
  have hzlib : Passes (zlib (8 * data.length)) () data [] [] bytes := by
    rw [zlib, hsplit]
    exact (passes_header level).bind ((hsplit ▸ hblocks).bind (passes_align.bind hend))
  obtain ⟨taken, mark, hrun⟩ := hzlib 0 0
  exact ⟨_, hrun, rfl⟩

end Wordcode.Deflate
