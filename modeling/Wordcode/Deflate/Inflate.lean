import Wordcode.Deflate.Huffman

/-! # Decompression

A deflate stream is a sequence of blocks, the last one marked. A block is stored as it is or coded by
two prefix codes, one for literals and lengths and one for distances, which are fixed or described in
front of the block. -/

namespace Wordcode.Deflate

/-! ### Lengths and distances -/

/-- The least length of each length symbol from 257 on, and the number of bits that add to it. -/
def lengthTable : Array (Nat × Nat) :=
  #[(3, 0), (4, 0), (5, 0), (6, 0), (7, 0), (8, 0), (9, 0), (10, 0), (11, 1), (13, 1), (15, 1),
    (17, 1), (19, 2), (23, 2), (27, 2), (31, 2), (35, 3), (43, 3), (51, 3), (59, 3), (67, 4),
    (83, 4), (99, 4), (115, 4), (131, 5), (163, 5), (195, 5), (227, 5), (258, 0)]

/-- The least distance of each distance symbol, and the number of bits that add to it. -/
def distanceTable : Array (Nat × Nat) :=
  #[(1, 0), (2, 0), (3, 0), (4, 0), (5, 1), (7, 1), (9, 2), (13, 2), (17, 3), (25, 3), (33, 4),
    (49, 4), (65, 5), (97, 5), (129, 6), (193, 6), (257, 7), (385, 7), (513, 8), (769, 8),
    (1025, 9), (1537, 9), (2049, 10), (3073, 10), (4097, 11), (6145, 11), (8193, 12), (12289, 12),
    (16385, 13), (24577, 13)]

/-- The number that a symbol and the bits after it stand for. -/
def tableNumber (table : Array (Nat × Nat)) (symbol : Nat) : Inflater Nat := do
  match table[symbol]? with
  | none => throw .corrupt
  | some (least, bits) => pure (least + (← Inflater.number bits))

/-- The end of a block among the symbols. -/
def endOfBlock : Nat := 256

/-- The contents of a coded block: at most `bound` symbols, each of which takes up one bit at least. -/
def symbols (literals distances : PrefixCode) : Nat → Inflater Unit
  | 0 => throw .truncated
  | bound + 1 => do
    let symbol ← literals.read
    if symbol = endOfBlock then pure ()
    else
      if symbol < endOfBlock then Inflater.emit (.ofNat symbol)
      else
        let length ← tableNumber lengthTable (symbol - 257)
        let distance ← tableNumber distanceTable (← distances.read)
        Inflater.copy distance length
      symbols literals distances bound

/-! ### The codes of a block -/

/-- The fixed code of literals and lengths. -/
def fixedLiterals : PrefixCode :=
  .ofLengths (List.replicate 144 8 ++ List.replicate 112 9 ++ List.replicate 24 7 ++
    List.replicate 8 8)

/-- The fixed code of distances. -/
def fixedDistances : PrefixCode := .ofLengths (List.replicate 32 5)

/-- The order in which the word lengths of the code for word lengths are given. -/
def lengthOrder : List Nat := [16, 17, 18, 0, 8, 7, 9, 6, 10, 5, 11, 4, 12, 3, 13, 2, 14, 1, 15]

/-- The word lengths of the code for word lengths, from the first `n` in their order. -/
def lengthCodeLengths (n : Nat) : Inflater (List Nat) := do
  let given ← (lengthOrder.take n).mapM fun symbol => do pure (symbol, ← Inflater.number 3)
  pure ((List.range 19).map fun symbol => (given.lookup symbol).getD 0)

/-- Word lengths up to `total` of them, the last one first. A symbol is a length, or it repeats the
last length or zero. -/
def wordLengths (code : PrefixCode) (total : Nat) : Nat → List Nat → Inflater (List Nat)
  | 0, _ => throw .corrupt
  | bound + 1, done =>
    if done.length = total then pure done
    else if total < done.length then throw .corrupt
    else do
      let symbol ← code.read
      if symbol < 16 then wordLengths code total bound (symbol :: done)
      else if symbol = 16 then
        match done with
        | [] => throw .corrupt
        | last :: _ =>
          let n ← Inflater.number 2
          wordLengths code total bound (List.replicate (n + 3) last ++ done)
      else
        let n ← if symbol = 17 then (· + 3) <$> Inflater.number 3
          else (· + 11) <$> Inflater.number 7
        wordLengths code total bound (List.replicate n 0 ++ done)

/-- The code of these word lengths, if it can be used: it is complete or trivial. -/
def usableCode (lengths : List Nat) : Inflater PrefixCode :=
  let code := PrefixCode.ofLengths lengths
  if code.isComplete || code.isTrivial then pure code else throw .corrupt

/-- The codes described in front of a block. -/
def describedCodes : Inflater (PrefixCode × PrefixCode) := do
  let literalCount := 257 + (← Inflater.number 5)
  let distanceCount := 1 + (← Inflater.number 5)
  let lengthCount := 4 + (← Inflater.number 4)
  if 286 < literalCount ∨ 30 < distanceCount then throw .corrupt
  let lengthCode := PrefixCode.ofLengths (← lengthCodeLengths lengthCount)
  if !lengthCode.isComplete then throw .corrupt
  let total := literalCount + distanceCount
  let lengths := (← wordLengths lengthCode total (total + 1) []).reverse
  pure (← usableCode (lengths.take literalCount), ← usableCode (lengths.drop literalCount))

/-! ### Blocks -/

/-- A stored block: its length, the complement of it, and the bytes. -/
def storedBlock : Inflater Unit := do
  Inflater.align
  let length ← Inflater.number 16
  let complement ← Inflater.number 16
  if length + complement ≠ 0xFFFF then throw .corrupt
  Inflater.store length

/-- One block of this type, with at most `bound` symbols. -/
def block (bound type : Nat) : Inflater Unit := do
  if type = 0 then storedBlock
  else if type = 1 then symbols fixedLiterals fixedDistances bound
  else if type = 2 then
    let (literals, distances) ← describedCodes
    symbols literals distances bound
  else throw .corrupt

/-- Blocks up to the last one, at most as many as the second number. -/
def blocks (bound : Nat) : Nat → Inflater Unit
  | 0 => throw .truncated
  | n + 1 => do
    let final ← Inflater.bit
    block bound (← Inflater.number 2)
    if final = 1 then pure () else blocks bound n

/-- Decompresses a deflate stream, where the input has at most `bound` bits. -/
def inflate (bound : Nat) : Inflater Unit := blocks (bound + 1) (bound + 1)

end Wordcode.Deflate
