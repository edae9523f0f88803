import Wordcode.Deflate.Bits

/-! # Canonical prefix codes

A code is given by the length of each symbol's code word alone: shorter words come first, words of
one length are consecutive in the order of their symbols. The reader therefore needs only how many
words there are of each length and the symbols in order of their words.

A code in use is complete, or it has no word or just one of a single bit. So bits that are no word
are noticed at once. -/

namespace Wordcode.Deflate

/-- A canonical code. -/
structure PrefixCode where
  /-- The number of words of length 1, 2, … up to the longest. -/
  counts : List Nat
  /-- The symbols in the order of their words. -/
  symbols : Array Nat

namespace PrefixCode

/-- The length of the longest word. A code without words is taken to have one-bit words, none of them
in use. -/
def longest (lengths : List Nat) : Nat := lengths.foldl max 1

/-- The symbols whose words have this length. -/
def symbolsOfLength (lengths : List Nat) (length : Nat) : List Nat :=
  (lengths.zipIdx.filter (·.1 == length)).map (·.2)

/-- The code of these word lengths, where length zero stands for no word. -/
def ofLengths (lengths : List Nat) : PrefixCode :=
  let groups := (List.range (longest lengths)).map fun i => symbolsOfLength lengths (i + 1)
  ⟨groups.map (·.length), groups.flatten.toArray⟩

/-- The part of all words of the greatest length that starts with a word of the code. -/
def coverage (code : PrefixCode) : Nat := code.counts.foldl (fun n count => 2 * n + count) 0

/-- Whether each long enough sequence of bits starts with exactly one word. -/
def isComplete (code : PrefixCode) : Bool := code.coverage == 1 <<< code.counts.length

/-- Whether the code has no word, or just one of a single bit. -/
def isTrivial (code : PrefixCode) : Bool := code.counts == [0] || code.counts == [1]

/-- Reads the rest of a word. Of the words as long as what was read, the first is `first` and has
position `index`; `value` is what was read, with room for the next bit. -/
def readFrom (symbols : Array Nat) : List Nat → Nat → Nat → Nat → Inflater Nat
  | [], _, _, _ => throw .corrupt
  | count :: counts, value, first, index => do
    let value := value + (← Inflater.bit)
    if value < first + count then pure (symbols.getD (index + (value - first)) 0)
    else readFrom symbols counts (2 * value) (2 * (first + count)) (index + count)

/-- Reads a word and returns its symbol. -/
def read (code : PrefixCode) : Inflater Nat := readFrom code.symbols code.counts 0 0 0

end PrefixCode

end Wordcode.Deflate
