/-! # Words and bytes

Code is a list of signed 32-bit words. Depending on its place a word is a number, a count, the index
of a table entry, a character or the bits of a single. -/

namespace Wordcode

/-- One cell of the instruction stream. -/
abbrev Word := Int32

/-- A run of bytes, such as a payload or a container. -/
abbrev Bytes := List UInt8

/-- The word as a count or an index, none if it is negative. -/
def Word.toCount? (word : Word) : Option Nat :=
  if word < 0 then none else some word.toInt.toNat

/-- The character of a word; a word that is no Unicode scalar stands for U+FFFD. -/
def Word.toChar (word : Word) : Char :=
  let code := word.toUInt32
  if h : code.isValidChar then ⟨code, h⟩ else '\uFFFD'

/-- The decimal text of a word. -/
def Word.text (word : Word) : String := toString word.toInt

end Wordcode
