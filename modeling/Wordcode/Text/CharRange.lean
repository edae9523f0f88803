/-! # Ranges of characters

Properties of characters are tables of ranges of code points, in increasing order. The tables list
only what lies beyond ASCII; there each property is a short rule. -/

namespace Wordcode.Text

/-- The first and the last code point of a range. -/
abbrev CharRange := Nat × Nat

/-- Whether the range holds the character. -/
def CharRange.holds (range : CharRange) (c : Char) : Bool :=
  range.1 ≤ c.toNat && c.toNat ≤ range.2

/-- A property given by a rule for ASCII and a table for all other characters. -/
def hasProperty (ascii : Char → Bool) (table : List CharRange) (c : Char) : Bool :=
  if c.toNat < 128 then ascii c else table.any (·.holds c)

end Wordcode.Text
