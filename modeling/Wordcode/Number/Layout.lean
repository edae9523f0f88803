import Wordcode.Number.Shortest

/-! # Texts of doubles

The text of a double is laid out from its shortest decimal: positionally, with at least one digit on
each side of the point, while the power of ten of its leading digit lies in a fixed range, and with
an exponent outside that range. -/

namespace Wordcode

/-- The powers of ten between which a number is written without an exponent, both included. -/
structure Layout where
  leastPower : Int
  mostPower : Int

namespace Layout

/-- Digits with the point after the first `point` of them; zeros fill up what is missing. -/
def positional (digits : List Char) (point : Int) : List Char :=
  if point ≤ 0 then '0' :: '.' :: (List.replicate (-point).toNat '0' ++ digits)
  else if point < digits.length then digits.take point.toNat ++ '.' :: digits.drop point.toNat
  else digits ++ List.replicate (point.toNat - digits.length) '0' ++ ['.', '0']

/-- The first digit, the others after a point if there are any, and the exponent. -/
def scientific (digits : List Char) (power : Int) : List Char :=
  digits.take 1 ++ (if digits.length ≤ 1 then [] else '.' :: digits.drop 1)
    ++ 'e' :: (toString power).toList

/-- The text of a positive decimal. -/
def decimal (layout : Layout) (d : Decimal) : List Char :=
  let digits := Nat.toDigits 10 d.digits
  let power := d.exponent + digits.length - 1
  if layout.leastPower ≤ power ∧ power ≤ layout.mostPower then positional digits (power + 1)
  else scientific digits power

/-- The text of a double without its sign. -/
def magnitude (layout : Layout) (rank : Nat) : List Char :=
  if rank = 0 then ['0', '.', '0']
  else if rank = infinityRank then ['i', 'n', 'f']
  else layout.decimal (Double.shortest rank)

/-- The text of a double. -/
def double (layout : Layout) : Double → String
  | .nan => "NaN"
  | .signed negative rank =>
    .ofList ((if negative then ['-'] else []) ++ layout.magnitude rank.val)

end Layout

end Wordcode
