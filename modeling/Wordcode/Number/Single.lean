import Wordcode.Number.Double

/-! # Single precision

Singles occur only as operand words of the instruction stream, where they keep their bits, and in
listings, where they have six decimal places. The places are rounded once, from the exact value. -/

namespace Wordcode

/-- A single-precision number, by its bits. -/
structure Single where
  bits : UInt32
  deriving DecidableEq, Repr

namespace Single

/-- The weight of the sign among the bits, which is `2 ^ 31`. -/
def signWeight : Nat := 0x80000000

/-- The sign bit. -/
def negative (x : Single) : Bool := signWeight ≤ x.bits.toNat

/-- The bits below the sign. -/
def rank (x : Single) : Nat := x.bits.toNat % signWeight

/-- The number of ranks in a binade, which is `2 ^ 23`. -/
def binade : Nat := 0x800000

/-- The rank of infinity; the ranks above it are not-a-numbers. -/
def infinity : Nat := 255 * binade

/-- Whether the bits are no number. -/
def isNaN (x : Single) : Bool := infinity < x.rank

/-- A finite rank as a multiple of `2 ^ -149`, the least positive single. -/
def units (rank : Nat) : Nat :=
  if rank < binade then rank else (binade + rank % binade) <<< (rank / binade - 1)

/-- The digits of a number of millionths, with the point before the last six. -/
def sixPlaces (millionths : Nat) : String :=
  let fraction := Nat.toDigits 10 (millionths % 1000000)
  .ofList (Nat.toDigits 10 (millionths / 1000000) ++ '.' ::
    (List.replicate (6 - fraction.length) '0' ++ fraction))

/-- The text with six decimal places; a tie goes to the even digit. -/
def toFixed (x : Single) : String :=
  if x.isNaN then "NaN"
  else
    (if x.negative then "-" else "") ++
      if x.rank = infinity then "inf"
      else sixPlaces (nearestEven (units x.rank * 1000000) (1 <<< 149))

end Single

end Wordcode
