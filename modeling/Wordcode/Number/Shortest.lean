import Wordcode.Number.Double

/-! # Shortest decimals

The shortest decimal of a finite double is the point of the coarsest decimal grid that reads back as
it: on each grid only the two neighbours of the double can, and of two that do the nearer one is
taken, the upper one on a tie. The grid of spacing `10 ^ -1074` holds every double itself, so the
search from a coarse grid downwards always ends. -/

namespace Wordcode

/-- The number `digits * 10 ^ exponent`. -/
structure Decimal where
  digits : Nat
  exponent : Int
  deriving DecidableEq, Repr

namespace Double

/-- The point of the grid of spacing `10 ^ exponent` that stands for `rank`: of the two neighbours
the one that reads back, of two the nearer one, of two equally near the upper one. -/
def onGrid? (rank : Nat) (exponent : Int) : Option Decimal :=
  let num := units rank * tenTo (-exponent).toNat
  let den := tenTo exponent.toNat <<< 1074
  let lower := num / den
  let readsBack (digits : Nat) : Bool := rankOfDecimal digits exponent == rank
  match readsBack lower, readsBack (lower + 1) with
  | false, false => none
  | true, false => some ⟨lower, exponent⟩
  | false, true => some ⟨lower + 1, exponent⟩
  | true, true => some ⟨if 2 * (num % den) < den then lower else lower + 1, exponent⟩

/-- The search over the grids from spacing `10 ^ (level - 1074)` downwards. -/
def searchGrid (rank : Nat) : Nat → Decimal
  | 0 => ⟨units rank * Nat.pow 5 1074, -1074⟩
  | level + 1 =>
    match onGrid? rank (level + 1 - 1074) with
    | some decimal => decimal
    | none => searchGrid rank level

/-- A level whose grid is coarser than the double itself. -/
def coarseLevel (rank : Nat) : Nat :=
  (((units rank).log2 + 1 - 1074 : Int) * 30103 / 100000 + 2 + 1074).toNat

/-- The decimal of fewest digits that reads back as the positive finite double of this rank. -/
def shortest (rank : Nat) : Decimal := searchGrid rank (coarseLevel rank)

end Double

end Wordcode
