/-! # Double precision

A double is named by its rank: the non-negative doubles in increasing order are `0, 1, 2, …`, from
zero over the least positive one up to infinity. Times `2 ^ 1074` every finite double is a natural
number (`units`), so that reading a decimal is one exact rounding (`rankOfRatio`): the multiple of the
least unit with 53 significant bits nearest to the number, ties to the even one. -/

namespace Wordcode

/-- The quotient rounded to the nearest natural number, a tie to the even one. -/
def nearestEven (num den : Nat) : Nat :=
  let q := num / den
  let r := num % den
  if 2 * r < den then q
  else if den < 2 * r then q + 1
  else q + q % 2

/-- A power of ten. -/
def tenTo (n : Nat) : Nat := Nat.pow 10 n

/-- The number of ranks in a binade, which is `2 ^ 52`. -/
def binade : Nat := 0x10000000000000

/-- The number of finite doubles without a sign, which is the rank of infinity. -/
def infinityRank : Nat := 2047 * binade

/-- A double-precision number. All not-a-numbers are one. -/
inductive Double
  | nan
  | signed (negative : Bool) (rank : Fin (infinityRank + 1))
  deriving DecidableEq, Repr

namespace Double

/-- The double of a sign and a rank; a rank past infinity is infinity. -/
def ofRank (negative : Bool) (rank : Nat) : Double :=
  signed negative ⟨min rank infinityRank, Nat.lt_succ_of_le (Nat.min_le_right ..)⟩

/-- Positive zero. -/
def zero : Double := ofRank false 0

/-- A finite rank as a multiple of the least positive double. The first two binades have the spacing of
that double; in each further one the spacing doubles. -/
def units (rank : Nat) : Nat :=
  if rank < binade then rank else (binade + rank % binade) <<< (rank / binade - 1)

/-- The rank nearest to `num / den`, ties to the even rank. -/
def rankOfRatio (num den : Nat) : Nat :=
  let scaled := num <<< 1074
  let shift := (scaled / den).log2 + 1 - 53
  shift * binade + nearestEven scaled (den <<< shift)

/-- The rank nearest to `mantissa * 10 ^ exponent`. Numbers beyond `10 ^ 400` and below `10 ^ -400`
are far outside the finite doubles and are not computed. -/
def rankOfDecimal (mantissa : Nat) (exponent : Int) : Nat :=
  if mantissa = 0 then 0
  else if 400 < exponent then infinityRank
  else if exponent + (mantissa.log2 + 1) < -400 then 0
  else rankOfRatio (mantissa * tenTo exponent.toNat) (tenTo (-exponent).toNat)

/-- The double nearest to `mantissa * 10 ^ exponent`. -/
def ofDecimal (mantissa : Nat) (exponent : Int) : Double :=
  ofRank false (rankOfDecimal mantissa exponent)

/-- Changes the sign, also of zero and of infinity. -/
def neg : Double → Double
  | nan => nan
  | signed negative rank => signed (!negative) rank

/-- Numerical equality: not-a-number differs from everything, the two zeros are equal. -/
def eqv : Double → Double → Bool
  | signed s r, signed t q => r == q && (s == t || r.val == 0)
  | _, _ => false

/-- The weight of the sign among the bits, which is `2 ^ 63`. -/
def signWeight : Nat := 0x8000000000000000

/-- The double with these sixty-four bits: the sign above the rank. -/
def ofBits (bits : UInt64) : Double :=
  let rank := bits.toNat % signWeight
  if rank ≤ infinityRank then ofRank (signWeight ≤ bits.toNat) rank else nan

/-- The sixty-four bits, none for a not-a-number, whose payload is not kept. -/
def toBits? : Double → Option UInt64
  | nan => none
  | signed negative rank => some (.ofNat ((if negative then signWeight else 0) + rank.val))

end Double

end Wordcode
