import Mathlib.Algebra.Group.Nat.Defs
import Mathlib.Tactic.SplitIfs
import Wordcode.Number.Shortest

/-! # Shortest decimals read back

The shortest decimal of a positive finite double is read back as that double
(`rankOfDecimal_shortest`): each point of a grid was tried, and the finest grid holds the double itself
(`rankOfRatio_units`). The rank of a ratio does not depend on how the ratio is written
(`rankOfRatio_mul_right`). -/

namespace Wordcode

theorem nearestEven_mul_right {k : Nat} (hk : 0 < k) (num den : Nat) :
    nearestEven (num * k) (den * k) = nearestEven num den := by
  unfold nearestEven
  simp only [Nat.mul_div_mul_right _ _ hk, Nat.mul_mod_mul_right, ← Nat.mul_assoc,
    Nat.mul_lt_mul_right hk]

theorem nearestEven_mul_self {den : Nat} (hden : 0 < den) (q : Nat) : nearestEven (q * den) den = q := by
  unfold nearestEven
  simp only [Nat.mul_div_cancel _ hden, Nat.mul_mod_left]
  rw [if_pos (by omega)]

namespace Double

theorem rankOfRatio_mul_right {k : Nat} (hk : 0 < k) (num den : Nat) :
    rankOfRatio (num * k) (den * k) = rankOfRatio num den := by
  have hscaled : (num * k) <<< 1074 = num <<< 1074 * k := by
    rw [Nat.shiftLeft_eq, Nat.shiftLeft_eq, Nat.mul_right_comm]
  have hshift : ∀ shift, (den * k) <<< shift = den <<< shift * k := by
    intro shift
    rw [Nat.shiftLeft_eq, Nat.shiftLeft_eq, Nat.mul_right_comm]
  unfold rankOfRatio
  simp only [hscaled, hshift, Nat.mul_div_mul_right _ _ hk, nearestEven_mul_right hk]

/-- The rank in terms of the number of units alone. -/
theorem rankOfRatio_two_pow (n : Nat) : rankOfRatio n (2 ^ 1074) =
    (n.log2 + 1 - 53) * binade + nearestEven n (2 ^ (n.log2 + 1 - 53)) := by
  unfold rankOfRatio
  dsimp only
  rw [Nat.shiftLeft_eq]
  generalize 1074 = p
  have hpos : 0 < 2 ^ p := Nat.two_pow_pos p
  rw [Nat.mul_div_cancel _ hpos, Nat.shiftLeft_eq, Nat.mul_comm (2 ^ p) (2 ^ (n.log2 + 1 - 53)),
    nearestEven_mul_right hpos]

theorem rankOfRatio_units (rank : Nat) : rankOfRatio (units rank) (2 ^ 1074) = rank := by
  have hbinade : binade = 2 ^ 52 := rfl
  rw [rankOfRatio_two_pow]
  unfold units
  by_cases hlt : rank < binade
  · have hlog : rank.log2 < 52 ∨ rank = 0 := by
      by_cases h0 : rank = 0
      · exact .inr h0
      · exact .inl ((Nat.log2_lt h0).mpr (hbinade ▸ hlt))
    have hshift : rank.log2 + 1 - 53 = 0 := by
      rcases hlog with h | rfl
      · omega
      · rfl
    rw [if_pos hlt, hshift, Nat.zero_mul, Nat.zero_add]
    simpa using nearestEven_mul_self Nat.one_pos rank
  · have hq : 1 ≤ rank / binade := (Nat.le_div_iff_mul_le (by decide)).mpr (by omega)
    have hr : rank % binade < binade := Nat.mod_lt _ (by decide)
    have hpow : 0 < 2 ^ (rank / binade - 1) := Nat.two_pow_pos _
    -- the leading digit of the significand stands at place 52
    have hlog : ((binade + rank % binade) * 2 ^ (rank / binade - 1)).log2 =
        52 + (rank / binade - 1) := by
      have hlow : 2 ^ (52 + (rank / binade - 1)) = binade * 2 ^ (rank / binade - 1) := Nat.pow_add ..
      rw [Nat.log2_eq_iff (Nat.ne_of_gt (Nat.mul_pos (by omega) hpow)), Nat.pow_succ, hlow]
      constructor
      · exact Nat.mul_le_mul_right _ (Nat.le_add_right _ _)
      · rw [Nat.mul_right_comm]
        exact (Nat.mul_lt_mul_right hpow).mpr (by omega)
    rw [if_neg hlt, Nat.shiftLeft_eq, hlog,
      show 52 + (rank / binade - 1) + 1 - 53 = rank / binade - 1 by omega, nearestEven_mul_self hpow]
    calc (rank / binade - 1) * binade + (binade + rank % binade)
        = (rank / binade - 1 + 1) * binade + rank % binade := by rw [Nat.add_one_mul]; omega
      _ = rank / binade * binade + rank % binade := by rw [Nat.sub_add_cancel hq]
      _ = rank := Nat.div_add_mod' rank binade

theorem units_pos {rank : Nat} (h : 0 < rank) : 0 < units rank := by
  unfold units
  split_ifs
  · exact h
  · rw [Nat.shiftLeft_eq]
    exact Nat.mul_pos (Nat.add_pos_left (by decide) _) (Nat.two_pow_pos _)

/-! ### The search -/

theorem rankOfDecimal_of_onGrid? {rank : Nat} {exponent : Int} {d : Decimal}
    (h : onGrid? rank exponent = some d) : rankOfDecimal d.digits d.exponent = rank := by
  unfold onGrid? at h
  generalize units rank * tenTo (-exponent).toNat = num, tenTo exponent.toNat <<< 1074 = den at h
  dsimp only at h
  split at h
  · cases h
  · next hlower _ => cases h; exact beq_iff_eq.mp hlower
  · next _ hupper => cases h; exact beq_iff_eq.mp hupper
  · next hlower hupper =>
    cases h
    dsimp only
    split_ifs
    · exact beq_iff_eq.mp hlower
    · exact beq_iff_eq.mp hupper

theorem rankOfDecimal_finest {rank p : Nat} (h : 0 < rank) (hp : p = 1074) :
    rankOfDecimal (units rank * Nat.pow 5 p) (-(p : Int)) = rank := by
  have hunits := rankOfRatio_units rank
  rw [← hp] at hunits
  have hfive : 0 < Nat.pow 5 p := Nat.pow_pos (by decide)
  have hne : units rank * Nat.pow 5 p ≠ 0 := Nat.ne_of_gt (Nat.mul_pos (units_pos h) hfive)
  have hlog : 2 * p ≤ (units rank * Nat.pow 5 p).log2 := by
    rw [Nat.le_log2 hne]
    calc 2 ^ (2 * p) = (2 ^ 2) ^ p := Nat.pow_mul ..
      _ ≤ 5 ^ p := Nat.pow_le_pow_left (by decide) p
      _ ≤ units rank * 5 ^ p := Nat.le_mul_of_pos_left _ (units_pos h)
  have hten : tenTo (- -(p : Int)).toNat = 2 ^ p * Nat.pow 5 p := by
    rw [Int.neg_neg, Int.toNat_natCast]
    exact Nat.mul_pow 2 5 p
  have hone : tenTo (-(p : Int)).toNat = 1 := by
    rw [show (-(p : Int)).toNat = 0 by omega]
    rfl
  unfold rankOfDecimal
  rw [if_neg hne, if_neg (by omega), if_neg (by omega), hten, hone, Nat.mul_one,
    rankOfRatio_mul_right hfive, hunits]

theorem rankOfDecimal_searchGrid {rank : Nat} (h : 0 < rank) : ∀ level,
    rankOfDecimal (searchGrid rank level).digits (searchGrid rank level).exponent = rank
  | 0 => by
    unfold searchGrid
    -- the exponent is kept from being computed
    generalize hp : 1074 = p
    have he : (-1074 : Int) = -(p : Int) := by omega
    dsimp only
    rw [he]
    exact rankOfDecimal_finest h hp.symm
  | level + 1 => by
    unfold searchGrid
    cases hgrid : onGrid? rank (level + 1 - 1074) with
    | some d => exact rankOfDecimal_of_onGrid? hgrid
    | none => exact rankOfDecimal_searchGrid h level

/-- **The shortest decimal of a positive double reads back.** -/
theorem rankOfDecimal_shortest {rank : Nat} (h : 0 < rank) :
    rankOfDecimal (shortest rank).digits (shortest rank).exponent = rank :=
  rankOfDecimal_searchGrid h _

/-- Zeros in front of the point belong to the digits or to the exponent. -/
theorem rankOfDecimal_zeros {digits k : Nat} (hk : k ≤ 400) :
    rankOfDecimal (digits * 10 ^ (k + 1)) (-1) = rankOfDecimal digits k := by
  have hten : 0 < 10 ^ (k + 1) := Nat.pow_pos (by decide)
  unfold rankOfDecimal
  by_cases h0 : digits = 0
  · rw [h0, Nat.zero_mul, if_pos rfl, if_pos rfl]
  · have hone : tenTo (-1 : Int).toNat = 1 := rfl
    have hone' : tenTo (-(k : Int)).toNat = 1 := by
      rw [show (-(k : Int)).toNat = 0 by omega]
      rfl
    have hk' : digits * tenTo (k : Int).toNat = digits * 10 ^ k := by rw [Int.toNat_natCast]; rfl
    rw [if_neg (Nat.mul_ne_zero h0 (Nat.ne_of_gt hten)), if_neg h0, if_neg (by decide),
      if_neg (by omega), if_neg (by omega), if_neg (by omega), hone, hone', hk', Nat.mul_one,
      show tenTo (- -1 : Int).toNat = 1 * 10 from rfl, Nat.pow_succ, ← Nat.mul_assoc,
      rankOfRatio_mul_right (by decide)]

end Double

end Wordcode
