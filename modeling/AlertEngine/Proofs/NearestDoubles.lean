import AlertEngine.Proofs.DoubleBounds
import AlertEngine.Proofs.WrittenNumbers

/-!
# Nearest doubles

Which double is nearest to a number does not depend on the way in which the number is given, be it
as a quotient or as a decimal with zeros at its end. A double is nearest to itself, so that the
fewest digits that identify it are read as the double again.

* `Binary64.floorLog2_eq_log`, `Binary64.roundHalfEven_congr`: the steps of the search see the
  number alone.
* `Binary64.nearestRank_congr`: so does the search.
* `Binary64.valueOfRank`, `Binary64.nearestRank_of_value`: a rank is nearest to its own value.
* `Decimal.nearestRank_eq`: the bounds on exponents are shortcuts and change nothing.
* `Decimal.nearestRank_shortest`: the fewest digits of a rank are read as that rank.
-/

namespace AlertEngine

namespace Binary64

variable {num den num' den' n : ℕ} {k : ℤ}

/-! ## Quotients -/

/-- A power as a quotient of two powers with exponents that are not negative. -/
theorem zpow_eq_div {b : ℕ} (positive : 0 < b) (k : ℤ) :
    (b : ℚ) ^ k = (b ^ k.toNat : ℕ) / (b ^ (-k).toNat : ℕ) := by
  have base : (b : ℚ) ≠ 0 := by exact_mod_cast positive.ne'
  rw [Nat.cast_pow, Nat.cast_pow, ← zpow_natCast, ← zpow_natCast, ← zpow_sub₀ base]
  congr 1
  omega

/-- A power of two is compared with a quotient in whole numbers. -/
theorem reaches_iff (positive : 0 < den) (k : ℤ) :
    den * Nat.pow 2 k.toNat ≤ num * Nat.pow 2 (-k).toNat ↔ (2 : ℚ) ^ k ≤ num / den := by
  have split : (2 : ℚ) ^ k = (2 ^ k.toNat : ℕ) / (2 ^ (-k).toNat : ℕ) := zpow_eq_div two_pos k
  have divisor : (0 : ℚ) < den := by exact_mod_cast positive
  have power : (0 : ℚ) < (2 ^ (-k).toNat : ℕ) := by exact_mod_cast Nat.two_pow_pos _
  rw [Nat.pow_eq, Nat.pow_eq, split, div_le_div_iff₀ power divisor, mul_comm den]
  exact_mod_cast Iff.rfl

theorem two_zpow_le_iff {v : ℚ} (positive : 0 < v) : (2 : ℚ) ^ k ≤ v ↔ k ≤ Int.log 2 v := by
  exact_mod_cast Int.zpow_le_iff_le_log (b := 2) one_lt_two positive

theorem lt_two_zpow_iff {v : ℚ} (positive : 0 < v) : v < (2 : ℚ) ^ k ↔ Int.log 2 v < k := by
  exact_mod_cast Int.lt_zpow_iff_log_lt (b := 2) one_lt_two positive

theorem log_natCast (n : ℕ) : Int.log 2 (n : ℚ) = n.log2 := by
  rw [Int.log_natCast, Nat.log2_eq_log_two]

theorem floorLog2_eq_log (positive : 0 < num) (positive' : 0 < den) :
    floorLog2 num den = Int.log 2 (num / den : ℚ) := by
  have numerator : (0 : ℚ) < num := by exact_mod_cast positive
  have divisor : (0 : ℚ) < den := by exact_mod_cast positive'
  have value : (0 : ℚ) < num / den := div_pos numerator divisor
  obtain ⟨k, estimate⟩ : ∃ k : ℤ, (num.log2 : ℤ) - den.log2 = k := ⟨_, rfl⟩
  -- The logarithms of numerator and denominator leave two candidates.
  have below : (2 : ℚ) ^ (k - 1) ≤ num / den := by
    rw [le_div_iff₀ divisor]
    calc (2 : ℚ) ^ (k - 1) * den ≤ 2 ^ (k - 1) * 2 ^ (den.log2 + 1 : ℤ) := by
          gcongr
          exact ((lt_two_zpow_iff divisor).mpr (by rw [log_natCast]; omega)).le
      _ = 2 ^ (num.log2 : ℤ) := by rw [← zpow_add₀ two_ne_zero]; congr 1; omega
      _ ≤ num := (two_zpow_le_iff numerator).mpr (log_natCast num).ge
  have above : (num / den : ℚ) < 2 ^ (k + 1) := by
    rw [div_lt_iff₀ divisor]
    calc (num : ℚ) < 2 ^ (num.log2 + 1 : ℤ) :=
          (lt_two_zpow_iff numerator).mpr (by rw [log_natCast]; omega)
      _ = 2 ^ (k + 1) * 2 ^ (den.log2 : ℤ) := by rw [← zpow_add₀ two_ne_zero]; congr 1; omega
      _ ≤ 2 ^ (k + 1) * den := by
          gcongr
          exact (two_zpow_le_iff divisor).mpr (log_natCast den).ge
  rw [two_zpow_le_iff value] at below
  rw [lt_two_zpow_iff value] at above
  simp only [floorLog2, estimate, reaches_iff positive' k, two_zpow_le_iff value]
  split
  · omega
  · omega

/-! ## Rounding -/

theorem roundHalfEven_mul {c : ℕ} (positive : 0 < c) (num den : ℕ) :
    roundHalfEven (c * num) (c * den) = roundHalfEven num den := by
  have less (a b : ℕ) : c * a < c * b ↔ a < b := Nat.mul_lt_mul_left positive
  simp only [roundHalfEven, Nat.mul_div_mul_left _ _ positive, Nat.mul_mod_mul_left,
    Nat.mul_left_comm 2 c, less]

/-- Rounding sees the quotient alone. -/
theorem roundHalfEven_congr (positive : 0 < den) (positive' : 0 < den')
    (same : num * den' = num' * den) : roundHalfEven num den = roundHalfEven num' den' :=
  calc roundHalfEven num den = roundHalfEven (den' * num) (den' * den) :=
        (roundHalfEven_mul positive' num den).symm
    _ = roundHalfEven (den * num') (den * den') := by
        rw [Nat.mul_comm den' num, same, Nat.mul_comm num' den, Nat.mul_comm den' den]
    _ = roundHalfEven num' den' := roundHalfEven_mul positive num' den'

theorem roundHalfEven_mul_right (m : ℕ) (positive : 0 < den) : roundHalfEven (m * den) den = m := by
  simp only [roundHalfEven, Nat.mul_div_cancel m positive, Nat.mul_mod_left, Nat.mul_zero, positive,
    if_true]

theorem roundHalfEven_of_lt (less : 2 * num < den) : roundHalfEven num den = 0 := by
  have small : num < den := by omega
  simp only [roundHalfEven, Nat.div_eq_of_lt small, Nat.mod_eq_of_lt small, less, if_true]

theorem div_le_roundHalfEven (num den : ℕ) : num / den ≤ roundHalfEven num den := by
  simp only [roundHalfEven]
  split
  · exact Nat.le_refl _
  · split
    · exact Nat.le_succ _
    · exact Nat.le_add_right _ _

/-! ## The nearest rank -/

theorem nearestRank_zero (den : ℕ) : nearestRank 0 den = 0 := if_pos rfl

theorem nearestRank_of_pos (positive : 0 < num) (positive' : 0 < den) {q : ℤ}
    (scale : max (-1074) (Int.log 2 (num / den : ℚ) - 52) = q) :
    nearestRank num den = min infinityRank ((q + 1074).toNat * binade +
      roundHalfEven (num * 2 ^ (-q).toNat) (den * 2 ^ q.toNat)) := by
  simp only [nearestRank, if_neg positive.ne', floorLog2_eq_log positive positive', scale,
    Nat.pow_eq]

/-- The nearest rank depends on the quotient alone. -/
theorem nearestRank_congr (positive : 0 < den) (positive' : 0 < den')
    (same : (num / den : ℚ) = num' / den') : nearestRank num den = nearestRank num' den' := by
  have divisor : (den : ℚ) ≠ 0 := by exact_mod_cast positive.ne'
  have divisor' : (den' : ℚ) ≠ 0 := by exact_mod_cast positive'.ne'
  have crossed : num * den' = num' * den := by
    rw [div_eq_div_iff divisor divisor'] at same
    exact_mod_cast same
  rcases Nat.eq_zero_or_pos num with rfl | nonzero
  · rw [Nat.zero_mul, eq_comm, Nat.mul_eq_zero, or_iff_left positive.ne'] at crossed
    rw [crossed, nearestRank_zero, nearestRank_zero]
  · have nonzero' : 0 < num' :=
      Nat.pos_of_mul_pos_right (crossed ▸ Nat.mul_pos nonzero positive')
    obtain ⟨q, scale⟩ : ∃ q, max (-1074) (Int.log 2 (num / den : ℚ) - 52) = q := ⟨_, rfl⟩
    have rounded : roundHalfEven (num * 2 ^ (-q).toNat) (den * 2 ^ q.toNat) =
        roundHalfEven (num' * 2 ^ (-q).toNat) (den' * 2 ^ q.toNat) := by
      refine roundHalfEven_congr (Nat.mul_pos positive (Nat.two_pow_pos _))
        (Nat.mul_pos positive' (Nat.two_pow_pos _)) ?_
      rw [Nat.mul_mul_mul_comm, crossed, Nat.mul_mul_mul_comm]
    rw [nearestRank_of_pos nonzero positive scale, rounded]
    rw [same] at scale
    exact (nearestRank_of_pos nonzero' positive' scale).symm

def valueOfRank (n : ℕ) : ℚ := significand n * 2 ^ scale n

theorem valueOfRank_pos (positive : 0 < n) : 0 < valueOfRank n := by
  have significant : (0 : ℚ) < significand n := by
    exact_mod_cast Decimal.significand_pos positive
  exact mul_pos significant (two_zpow_pos _)

theorem significand_of_normal (normal : binade ≤ n) :
    2 ^ 52 ≤ significand n ∧ significand n < 2 ^ 53 := by
  rw [significand, if_neg (Nat.not_lt.mpr normal)]
  have size : binade = 2 ^ 52 := rfl
  have rest := Nat.mod_lt n (show 0 < binade by decide)
  omega

theorem scale_of_normal (normal : binade ≤ n) : scale n = (n / binade : ℕ) - 1075 ∧
    1 ≤ n / binade := by
  rw [scale, if_neg (Nat.not_lt.mpr normal)]
  exact ⟨rfl, (Nat.one_le_div_iff (by decide)).mpr normal⟩

/-- Rounding aims at the scale of the rank. -/
theorem scale_eq (positive : 0 < n) :
    max (-1074) (Int.log 2 (valueOfRank n) - 52) = scale n := by
  have value := valueOfRank_pos positive
  rcases Nat.lt_or_ge n binade with subnormal | normal
  · have small : valueOfRank n < 2 ^ (-1022 : ℤ) := by
      rw [valueOfRank, significand, scale, if_pos subnormal, if_pos subnormal]
      exact mul_two_zpow_lt (k := 52) subnormal (by norm_num)
    rw [lt_two_zpow_iff value] at small
    rw [scale, if_pos subnormal]
    omega
  · obtain ⟨full, bits⟩ := significand_of_normal normal
    obtain ⟨exponent, room⟩ := scale_of_normal normal
    have below : (2 : ℚ) ^ (52 + scale n) ≤ valueOfRank n := by
      rw [valueOfRank, zpow_add₀ two_ne_zero]
      exact mul_le_mul_of_nonneg_right (by exact_mod_cast full) (two_zpow_pos _).le
    have above : valueOfRank n < 2 ^ (53 + scale n) := mul_two_zpow_lt bits le_rfl
    rw [two_zpow_le_iff value] at below
    rw [lt_two_zpow_iff value] at above
    omega

theorem rank_eq (n : ℕ) : (scale n + 1074).toNat * binade + significand n = n := by
  rcases Nat.lt_or_ge n binade with subnormal | normal
  · rw [significand, scale, if_pos subnormal, if_pos subnormal]
    exact (Nat.zero_add n)
  · obtain ⟨exponent, room⟩ := scale_of_normal normal
    obtain ⟨k, quotient⟩ := Nat.exists_eq_add_of_le room
    have places : (scale n + 1074).toNat = k := by omega
    rw [places, significand, if_neg (Nat.not_lt.mpr normal)]
    calc k * binade + (binade + n % binade) = (1 + k) * binade + n % binade := by ring
      _ = n := by rw [← quotient, Nat.mul_comm, Nat.div_add_mod]

/-- A rank is nearest to its own value. -/
theorem nearestRank_of_value (positive : 0 < n) (finite : n < infinityRank) (positive' : 0 < den)
    (same : (num / den : ℚ) = valueOfRank n) : nearestRank num den = n := by
  have power := Nat.two_pow_pos (-scale n).toNat
  have power' := Nat.two_pow_pos (scale n).toNat
  have ratio : ((significand n * 2 ^ (scale n).toNat : ℕ) / (2 ^ (-scale n).toNat : ℕ) : ℚ) =
      valueOfRank n := by
    rw [valueOfRank, Nat.cast_mul, mul_div_assoc, ← zpow_eq_div two_pos, Nat.cast_ofNat]
  have target : max (-1074) (Int.log 2 ((significand n * 2 ^ (scale n).toNat : ℕ) /
      (2 ^ (-scale n).toNat : ℕ) : ℚ) - 52) = scale n := by
    rw [ratio, scale_eq positive]
  rw [nearestRank_congr positive' power (same.trans ratio.symm),
    nearestRank_of_pos (Nat.mul_pos (Decimal.significand_pos positive) power') power target,
    Nat.mul_assoc, Nat.mul_comm (2 ^ (-scale n).toNat),
    roundHalfEven_mul_right _ (Nat.mul_pos power' power), rank_eq, Nat.min_eq_right finite.le]

/-- Numbers beyond the doubles are infinite. -/
theorem nearestRank_of_large (positive : 0 < den) (large : (2 : ℚ) ^ (1024 : ℤ) ≤ num / den) :
    nearestRank num den = infinityRank := by
  have divisor : (0 : ℚ) < den := by exact_mod_cast positive
  have value : (0 : ℚ) < num / den := (two_zpow_pos 1024).trans_le large
  have nonzero : 0 < num := by
    have numerator := (div_pos_iff_of_pos_right divisor).mp value
    exact_mod_cast numerator
  rw [two_zpow_le_iff value] at large
  obtain ⟨q, scale⟩ : ∃ q, max (-1074) (Int.log 2 (num / den : ℚ) - 52) = q := ⟨_, rfl⟩
  rw [nearestRank_of_pos nonzero positive scale, min_eq_left]
  -- Up to here there are the binades below; the significand adds another one at least.
  have least : binade ≤ roundHalfEven (num * 2 ^ (-q).toNat) (den * 2 ^ q.toNat) := by
    refine le_trans ?_ (div_le_roundHalfEven _ _)
    rw [Nat.le_div_iff_mul_le (Nat.mul_pos positive (Nat.two_pow_pos _))]
    obtain ⟨k, rfl⟩ := Int.eq_ofNat_of_zero_le (show 0 ≤ q by omega)
    have reached : (2 : ℚ) ^ (52 + k : ℤ) ≤ num / den := by
      rw [two_zpow_le_iff value]
      omega
    rw [← reaches_iff positive, Nat.pow_eq, Nat.pow_eq] at reached
    have exponent : (52 + k : ℤ).toNat = 52 + k := by omega
    have nothing : (-(52 + k : ℤ)).toNat = 0 := by omega
    have none : (-(k : ℤ)).toNat = 0 := by omega
    rw [exponent, nothing, pow_add] at reached
    rw [Int.toNat_natCast, none]
    exact (Nat.mul_left_comm _ _ _).trans_le reached
  have binades : 2046 ≤ (q + 1074).toNat := by omega
  have product := Nat.mul_le_mul_right binade binades
  have last : infinityRank = 2047 * binade := rfl
  omega

/-- Numbers of less than half the least double are zero. -/
theorem nearestRank_of_small (positive : 0 < den) (small : (num / den : ℚ) < 2 ^ (-1075 : ℤ)) :
    nearestRank num den = 0 := by
  rcases Nat.eq_zero_or_pos num with rfl | nonzero
  · exact nearestRank_zero den
  have value : (0 : ℚ) < num / den := by positivity
  have below := mt (reaches_iff positive (-1075)).mp (not_le.mpr small)
  rw [lt_two_zpow_iff value] at small
  have scale : max (-1074) (Int.log 2 (num / den : ℚ) - 52) = -1074 := by omega
  obtain ⟨k, places⟩ : ∃ k : ℕ, k = 1074 := ⟨_, rfl⟩
  have half : (- -1075 : ℤ).toNat = k + 1 := by omega
  have least : (- -1074 : ℤ).toNat = k := by omega
  have none : (-1075 : ℤ).toNat = 0 ∧ (-1074 : ℤ).toNat = 0 := ⟨rfl, rfl⟩
  rw [Nat.pow_eq, Nat.pow_eq, half, none.1, pow_succ', not_le] at below
  rw [nearestRank_of_pos nonzero positive scale, least, none.2, roundHalfEven_of_lt]
  · exact Nat.min_zero infinityRank
  · rwa [Nat.mul_left_comm]

end Binary64

namespace Decimal

open Binary64 (valueOfRank two_zpow_pos)

variable {tie : Tie} {c c' n : ℕ} {e e' : ℤ}

/-! ## Decimals -/

theorem ten_zpow_pos (e : ℤ) : (0 : ℚ) < 10 ^ e := zpow_pos (by norm_num) e

/-- A decimal as the quotient that its rank is taken from. -/
theorem value_eq_div (c : ℕ) (e : ℤ) :
    ((c * 10 ^ e.toNat : ℕ) / (10 ^ (-e).toNat : ℕ) : ℚ) = c * 10 ^ e := by
  have split : (10 : ℚ) ^ e = (10 ^ e.toNat : ℕ) / (10 ^ (-e).toNat : ℕ) :=
    Binary64.zpow_eq_div (b := 10) (by norm_num) e
  rw [split, Nat.cast_mul, mul_div_assoc]

/-- Ten is more than the third power of two. -/
theorem two_zpow_le_ten_zpow (nonneg : 0 ≤ e) : (2 : ℚ) ^ (3 * e) ≤ 10 ^ e := by
  rw [zpow_mul]
  exact zpow_le_zpow_left₀ nonneg (by norm_num) (by norm_num)

theorem ten_zpow_le_two_zpow (nonpos : e ≤ 0) : (10 : ℚ) ^ e ≤ 2 ^ (3 * e) := by
  have inverse := inv_anti₀ (two_zpow_pos _) (two_zpow_le_ten_zpow (neg_nonneg.mpr nonpos))
  rwa [← zpow_neg, ← zpow_neg, neg_neg, mul_neg, neg_neg] at inverse

theorem two_zpow_le_of_large (positive : 0 < c) (high : 400 < e) :
    (2 : ℚ) ^ (1024 : ℤ) ≤ c * 10 ^ e := by
  have one : (1 : ℚ) ≤ c := by exact_mod_cast positive
  calc (2 : ℚ) ^ (1024 : ℤ) ≤ 2 ^ (3 * e) := zpow_le_zpow_right₀ one_le_two (by omega)
    _ ≤ 10 ^ e := two_zpow_le_ten_zpow (by omega)
    _ ≤ c * 10 ^ e := le_mul_of_one_le_left (ten_zpow_pos e).le one

theorem lt_two_zpow_of_small (low : e < -(400 + (c.log2 : ℤ))) :
    (c * 10 ^ e : ℚ) < 2 ^ (-1075 : ℤ) := by
  have bits : (c : ℚ) < 2 ^ (c.log2 + 1) := by exact_mod_cast Nat.lt_log2_self
  calc (c * 10 ^ e : ℚ) < 2 ^ (c.log2 + 1) * 10 ^ e :=
        mul_lt_mul_of_pos_right bits (ten_zpow_pos e)
    _ ≤ 2 ^ (c.log2 + 1) * 2 ^ (3 * e) :=
        mul_le_mul_of_nonneg_left (ten_zpow_le_two_zpow (by omega)) (by positivity)
    _ = 2 ^ ((c.log2 + 1 : ℕ) + 3 * e) := by rw [zpow_add₀ two_ne_zero, zpow_natCast]
    _ ≤ 2 ^ (-1075 : ℤ) := zpow_le_zpow_right₀ one_le_two (by push_cast; omega)

/-- The bounds on the exponent spare the computation of large powers, and change nothing. -/
theorem nearestRank_eq (c : ℕ) (e : ℤ) :
    nearestRank c e = Binary64.nearestRank (c * 10 ^ e.toNat) (10 ^ (-e).toNat) := by
  have power : 0 < 10 ^ (-e).toNat := Nat.pow_pos (by norm_num)
  have value := value_eq_div c e
  rw [nearestRank]
  split
  · rename_i zero
    rw [zero, Nat.zero_mul, Binary64.nearestRank_zero]
  rename_i nonzero
  split
  · rename_i high
    refine (Binary64.nearestRank_of_large power ?_).symm
    rw [value]
    exact two_zpow_le_of_large (Nat.pos_of_ne_zero nonzero) high
  split
  · rename_i low
    refine (Binary64.nearestRank_of_small power ?_).symm
    rw [value]
    exact lt_two_zpow_of_small low
  · rfl

/-- The nearest rank depends on the number alone, wherever its point is. -/
theorem nearestRank_congr (same : (c * 10 ^ e : ℚ) = c' * 10 ^ e') :
    nearestRank c e = nearestRank c' e' := by
  rw [nearestRank_eq, nearestRank_eq]
  refine Binary64.nearestRank_congr (Nat.pow_pos (by norm_num)) (Nat.pow_pos (by norm_num)) ?_
  rw [value_eq_div, value_eq_div, same]

/-- The value of a rank is read as that rank. -/
theorem nearestRank_of_value (positive : 0 < n) (finite : n < Binary64.infinityRank)
    (same : (c * 10 ^ e : ℚ) = valueOfRank n) : nearestRank c e = n := by
  rw [nearestRank_eq]
  exact Binary64.nearestRank_of_value positive finite (Nat.pow_pos (by norm_num))
    ((value_eq_div c e).trans same)

/-! ## The fewest digits -/

theorem stripZeros_value (fuel c : ℕ) (e : ℤ) :
    ((stripZeros fuel c e).1 * 10 ^ (stripZeros fuel c e).2 : ℚ) = c * 10 ^ e := by
  induction fuel generalizing c e with
  | zero => rfl
  | succ fuel inductionHypothesis =>
    rw [stripZeros]
    split
    · rename_i zero
      rw [inductionHypothesis, zpow_add_one₀ (by norm_num)]
      have tens : (c : ℚ) = (c / 10 : ℕ) * 10 := by
        exact_mod_cast (Nat.div_mul_cancel (Nat.dvd_of_mod_eq_zero zero.2)).symm
      rw [tens]
      ring
    · rfl

theorem exact_value (n : ℕ) : ((exact n).1 * 10 ^ (exact n).2 : ℚ) = valueOfRank n := by
  obtain ⟨q, scale⟩ : ∃ q, Binary64.scale n = q := ⟨_, rfl⟩
  rw [valueOfRank, scale]
  simp only [exact, scale, Nat.pow_eq]
  split
  · rename_i whole
    obtain ⟨k, rfl⟩ := Int.eq_ofNat_of_zero_le whole
    simp
  · rename_i fraction
    obtain ⟨k, rfl⟩ : ∃ k : ℕ, q = -k := ⟨(-q).toNat, by omega⟩
    have ten : (10 : ℚ) ^ k = 5 ^ k * 2 ^ k := by rw [← mul_pow]; norm_num
    simp only [neg_neg, Int.toNat_natCast, zpow_neg, zpow_natCast, ten]
    push_cast
    field_simp

theorem nearestRank_of_onGrid? {k : ℤ} (found : onGrid? tie n k = some (c, e)) :
    nearestRank c e = n := by
  have either (p : Prop) [Decidable p] {c : ℕ} (below : (nearestRank c k == n) = true)
      (above : (nearestRank (c + 1) k == n) = true) :
      nearestRank (if p then c + 1 else c) k = n := by
    split
    · exact beq_iff_eq.mp above
    · exact beq_iff_eq.mp below
  simp only [onGrid?] at found
  split at found
  · cases found
    exact either _ ‹_› ‹_›
  · cases found
    exact beq_iff_eq.mp ‹_›
  · cases found
    exact beq_iff_eq.mp ‹_›
  · cases found

/-- The fewest digits that identify a double are read as the double. -/
theorem nearestRank_shortest (tie : Tie) (positive : 0 < n) (finite : n < Binary64.infinityRank) :
    nearestRank (shortest tie n).1 (shortest tie n).2 = n := by
  simp only [shortest]
  rw [nearestRank_congr (stripZeros_value _ _ _)]
  cases found : (List.range 17).findSome? fun (i : ℕ) =>
      onGrid? tie n (floorLog10 (ratio n).1 (ratio n).2 - i) with
  | none => exact nearestRank_of_value positive finite (exact_value n)
  | some grid =>
    obtain ⟨i, -, onGrid⟩ := List.exists_of_findSome?_eq_some found
    exact nearestRank_of_onGrid? onGrid

end Decimal

end AlertEngine
