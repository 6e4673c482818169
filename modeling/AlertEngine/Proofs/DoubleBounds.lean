import AlertEngine.Proofs.DoubleSums

/-!
# Bounds of doubles

Rounding never moves a number past a double. An operation on finite doubles whose exact result is
no larger than some finite double therefore gives a finite double, and one that is no larger either.

* `Binary64.Cut`: a significand that a number has been cut off to, and what is known of the rest.
* `Binary64.Reached`: the magnitudes of finite doubles.
* `Binary64.Cut.roundWithAccuracy`: rounding does not pass a magnitude that is reached.
* `Binary64.Bounded`: finite doubles up to a magnitude, with one lemma for each operation.
* `Binary64.bounded_sum`, `Binary64.bounded_mean`: sums and means of some of them.
-/

namespace AlertEngine.Binary64

open Float.Model
open Float.Model.UnpackedFloat

/-! ## Cutting bits off -/

variable {em : ExtendedMantissa} {acc : Accuracy} {m b j : ℕ} {e t q : ℤ} {v : ℚ}

/-- What is left of a number once it has been cut off to a multiple of a power of two: it lies from
there to below the next multiple, and strictly above if a bit is left. -/
structure Cut (em : ExtendedMantissa) (e : ℤ) (v : ℚ) : Prop where
  below : (em.mantissa : ℚ) * 2 ^ e ≤ v
  above : v < (em.mantissa + 1 : ℕ) * 2 ^ e
  strict : (em.roundBit || em.stickyBit) = true → (em.mantissa : ℚ) * 2 ^ e < v

theorem cut_exact (m : ℕ) (e : ℤ) :
    Cut (ExtendedMantissa.ofMantissaAndAccuracy m .exact) e (m * 2 ^ e) where
  below := le_rfl
  above := mul_lt_mul_of_pos_right (by push_cast; exact lt_add_one _) (two_zpow_pos e)
  strict bit := by cases bit

theorem Cut.shiftRightOne (cut : Cut em e v) : Cut em.shiftRightOne (e + 1) v := by
  have power := two_zpow_pos e
  have doubled (n : ℕ) : (n : ℚ) * 2 ^ (e + 1) = (2 * n : ℕ) * 2 ^ e := by
    rw [zpow_add_one₀ two_ne_zero]
    push_cast
    ring
  have halved : 2 * (em.mantissa / 2) ≤ em.mantissa := by omega
  have lower : ((2 * (em.mantissa / 2) : ℕ) : ℚ) * 2 ^ e ≤ em.mantissa * 2 ^ e :=
    mul_le_mul_of_nonneg_right (by exact_mod_cast halved) power.le
  constructor
  case below =>
    exact (doubled _).trans_le (lower.trans cut.below)
  case above =>
    have upper : em.mantissa + 1 ≤ 2 * (em.mantissa / 2 + 1) := by omega
    refine cut.above.trans_le ((doubled _).symm ▸ ?_)
    exact mul_le_mul_of_nonneg_right (by exact_mod_cast upper) power.le
  case strict =>
    intro bit
    refine (doubled _).trans_lt ?_
    rw [ExtendedMantissa.shiftRightOne, Bool.or_eq_true, bne_iff_ne] at bit
    rcases bit with odd | earlier
    · have less : 2 * (em.mantissa / 2) < em.mantissa := by
        omega
      exact (mul_lt_mul_of_pos_right (by exact_mod_cast less) power).trans_le cut.below
    · exact lower.trans_lt (cut.strict earlier)

theorem Cut.shiftRight (cut : Cut em e v) (k : ℕ) : Cut (em >>> k) (e + k) v := by
  induction k with
  | zero => rw [Nat.cast_zero, add_zero]; exact cut
  | succ k inductionHypothesis =>
    have shifted := inductionHypothesis.shiftRightOne
    rw [add_assoc] at shifted
    exact_mod_cast shifted

/-- A number that is at most a multiple of the power of two is rounded to at most that. -/
theorem Cut.roundedMantissa_le (cut : Cut em e v) (bound : v ≤ j * 2 ^ e) :
    em.roundedMantissa ≤ j := by
  have power := two_zpow_pos e
  have least : em.mantissa ≤ j := by
    exact_mod_cast le_of_mul_le_mul_right (cut.below.trans bound) power
  -- If a bit is left, the number lies strictly above, so the next multiple is within the bound.
  have next (bit : (em.roundBit || em.stickyBit) = true) : em.mantissa + 1 ≤ j := by
    exact_mod_cast lt_of_mul_lt_mul_right ((cut.strict bit).trans_le bound) power.le
  obtain ⟨m, r, s⟩ := em
  cases r with
  | false =>
    cases s with
    | false => exact least
    | true => exact least
  | true =>
    have up := next rfl
    cases s with
    | false =>
      change m + m % 2 ≤ j
      dsimp only at up
      omega
    | true => exact up

theorem mantissa_le_roundedMantissa (em : ExtendedMantissa) : em.mantissa ≤ em.roundedMantissa := by
  obtain ⟨m, r, s⟩ := em
  cases r with
  | false => cases s <;> exact le_rfl
  | true =>
    cases s with
    | false => exact Nat.le_add_right m (m % 2)
    | true => exact Nat.le_succ m

/-! ## Rounding -/

theorem targetExponent_eq (m : ℕ) (e : ℤ) :
    Format.binary64.targetExponent (totalExponent m e) = max (m.log2 + e - 52) (-1074) := by
  simp only [Format.targetExponent, totalExponent, Format.mantissaBits, Format.minExponent]
  omega

inductive Reached : ℚ → Prop where
  | intro {b : ℕ} {q : ℤ} (bits : b < 2 ^ 53) (low : -1074 ≤ q) (high : q ≤ 971) :
    Reached (b * 2 ^ q)

theorem reached_two_zpow (low : -1074 ≤ q) (high : q ≤ 971) : Reached (2 ^ q) := by
  have one : (2 : ℚ) ^ q = (1 : ℕ) * 2 ^ q := by rw [Nat.cast_one, one_mul]
  exact one ▸ .intro (by norm_num) low high

theorem exponent_lt {k : ℕ} {n : ℤ} (normal : 2 ^ k ≤ m) (small : (m : ℚ) * 2 ^ t < 2 ^ n) :
    k + t < n := by
  have least : (2 : ℚ) ^ (k + t) ≤ m * 2 ^ t := by
    rw [zpow_add₀ two_ne_zero, zpow_natCast]
    exact mul_le_mul_of_nonneg_right (by exact_mod_cast normal) (two_zpow_pos t).le
  exact (zpow_lt_zpow_iff_right₀ one_lt_two).mp (least.trans_lt small)

theorem mul_two_zpow_lt {k : ℕ} {n : ℤ} (bits : m < 2 ^ k) (high : k + t ≤ n) :
    (m : ℚ) * 2 ^ t < 2 ^ n := by
  refine lt_of_lt_of_le ?_ (zpow_le_zpow_right₀ one_le_two high)
  rw [zpow_add₀ two_ne_zero, zpow_natCast]
  exact mul_lt_mul_of_pos_right (by exact_mod_cast bits) (two_zpow_pos t)

theorem Reached.lt {c : ℚ} (reached : Reached c) : c < 2 ^ (1024 : ℤ) := by
  obtain ⟨bits, low, high⟩ := reached
  exact mul_two_zpow_lt bits (by push_cast; omega)

/-- A rounded significand may have one bit too many, which is zero. -/
theorem exists_shiftToTargetExponent {n : ℕ} (positive : 0 < n) (bits : n ≤ 2 ^ 53)
    (low : -1074 ≤ t) (small : (n : ℚ) * 2 ^ t < 2 ^ (1024 : ℤ)) (normal : 2 ^ 52 ≤ n ∨ t = -1074) :
    ∃ n' t', Canonical n' t' ∧ (n' : ℚ) * 2 ^ t' = n * 2 ^ t ∧
      shiftToTargetExponent Format.binary64 n t .exact = (⟨n', false, false⟩, t') := by
  rcases Nat.lt_or_ge n (2 ^ 53) with short | long
  · have high : t ≤ 971 := by
      rcases normal with full | least
      · have := exponent_lt full small
        omega
      · omega
    have canonical : Canonical n t := ⟨positive, short, low, high, normal⟩
    have unshifted := canonical.shift 0
    rw [pow_zero, Nat.mul_one, Nat.cast_zero, sub_zero] at unshifted
    exact ⟨n, t, canonical, rfl, unshifted⟩
  · have high := exponent_lt long small
    obtain rfl : n = 2 ^ 53 := le_antisymm bits long
    have canonical : Canonical (2 ^ 52) (t + 1) :=
      ⟨by norm_num, by norm_num, by omega, by omega, .inl le_rfl⟩
    have shifted := canonical.shift 1
    rw [Nat.cast_one, add_sub_cancel_right] at shifted
    exact ⟨2 ^ 52, t + 1, canonical, by rw [zpow_add_one₀ two_ne_zero]; push_cast; ring, shifted⟩

theorem ofMantissaAndAccuracy_mantissa (m : ℕ) (acc : Accuracy) :
    (ExtendedMantissa.ofMantissaAndAccuracy m acc).mantissa = m := by
  cases acc with
  | exact => rfl
  | inexact o => cases o <;> rfl

theorem shiftToTargetExponent_zero (t : ℤ) :
    (shiftToTargetExponent Format.binary64 0 t .exact).1.mantissa = 0 := by
  have none (k : ℕ) := shiftRight_mul_two_pow 0 k
  simp only [Nat.zero_mul] at none
  exact congrArg ExtendedMantissa.mantissa (none _)

theorem abs_valueOf (s : Sign) (positive : 0 < m) :
    |valueOf (.finite s m e positive)| = m * 2 ^ e := by
  have magnitude : (0 : ℚ) ≤ m * 2 ^ e := by positivity
  cases s with
  | positive => rw [valueOf_positive, abs_of_nonneg magnitude]
  | negative => rw [valueOf_negative, abs_neg, abs_of_nonneg magnitude]

/-- The first shift leaves a significand of 53 bits, fewer of them only at the least exponent. -/
theorem Cut.exists_target {acc : Accuracy}
    (cut : Cut (ExtendedMantissa.ofMantissaAndAccuracy m acc) e v)
    (room : e ≤ Format.binary64.targetExponent (totalExponent m e)) :
    ∃ em t, shiftToTargetExponent Format.binary64 m e acc = (em, t) ∧ Cut em t v ∧
      em.mantissa < 2 ^ 53 ∧ -1074 ≤ t ∧ (2 ^ 52 ≤ em.mantissa ∨ t = -1074) := by
  obtain ⟨t, target⟩ : ∃ t, Format.binary64.targetExponent (totalExponent m e) = t := ⟨_, rfl⟩
  have cutOff := cut.shiftRight (t - e).toNat
  have exponent : e + ((t - e).toNat : ℤ) = t := by omega
  have below := cut.below
  have above := cut.above
  rw [exponent] at cutOff
  rw [ofMantissaAndAccuracy_mantissa] at below above
  refine ⟨_, t, by rw [shiftToTargetExponent, target, shiftToExponent, exponent], cutOff,
    ?_, ?_, ?_⟩
  · rw [targetExponent_eq] at target
    have upper : v < 2 ^ (53 + t) :=
      above.trans_le <| by
        have bits : m + 1 ≤ 2 ^ (m.log2 + 1) := Nat.lt_log2_self
        calc ((m + 1 : ℕ) : ℚ) * 2 ^ e ≤ (2 ^ (m.log2 + 1) : ℕ) * 2 ^ e :=
              mul_le_mul_of_nonneg_right (by exact_mod_cast bits) (two_zpow_pos e).le
          _ = 2 ^ ((m.log2 + 1 : ℕ) + e : ℤ) := by
              rw [zpow_add₀ two_ne_zero, zpow_natCast]
              push_cast
              rfl
          _ ≤ 2 ^ (53 + t) := zpow_le_zpow_right₀ one_le_two (by push_cast; omega)
    have shifted := cutOff.below.trans_lt upper
    rw [zpow_add₀ two_ne_zero] at shifted
    exact_mod_cast lt_of_mul_lt_mul_right shifted (two_zpow_pos t).le
  · rw [targetExponent_eq] at target
    omega
  · rw [targetExponent_eq] at target
    refine or_iff_not_imp_right.mpr fun apart => ?_
    have positive : 0 < m := by
      rcases Nat.eq_zero_or_pos m with rfl | positive
      · rw [targetExponent_eq, Nat.log2_zero] at room
        rw [Nat.log2_zero] at target
        omega
      · exact positive
    have lower : (2 : ℚ) ^ (52 + t) ≤ v := le_trans (by
      have shifted : (52 + t : ℤ) = m.log2 + e := by omega
      rw [shifted, zpow_add₀ two_ne_zero, zpow_natCast]
      exact mul_le_mul_of_nonneg_right (by exact_mod_cast Nat.log2_self_le positive.ne')
        (two_zpow_pos e).le) below
    have shifted := lower.trans_lt cutOff.above
    rw [zpow_add₀ two_ne_zero] at shifted
    exact Nat.le_of_lt_succ (by exact_mod_cast lt_of_mul_lt_mul_right shifted (two_zpow_pos t).le)

/-- Rounding does not pass a magnitude that is reached. -/
theorem Cut.roundWithAccuracy {acc : Accuracy} {c : ℚ}
    (cut : Cut (ExtendedMantissa.ofMantissaAndAccuracy m acc) e v)
    (room : e ≤ Format.binary64.targetExponent (totalExponent m e)) (s : Sign)
    (reached : Reached c) (bound : v ≤ c) :
    FiniteParts (UnpackedFloat.roundWithAccuracy Format.binary64 s m e acc) ∧
      |valueOf (UnpackedFloat.roundWithAccuracy Format.binary64 s m e acc)| ≤ c := by
  obtain ⟨em, t, shifted, cutOff, bits, low, normal⟩ := cut.exists_target room
  have small := reached.lt
  obtain ⟨short, lowest, highest⟩ := reached
  rename_i b q
  have magnitude : (em.roundedMantissa : ℚ) * 2 ^ t ≤ b * 2 ^ q := by
    rcases le_or_gt t q with within | beyond
    · obtain ⟨k, rfl⟩ := Int.le.dest within
      have multiple : (b : ℚ) * 2 ^ (t + k) = (b * 2 ^ k : ℕ) * 2 ^ t := by
        rw [zpow_add₀ two_ne_zero, zpow_natCast]
        push_cast
        ring
      rw [multiple] at bound ⊢
      exact mul_le_mul_of_nonneg_right (by exact_mod_cast cutOff.roundedMantissa_le bound)
        (two_zpow_pos t).le
    · have full := normal.resolve_right (by omega)
      have beneath : (em.mantissa : ℚ) * 2 ^ t < 2 ^ (52 + t) :=
        (cutOff.below.trans bound).trans_lt (mul_two_zpow_lt short (by push_cast; omega))
      exact absurd (exponent_lt full beneath) (by push_cast; exact lt_irrefl _)
  have fits : em.roundedMantissa ≤ 2 ^ 53 := cutOff.roundedMantissa_le <|
    cutOff.above.le.trans
      (mul_le_mul_of_nonneg_right (by exact_mod_cast Nat.succ_le_of_lt bits) (two_zpow_pos t).le)
  rcases Nat.eq_zero_or_pos em.roundedMantissa with zero | positive
  · have rounded : UnpackedFloat.roundWithAccuracy Format.binary64 s m e acc = .zero s := by
      rw [UnpackedFloat.roundWithAccuracy, shifted]
      simp only [zero, shiftToTargetExponent_zero, dite_true]
    rw [rounded]
    have nonnegative : (0 : ℚ) ≤ b * 2 ^ q := mul_nonneg (Nat.cast_nonneg b) (two_zpow_pos q).le
    exact ⟨.zero s, abs_zero.trans_le nonnegative⟩
  · obtain ⟨n, t', canonical, same, again⟩ := exists_shiftToTargetExponent positive fits low
      (magnitude.trans_lt small)
      (normal.imp_left fun full => full.trans (mantissa_le_roundedMantissa em))
    have rounded : UnpackedFloat.roundWithAccuracy Format.binary64 s m e acc =
        .finite s n t' canonical.pos := by
      rw [UnpackedFloat.roundWithAccuracy, shifted]
      simp only [again, canonical.pos.ne', dite_false]
    rw [rounded]
    exact ⟨.finite s canonical, by rwa [abs_valueOf, same]⟩

/-! ## Operations on parts -/

variable {c : ℚ}

theorem round_le (s : Sign) (positive : 0 < m) (reached : Reached c) (bound : m * 2 ^ e ≤ c) :
    FiniteParts (UnpackedFloat.round Format.binary64 s m e) ∧
      |valueOf (UnpackedFloat.round Format.binary64 s m e)| ≤ c := by
  obtain ⟨k, amount⟩ : ∃ k : ℕ,
      (e - Format.binary64.targetExponent (totalExponent m e)).toNat = k := ⟨_, rfl⟩
  have total : totalExponent (m * 2 ^ k) (e - k) = totalExponent m e := by
    rw [totalExponent, totalExponent, log2_mul_two_pow positive]
    push_cast
    omega
  have same : ((m * 2 ^ k : ℕ) : ℚ) * 2 ^ (e - k : ℤ) = m * 2 ^ e := by
    rw [zpow_sub₀ two_ne_zero, zpow_natCast]
    push_cast
    field_simp
  have cut := cut_exact (m * 2 ^ k) (e - k)
  rw [same] at cut
  rw [UnpackedFloat.round, decreaseExponent, amount, Nat.shiftLeft_eq]
  exact cut.roundWithAccuracy (by rw [total]; omega) s reached bound

theorem normalize_le {i : ℤ} (reached : Reached c) (bound : |(i : ℚ) * 2 ^ e| ≤ c) :
    FiniteParts (UnpackedFloat.normalize Format.binary64 i e .positive) ∧
      |valueOf (UnpackedFloat.normalize Format.binary64 i e .positive)| ≤ c := by
  have magnitude : ((i.natAbs : ℕ) : ℚ) * 2 ^ e ≤ c := by
    rwa [abs_mul, abs_of_pos (two_zpow_pos e), ← Int.cast_abs, Int.abs_eq_natAbs,
      Int.cast_natCast] at bound
  rcases lt_trichotomy i 0 with negative | rfl | positive
  · have compared : compare i 0 = .lt := compare_lt_iff_lt.mpr negative
    have size : (-i).toNat = i.natAbs := by omega
    rw [UnpackedFloat.normalize, compared, size]
    exact round_le .negative (Int.natAbs_pos.mpr negative.ne) reached magnitude
  · refine ⟨.zero .positive, ?_⟩
    rw [Int.cast_zero, zero_mul, abs_zero] at bound
    simpa [UnpackedFloat.normalize, valueOf] using bound
  · have compared : compare i 0 = .gt := compare_gt_iff_gt.mpr positive
    have size : i.toNat = i.natAbs := by omega
    rw [UnpackedFloat.normalize, compared, size]
    exact round_le .positive (Int.natAbs_pos.mpr positive.ne') reached magnitude

variable {u w : UnpackedFloat}

theorem FiniteParts.add_le (finiteU : FiniteParts u) (finiteW : FiniteParts w)
    (reached : Reached c) (bound : |valueOf u + valueOf w| ≤ c) :
    FiniteParts (UnpackedFloat.add Format.binary64 u w) ∧
      |valueOf (UnpackedFloat.add Format.binary64 u w)| ≤ c := by
  have zero (s : Sign) : valueOf (.zero s) = 0 := rfl
  cases finiteU with
  | zero s =>
    rw [zero, zero_add] at bound
    cases finiteW with
    | zero r =>
      rw [UnpackedFloat.add]
      split
      · exact ⟨.zero s, bound⟩
      · exact ⟨.zero .positive, bound⟩
    | finite r canonical => exact ⟨.finite r canonical, bound⟩
  | finite s canonical =>
    rename_i m e
    cases finiteW with
    | zero r =>
      rw [zero, add_zero] at bound
      exact ⟨.finite s canonical, bound⟩
    | finite r canonical' =>
      rename_i m' e'
      have aligned := apply_decreaseExponent s (m := m) (min_le_left e e')
      have aligned' := apply_decreaseExponent r (m := m') (min_le_right e e')
      have total : |((s.apply (decreaseExponent m e (min e e')).1 +
            r.apply (decreaseExponent m' e' (min e e')).1 : ℤ) : ℚ) * 2 ^ min e e'| ≤ c := by
        rw [Int.cast_add, add_mul, aligned, aligned']
        exact bound
      exact normalize_le reached total

theorem Canonical.mul_room {m' : ℕ} {e' : ℤ} (canonical : Canonical m e)
    (canonical' : Canonical m' e') :
    e + e' ≤ Format.binary64.targetExponent (totalExponent (m * m') (e + e')) := by
  have low := canonical.low
  have low' := canonical'.low
  rw [targetExponent_eq]
  have product : 0 < m * m' := Nat.mul_pos canonical.pos canonical'.pos
  rcases canonical.normal with full | least
  · have bits : 52 ≤ (m * m').log2 := (Nat.le_log2 product.ne').mpr
      (full.trans (Nat.le_mul_of_pos_right m canonical'.pos))
    omega
  · rcases canonical'.normal with full' | least'
    · have bits : 52 ≤ (m * m').log2 := (Nat.le_log2 product.ne').mpr
        (full'.trans (Nat.le_mul_of_pos_left m' canonical.pos))
      omega
    · omega

theorem FiniteParts.mul_le (finiteU : FiniteParts u) (finiteW : FiniteParts w)
    (reached : Reached c) (bound : |valueOf u * valueOf w| ≤ c) :
    FiniteParts (UnpackedFloat.mul Format.binary64 u w) ∧
      |valueOf (UnpackedFloat.mul Format.binary64 u w)| ≤ c := by
  have nonnegative : |(0 : ℚ)| ≤ c := abs_zero.trans_le ((abs_nonneg _).trans bound)
  cases finiteU with
  | zero s =>
    cases finiteW with
    | zero r => exact ⟨.zero _, nonnegative⟩
    | finite r canonical => exact ⟨.zero _, nonnegative⟩
  | finite s canonical =>
    rename_i m e
    cases finiteW with
    | zero r => exact ⟨.zero _, nonnegative⟩
    | finite r canonical' =>
      rename_i m' e'
      rw [abs_mul, abs_valueOf, abs_valueOf] at bound
      have cut := cut_exact (m * m') (e + e')
      refine cut.roundWithAccuracy (canonical.mul_room canonical') (s * r) reached ?_
      rw [zpow_add₀ two_ne_zero]
      push_cast
      linarith

/-- The quotient of two significands, cut off. -/
theorem cut_quotient (n : ℕ) {d : ℕ} (positive : 0 < d) (e : ℤ) :
    Cut (ExtendedMantissa.ofMantissaAndAccuracy (n / d) (accuracyOfFraction (n % d) d)) e
      (n / d * 2 ^ e) := by
  have power := two_zpow_pos e
  have divisor : (0 : ℚ) < d := by exact_mod_cast positive
  have whole := Nat.div_add_mod n d
  have rest := Nat.mod_lt n positive
  constructor
  case below =>
    rw [ofMantissaAndAccuracy_mantissa]
    exact mul_le_mul_of_nonneg_right Nat.cast_div_le power.le
  case above =>
    rw [ofMantissaAndAccuracy_mantissa]
    refine mul_lt_mul_of_pos_right ((div_lt_iff₀ divisor).mpr ?_) power
    have less : n < (n / d + 1) * d := by
      rw [Nat.add_mul, Nat.one_mul, Nat.mul_comm]
      omega
    exact_mod_cast less
  case strict =>
    intro bit
    rw [ofMantissaAndAccuracy_mantissa]
    refine mul_lt_mul_of_pos_right ((lt_div_iff₀ divisor).mpr ?_) power
    rcases Nat.eq_zero_or_pos (n % d) with exact | remainder
    · rw [accuracyOfFraction, if_pos exact] at bit
      cases bit
    · have less : n / d * d < n := by
        rw [Nat.mul_comm]
        omega
      exact_mod_cast less

/-- The quotient is taken with enough bits for the rounding to come. -/
theorem quotient_room {n d : ℕ} {k : ℕ} (positive : 0 < n) (positive' : 0 < d) {e e' t : ℤ}
    (target : min (e - e') (Format.binary64.targetExponent
      (totalExponent n e - totalExponent d e')) = t) (shift : e - e' = t + k) :
    t ≤ Format.binary64.targetExponent (totalExponent (n * 2 ^ k / d) t) := by
  rw [targetExponent_eq]
  -- The quotient has 53 bits at least, unless the least exponent has been reached before.
  have aim : Format.binary64.targetExponent (totalExponent n e - totalExponent d e') =
      max (n.log2 - d.log2 + (e - e') - 53) (-1074) := by
    simp only [Format.targetExponent, totalExponent, Format.mantissaBits, Format.minExponent]
    omega
  rw [aim] at target
  rcases le_or_gt t (-1074) with least | above
  · exact le_max_of_le_right least
  · have bits : d.log2 + 53 ≤ n.log2 + k := by omega
    have numerator : 2 ^ (d.log2 + 53) ≤ n * 2 ^ k :=
      (Nat.pow_le_pow_right two_pos bits).trans <| by
        rw [pow_add]
        exact Nat.mul_le_mul_right _ (Nat.log2_self_le positive.ne')
    have long : 2 ^ 52 ≤ n * 2 ^ k / d := by
      rw [Nat.le_div_iff_mul_le positive']
      refine le_trans ?_ numerator
      have denominator : d ≤ 2 ^ (d.log2 + 1) := Nat.lt_log2_self.le
      calc 2 ^ 52 * d ≤ 2 ^ 52 * 2 ^ (d.log2 + 1) := Nat.mul_le_mul_left _ denominator
        _ = 2 ^ (d.log2 + 53) := by rw [← pow_add]; congr 1; omega
    have full : 52 ≤ (n * 2 ^ k / d).log2 :=
      (Nat.le_log2 (Nat.ne_of_gt (lt_of_lt_of_le (by norm_num) long))).mpr long
    omega

theorem FiniteParts.div_le (finiteU : FiniteParts u) (finiteW : FiniteParts w)
    (nonzero : valueOf w ≠ 0) (reached : Reached c) (bound : |valueOf u / valueOf w| ≤ c) :
    FiniteParts (UnpackedFloat.div Format.binary64 u w) ∧
      |valueOf (UnpackedFloat.div Format.binary64 u w)| ≤ c := by
  have nonnegative : |(0 : ℚ)| ≤ c := abs_zero.trans_le ((abs_nonneg _).trans bound)
  cases finiteW with
  | zero r => exact absurd rfl nonzero
  | finite r canonical' =>
    rename_i m' e'
    cases finiteU with
    | zero s => exact ⟨.zero _, nonnegative⟩
    | finite s canonical =>
      rename_i m e
      rw [abs_div, abs_valueOf, abs_valueOf] at bound
      obtain ⟨t, target⟩ : ∃ t, min (e - e') (Format.binary64.targetExponent
        (totalExponent m e - totalExponent m' e')) = t := ⟨_, rfl⟩
      obtain ⟨k, shift⟩ := Int.le.dest (target ▸ min_le_left _ _ : t ≤ e - e')
      have amount : (e - e' - t).toNat = k := by omega
      have cut := cut_quotient (m * 2 ^ k) canonical'.pos t
      have same : ((m * 2 ^ k : ℕ) : ℚ) / m' * 2 ^ t = m * 2 ^ e / (m' * 2 ^ e') := by
        have power : (2 : ℚ) ^ e = 2 ^ t * 2 ^ k * 2 ^ e' := by
          rw [← zpow_natCast (2 : ℚ) k, ← zpow_add₀ two_ne_zero, ← zpow_add₀ two_ne_zero]
          congr 1
          omega
        have divisor : (m' : ℚ) ≠ 0 := by exact_mod_cast canonical'.pos.ne'
        have scale : (2 : ℚ) ^ e' ≠ 0 := zpow_ne_zero e' two_ne_zero
        rw [power]
        push_cast
        field_simp
      rw [same] at cut
      have quotient : UnpackedFloat.div Format.binary64 (.finite s m e canonical.pos)
          (.finite r m' e' canonical'.pos) =
            UnpackedFloat.roundWithAccuracy Format.binary64 (s / r) (m * 2 ^ k / m') t
              (accuracyOfFraction (m * 2 ^ k % m') m') := by
        simp only [UnpackedFloat.div, divCore, target, amount, Nat.shiftLeft_eq]
      rw [quotient]
      exact cut.roundWithAccuracy (quotient_room canonical.pos canonical'.pos target shift.symm)
        (s / r) reached bound

theorem FiniteParts.neg (finite : FiniteParts u) :
    FiniteParts u.neg ∧ valueOf u.neg = -valueOf u := by
  cases finite with
  | zero s => exact ⟨.zero (-s), neg_zero.symm⟩
  | finite s canonical =>
    refine ⟨.finite (-s) canonical, ?_⟩
    cases s with
    | positive => rw [valueOf_positive]; exact valueOf_negative canonical.pos
    | negative => rw [valueOf_negative, neg_neg]; exact valueOf_positive canonical.pos

theorem FiniteParts.abs (finite : FiniteParts u) :
    FiniteParts u.abs ∧ valueOf u.abs = |valueOf u| := by
  cases finite with
  | zero s => exact ⟨.zero .positive, abs_zero.symm⟩
  | finite s canonical =>
    refine ⟨.finite .positive canonical, ?_⟩
    rw [abs_valueOf]
    exact valueOf_positive canonical.pos

/-- The magnitude of a finite double is reached. -/
theorem FiniteParts.reached (finite : FiniteParts u) : Reached |valueOf u| := by
  cases finite with
  | zero s =>
    have zero : |valueOf (.zero s)| = ((0 : ℕ) : ℚ) * 2 ^ (0 : ℤ) := by simp [valueOf]
    rw [zero]
    exact .intro (by norm_num) (by norm_num) (by norm_num)
  | finite s canonical =>
    rw [abs_valueOf]
    exact .intro canonical.bits canonical.low canonical.high

/-- A double times one is the double. -/
theorem FiniteParts.mul_one (finite : FiniteParts u) :
    UnpackedFloat.mul Format.binary64 u (.finite .positive (2 ^ 52) (-52) (by decide)) = u := by
  cases finite with
  | zero s => cases s <;> rfl
  | finite s canonical =>
    have same : s * .positive = s := by cases s <;> rfl
    have rounded := canonical.roundWithAccuracy s 52
    rw [UnpackedFloat.mul, same]
    exact rounded

/-! ## Operations on doubles -/

structure Bounded (c : ℚ) (x : Float) : Prop where
  finite : x.isFinite
  bound : |value x| ≤ c

variable {x y : Float} {xs : List Float}

theorem Bounded.mono {c' : ℚ} (bounded : Bounded c x) (le : c ≤ c') : Bounded c' x :=
  ⟨bounded.finite, bounded.bound.trans le⟩

theorem reached_value (finite : x.isFinite) : Reached |value x| :=
  (finiteParts_parts finite).reached

theorem parts_of_pack (packed : parts x = (Float.Model.pack u).unpack) (finite : FiniteParts u) :
    x.isFinite ∧ value x = valueOf u := by
  rw [finite.unpack_pack] at packed
  refine ⟨?_, by rw [value, packed]⟩
  change (parts x).isFinite
  rw [packed]
  exact finite.isFinite

theorem bounded_of_pack (packed : parts x = (Float.Model.pack u).unpack)
    (result : FiniteParts u ∧ |valueOf u| ≤ c) : Bounded c x := by
  obtain ⟨finite, same⟩ := parts_of_pack packed result.1
  exact ⟨finite, same ▸ result.2⟩

section Operations

variable (finiteX : x.isFinite) (finiteY : y.isFinite) (reached : Reached c)

include finiteX finiteY reached

theorem bounded_add (bound : |value x + value y| ≤ c) : Bounded c (x + y) :=
  bounded_of_pack rfl
    ((finiteParts_parts finiteX).add_le (finiteParts_parts finiteY) reached bound)

theorem bounded_sub (bound : |value x - value y| ≤ c) : Bounded c (x - y) := by
  obtain ⟨finite, negated⟩ := (finiteParts_parts finiteY).neg
  rw [sub_eq_add_neg, value, value, ← negated] at bound
  refine bounded_of_pack (u := UnpackedFloat.sub Format.binary64 (parts x) (parts y)) rfl ?_
  rw [sub_eq_add_neg_parts]
  exact (finiteParts_parts finiteX).add_le finite reached bound

theorem bounded_mul (bound : |value x * value y| ≤ c) : Bounded c (x * y) :=
  bounded_of_pack rfl
    ((finiteParts_parts finiteX).mul_le (finiteParts_parts finiteY) reached bound)

theorem bounded_div (nonzero : value y ≠ 0) (bound : |value x / value y| ≤ c) : Bounded c (x / y) :=
  bounded_of_pack rfl
    ((finiteParts_parts finiteX).div_le (finiteParts_parts finiteY) nonzero reached bound)

end Operations

theorem Bounded.neg (bounded : Bounded c x) : Bounded c (-x) := by
  obtain ⟨finite, negated⟩ := (finiteParts_parts bounded.finite).neg
  have bound : |valueOf (parts x).neg| ≤ c := by
    rw [negated, abs_neg]
    exact bounded.bound
  exact bounded_of_pack rfl ⟨finite, bound⟩

theorem Bounded.abs (bounded : Bounded c x) : Bounded c x.abs := by
  obtain ⟨finite, absolute⟩ := (finiteParts_parts bounded.finite).abs
  have bound : |valueOf (parts x).abs| ≤ c := by
    rw [absolute, abs_abs]
    exact bounded.bound
  exact bounded_of_pack rfl ⟨finite, bound⟩

/-! ## Sums and means -/

/-- A sum is no larger than as many copies of the bound of its summands. -/
theorem bounded_sum (each : ∀ x ∈ xs, Bounded (2 ^ q) x) (short : xs.length < 2 ^ 53)
    (low : -1074 ≤ q) (high : q ≤ 971) : Bounded (xs.length * 2 ^ q) (sum xs) := by
  induction xs using List.reverseRecOn with
  | nil =>
    have empty := exactSum_nil q
    refine ⟨empty.finite, ?_⟩
    rw [empty.value]
    simp
  | append_singleton xs x inductionHypothesis =>
    rw [List.forall_mem_append, List.forall_mem_singleton] at each
    rw [List.length_append, List.length_singleton] at short ⊢
    have before := inductionHypothesis each.1 (by omega)
    rw [sum_snoc]
    refine bounded_add before.finite each.2.finite (.intro short low high) ?_
    calc |value (sum xs) + value x| ≤ |value (sum xs)| + |value x| := abs_add_le _ _
      _ ≤ xs.length * 2 ^ q + 2 ^ q := add_le_add before.bound each.2.bound
      _ = (xs.length + 1 : ℕ) * 2 ^ q := by push_cast; ring

/-- Whole numbers of fewer than 54 bits are doubles. -/
theorem value_ofNat {n : ℕ} (bits : n < 2 ^ 53) :
    (Float.ofNat n).isFinite ∧ value (Float.ofNat n) = n := by
  have product : Float.ofNat n = n.toUInt64.toFloat * Float.ofBits 0x3FF0000000000000 := by
    change Float.ofScientific n false 0 = _
    rw [Float.ofScientific, dif_pos ⟨bits, by decide⟩]
    rfl
  have one : parts (Float.ofBits 0x3FF0000000000000) =
      .finite .positive (2 ^ 52) (-52) (by decide) := rfl
  have number : n.toUInt64.toNat = n := Nat.mod_eq_of_lt (bits.trans (by norm_num))
  have small : |(n : ℤ)| < 2 ^ 53 := by
    rw [Nat.abs_cast]
    exact_mod_cast bits
  obtain ⟨finite, whole⟩ := normalize_exact (e := 0) (q := 0)
    (rfl : ((n : ℤ) : ℚ) * 2 ^ (0 : ℤ) = _) small (by norm_num) (by norm_num)
  have shape : parts n.toUInt64.toFloat =
      (Float.Model.pack (UnpackedFloat.normalize Format.binary64 n 0 .positive)).unpack := by
    have unfolded : parts n.toUInt64.toFloat = (Float.Model.pack
      (UnpackedFloat.normalize Format.binary64 n.toUInt64.toNat 0 .positive)).unpack := rfl
    rw [unfolded, number]
  rw [finite.unpack_pack] at shape
  have parted : parts (Float.ofNat n) = (Float.Model.pack
      (UnpackedFloat.normalize Format.binary64 n 0 .positive)).unpack := by
    rw [product, ← finite.mul_one, ← shape, ← one]
    rfl
  obtain ⟨isFinite, same⟩ := parts_of_pack parted finite
  refine ⟨isFinite, same.trans (whole.trans ?_)⟩
  simp

/-- A mean is no larger than the bound of its summands. -/
theorem bounded_mean (each : ∀ x ∈ xs, Bounded (2 ^ q) x) (present : xs ≠ [])
    (short : xs.length < 2 ^ 53) (low : -1074 ≤ q) (high : q ≤ 971) :
    Bounded (2 ^ q) (mean xs) := by
  have total := bounded_sum each short low high
  obtain ⟨finite, count⟩ := value_ofNat short
  have positive : (0 : ℚ) < xs.length := by exact_mod_cast List.length_pos_iff.mpr present
  rw [mean]
  refine bounded_div total.finite finite (reached_two_zpow low high) (count ▸ positive.ne') ?_
  rw [count, abs_div, abs_of_pos positive, div_le_iff₀ positive, mul_comm]
  exact total.bound

end AlertEngine.Binary64
