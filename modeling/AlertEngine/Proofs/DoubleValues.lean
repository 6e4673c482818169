import Mathlib
import AlertEngine.Binary64

/-!
# Values of doubles

Finite doubles stand for rational numbers. Here is what is needed of them to reason about sums.

* `Binary64.value`: the number that a finite double stands for.
* `Binary64.Canonical`: the significand and the exponent of a finite double, in the one form that
  doubles have them.
* `Binary64.normalize_exact`: a number that fits into 53 bits is rounded to itself.
* `Binary64.FiniteParts.unpack_pack`: packing the parts of a finite double loses nothing.
* `Binary64.lt_iff_value`: finite doubles compare as their numbers do.
-/

namespace AlertEngine.Binary64

open Float.Model
open Float.Model.UnpackedFloat

/-! ## Values -/

def parts (x : Float) : UnpackedFloat := x.toModel.unpack

def valueOf : UnpackedFloat → ℚ
  | .finite s m e _ => s.apply m * 2 ^ e
  | _ => 0

def value (x : Float) : ℚ := valueOf (parts x)

/-- A significand and an exponent as the parts of a double have them: the significand has 53 bits,
the first of them set unless the exponent is the least one. -/
structure Canonical (m : ℕ) (e : ℤ) : Prop where
  pos : 0 < m
  bits : m < 2 ^ 53
  low : -1074 ≤ e
  high : e ≤ 971
  normal : 2 ^ 52 ≤ m ∨ e = -1074

inductive FiniteParts : UnpackedFloat → Prop where
  | zero (s : Sign) : FiniteParts (.zero s)
  | finite (s : Sign) {m : ℕ} {e : ℤ} (canonical : Canonical m e) :
    FiniteParts (.finite s m e canonical.pos)

/-! ## Rounding -/

variable {m n : ℕ} {e t : ℤ}

theorem Canonical.log2_le (canonical : Canonical n t) : n.log2 ≤ 52 := by
  have below := (Nat.log2_lt canonical.pos.ne').mpr canonical.bits
  omega

theorem log2_mul_two_pow (positive : 0 < n) (k : ℕ) : (n * 2 ^ k).log2 = n.log2 + k := by
  have shifted : 0 < n * 2 ^ k := Nat.mul_pos positive (Nat.two_pow_pos k)
  rw [Nat.log2_eq_iff shifted.ne', pow_add, Nat.add_right_comm, pow_add _ (n.log2 + 1)]
  exact ⟨Nat.mul_le_mul_right _ (Nat.log2_self_le positive.ne'),
    Nat.mul_lt_mul_of_pos_right Nat.lt_log2_self (Nat.two_pow_pos k)⟩

/-- Rounding aims at the exponent of the canonical parts. -/
theorem Canonical.target (canonical : Canonical n t) (k : ℕ) :
    Format.binary64.targetExponent (totalExponent (n * 2 ^ k) (t - k)) = t := by
  have target : Format.binary64.targetExponent (totalExponent (n * 2 ^ k) (t - k)) =
      max (n.log2 + t - 52) (-1074) := by
    simp only [Format.targetExponent, totalExponent, log2_mul_two_pow canonical.pos,
      Format.mantissaBits, Format.minExponent]
    omega
  have low := canonical.low
  have small := canonical.log2_le
  rw [target]
  rcases canonical.normal with normal | least
  · have large : 52 ≤ n.log2 := (Nat.le_log2 canonical.pos.ne').mpr normal
    omega
  · omega

theorem shiftRight_mul_two_pow (n k : ℕ) :
    (⟨n * 2 ^ k, false, false⟩ : ExtendedMantissa) >>> k = ⟨n, false, false⟩ := by
  induction k generalizing n with
  | zero => rw [pow_zero, Nat.mul_one]; rfl
  | succ k inductionHypothesis =>
    have doubled := inductionHypothesis (n * 2)
    rw [Nat.mul_assoc, ← pow_succ'] at doubled
    change ExtendedMantissa.shiftRightOne
      ((⟨n * 2 ^ (k + 1), false, false⟩ : ExtendedMantissa) >>> k) = _
    rw [doubled]
    simp [ExtendedMantissa.shiftRightOne]

/-- Bits that are zero are shifted out without a trace. -/
theorem Canonical.shift (canonical : Canonical n t) (k : ℕ) :
    shiftToTargetExponent Format.binary64 (n * 2 ^ k) (t - k) .exact =
      (⟨n, false, false⟩, t) := by
  have amount : (t - (t - k)).toNat = k := by omega
  rw [shiftToTargetExponent, canonical.target, shiftToExponent, amount]
  exact Prod.ext (shiftRight_mul_two_pow n k) (by simp)

theorem Canonical.roundWithAccuracy (canonical : Canonical n t) (s : Sign) (k : ℕ) :
    UnpackedFloat.roundWithAccuracy Format.binary64 s (n * 2 ^ k) (t - k) .exact =
      .finite s n t canonical.pos := by
  have again := canonical.shift 0
  rw [pow_zero, Nat.mul_one, Nat.cast_zero, sub_zero] at again
  have rounded : (⟨n, false, false⟩ : ExtendedMantissa).roundedMantissa = n := rfl
  rw [UnpackedFloat.roundWithAccuracy, canonical.shift k]
  simp only [rounded, again, canonical.pos.ne', dite_false]

theorem two_zpow_pos (e : ℤ) : (0 : ℚ) < 2 ^ e := zpow_pos two_pos e

/-- A number in two places of the binary point. -/
theorem exists_shift (same : (m : ℚ) * 2 ^ e = n * 2 ^ t) :
    (∃ k : ℕ, m = n * 2 ^ k ∧ e = t - k) ∨ ∃ k : ℕ, n = m * 2 ^ k ∧ t = e - k := by
  have moved {m n : ℕ} {e : ℤ} {k : ℕ} (same : (m : ℚ) * 2 ^ e = n * 2 ^ (e + k)) :
      m = n * 2 ^ k := by
    rw [zpow_add₀ two_ne_zero, zpow_natCast, mul_comm (2 ^ e : ℚ), ← mul_assoc] at same
    exact_mod_cast mul_right_cancel₀ (zpow_ne_zero e two_ne_zero) same
  rcases le_total e t with below | below
  · obtain ⟨k, rfl⟩ := Int.le.dest below
    exact .inl ⟨k, moved same, by omega⟩
  · obtain ⟨k, rfl⟩ := Int.le.dest below
    exact .inr ⟨k, moved same.symm, by omega⟩

/-- Rounding a number that has canonical parts gives these parts. -/
theorem Canonical.round (canonical : Canonical n t) (s : Sign)
    (same : (m : ℚ) * 2 ^ e = n * 2 ^ t) :
    UnpackedFloat.round Format.binary64 s m e = .finite s n t canonical.pos := by
  -- The number is given with zeros behind the canonical significand, or with too few of its bits.
  rcases exists_shift same with ⟨k, rfl, rfl⟩ | ⟨k, rfl, rfl⟩
  · have amount : (t - k - t).toNat = 0 := by omega
    rw [UnpackedFloat.round, canonical.target, decreaseExponent, amount]
    simpa using canonical.roundWithAccuracy s k
  · have target := canonical.target 0
    have rounded := canonical.roundWithAccuracy s 0
    have amount : (e - (e - k)).toNat = k := by omega
    have total : totalExponent m e = totalExponent (m * 2 ^ k * 2 ^ 0) (e - k - (0 : ℕ)) := by
      rw [pow_zero, Nat.mul_one, totalExponent, totalExponent,
        log2_mul_two_pow (Nat.pos_of_mul_pos_right canonical.pos)]
      push_cast
      omega
    rw [UnpackedFloat.round, total, target, decreaseExponent, amount, Nat.shiftLeft_eq]
    simpa using rounded

/-- A number of fewer than 54 bits has canonical parts. -/
theorem exists_canonical {a : ℕ} {q : ℤ} (positive : 0 < a) (small : a < 2 ^ 53)
    (low : -1074 ≤ q) (high : q ≤ 971) :
    ∃ n t, Canonical n t ∧ (n : ℚ) * 2 ^ t = a * 2 ^ q := by
  have bits : a.log2 < 53 := (Nat.log2_lt positive.ne').mpr small
  -- The significand moves up until its first bit is set or the least exponent is reached.
  obtain ⟨k, normal, room⟩ : ∃ k : ℕ, (a.log2 + k = 52 ∨ q - k = -1074) ∧
      a.log2 + k ≤ 52 ∧ -1074 ≤ q - k := ⟨min (52 - a.log2) (q + 1074).toNat, by omega, by omega⟩
  have shifted : 0 < a * 2 ^ k := Nat.mul_pos positive (Nat.two_pow_pos k)
  have log := log2_mul_two_pow positive k
  refine ⟨a * 2 ^ k, q - k, ⟨shifted, ?_, room.2, by omega, ?_⟩, ?_⟩
  · rw [← Nat.log2_lt shifted.ne']
    omega
  · refine normal.imp_left fun full => ?_
    rw [← Nat.le_log2 shifted.ne']
    omega
  · rw [zpow_sub₀ two_ne_zero, zpow_natCast]
    push_cast
    field_simp

theorem round_exact {m a : ℕ} {e q : ℤ} (s : Sign) (positive : 0 < m)
    (same : (m : ℚ) * 2 ^ e = a * 2 ^ q) (small : a < 2 ^ 53) (low : -1074 ≤ q) (high : q ≤ 971) :
    FiniteParts (UnpackedFloat.round Format.binary64 s m e) ∧
      valueOf (UnpackedFloat.round Format.binary64 s m e) = s.apply m * 2 ^ e := by
  have nonzero : 0 < a := by
    by_contra none
    obtain rfl : a = 0 := by omega
    have power : (0 : ℚ) < m * 2 ^ e := by positivity
    rw [same] at power
    simp at power
  obtain ⟨n, t, canonical, value⟩ := exists_canonical nonzero small low high
  rw [canonical.round s (same.trans value.symm)]
  refine ⟨.finite s canonical, ?_⟩
  have magnitude := value.trans same.symm
  cases s with
  | positive => simpa [valueOf, Sign.apply] using magnitude
  | negative => simpa [valueOf, Sign.apply] using magnitude

theorem normalize_exact {c a e q : ℤ} (same : (c : ℚ) * 2 ^ e = a * 2 ^ q)
    (small : |a| < 2 ^ 53) (low : -1074 ≤ q) (high : q ≤ 971) :
    FiniteParts (UnpackedFloat.normalize Format.binary64 c e .positive) ∧
      valueOf (UnpackedFloat.normalize Format.binary64 c e .positive) = c * 2 ^ e := by
  have bits : a.natAbs < 2 ^ 53 := by
    rw [Int.abs_eq_natAbs] at small
    exact_mod_cast small
  have magnitude : (c.natAbs : ℚ) * 2 ^ e = a.natAbs * 2 ^ q := by
    have absolute := congrArg (fun x : ℚ => |x|) same
    simp only [abs_mul, abs_of_pos (two_zpow_pos e), abs_of_pos (two_zpow_pos q)]
      at absolute
    rwa [Nat.cast_natAbs, Nat.cast_natAbs, Int.cast_abs, Int.cast_abs]
  have rounded (s : Sign) (nonzero : c ≠ 0) (signed : s.apply (c.natAbs : ℤ) = c) :
      FiniteParts (UnpackedFloat.round Format.binary64 s c.natAbs e) ∧
        valueOf (UnpackedFloat.round Format.binary64 s c.natAbs e) = c * 2 ^ e := by
    have unsigned := round_exact s (Int.natAbs_pos.mpr nonzero) magnitude bits low high
    rwa [signed] at unsigned
  rcases lt_trichotomy c 0 with negative | rfl | positive
  · have compared : compare c 0 = .lt := compare_lt_iff_lt.mpr negative
    have size : (-c).toNat = c.natAbs := by omega
    rw [UnpackedFloat.normalize, compared, size]
    exact rounded .negative negative.ne (by rw [Sign.apply]; omega)
  · exact ⟨.zero .positive, by simp [UnpackedFloat.normalize, valueOf]⟩
  · have compared : compare c 0 = .gt := compare_gt_iff_gt.mpr positive
    have size : c.toNat = c.natAbs := by omega
    rw [UnpackedFloat.normalize, compared, size]
    exact rounded .positive positive.ne' (by rw [Sign.apply]; omega)

/-! ## Parts of doubles -/

theorem toNat_implicitBit (mantissa : BitVec 52) :
    (1#1 ++ mantissa).toNat = 2 ^ 52 + mantissa.toNat := by
  rw [BitVec.toNat_append, Nat.shiftLeft_eq]
  exact (Nat.two_pow_add_eq_or_of_lt mantissa.isLt 1).symm

theorem unpack_pack_normal (s : Sign) {m : ℕ} {e : ℤ} (positive : 0 < m) (bits : m < 2 ^ 53)
    (normal : 2 ^ 52 ≤ m) (low : -1074 ≤ e) (high : e ≤ 971) :
    (Float.Model.pack (.finite s m e positive)).unpack = .finite s m e positive := by
  have log : m.log2 + 1 = Format.binary64.mantissaBits := by
    have below := (Nat.log2_lt positive.ne').mpr bits
    have above := (Nat.le_log2 positive.ne').mpr normal
    change _ = 53
    omega
  have bias : Format.binary64.exponentBias = 1023 := rfl
  have field : (BitVec.ofNat 11 (e + 1023 + 52).toNat).toNat = (e + 1075).toNat := by
    rw [BitVec.toNat_ofNat]
    omega
  have noInfinity : BitVec.ofNat 11 (e + 1023 + 52).toNat ≠ -1#11 := fun same => by
    have fields := field.symm.trans (congrArg BitVec.toNat same)
    change (e + 1075).toNat = 2047 at fields
    omega
  have noZero : BitVec.ofNat 11 (e + 1023 + 52).toNat ≠ 0#11 := fun same => by
    have fields := field.symm.trans (congrArg BitVec.toNat same)
    change (e + 1075).toNat = 0 at fields
    omega
  have packed : UnpackedFloat.pack Format.binary64 (.finite s m e positive) =
      packComponents Format.binary64 s (BitVec.ofNat 11 (e + 1023 + 52).toNat)
        (BitVec.ofNat 52 m) := by
    simp only [UnpackedFloat.pack, bias, log, if_true]
    rw [if_neg (by push_cast; omega)]
    rfl
  have significand : (1#1 ++ BitVec.ofNat 52 m).toNat = m := by
    rw [toNat_implicitBit, BitVec.toNat_ofNat]
    omega
  change UnpackedFloat.unpack Format.binary64 (UnpackedFloat.pack Format.binary64 _) = _
  rw [packed]
  simp only [UnpackedFloat.unpack, unpackExponent_packComponents, unpackMantissa_packComponents,
    unpackSign_packComponents, Sign.ofBitVec_toBitVec, noInfinity, noZero, if_false, significand,
    field, bias]
  congr 1
  push_cast
  omega

theorem unpack_pack_subnormal (s : Sign) {m : ℕ} (positive : 0 < m) (bits : m < 2 ^ 52) :
    (Float.Model.pack (.finite s m (-1074) positive)).unpack = .finite s m (-1074) positive := by
  have log : m.log2 + 1 ≠ Format.binary64.mantissaBits := by
    have below := (Nat.log2_lt positive.ne').mpr bits
    change _ ≠ 53
    omega
  have bias : Format.binary64.exponentBias = 1023 := rfl
  have field : (BitVec.ofNat 52 m).toNat = m := by
    rw [BitVec.toNat_ofNat]
    omega
  have noZero : BitVec.ofNat 52 m ≠ 0#52 := fun same => by
    have fields := field.symm.trans (congrArg BitVec.toNat same)
    change m = 0 at fields
    omega
  have packed : UnpackedFloat.pack Format.binary64 (.finite s m (-1074) positive) =
      packComponents Format.binary64 s 0#11 (BitVec.ofNat 52 m) := by
    simp only [UnpackedFloat.pack, bias, log, if_false]
    rw [if_neg (by decide)]
  change UnpackedFloat.unpack Format.binary64 (UnpackedFloat.pack Format.binary64 _) = _
  rw [packed]
  have finite : (0#11) ≠ -1#11 := by decide
  simp only [UnpackedFloat.unpack, unpackExponent_packComponents, unpackMantissa_packComponents,
    unpackSign_packComponents, Sign.ofBitVec_toBitVec, finite, noZero, if_false, if_true,
    dite_false, field, bias]
  rfl

theorem FiniteParts.unpack_pack {u : UnpackedFloat} (finite : FiniteParts u) :
    (Float.Model.pack u).unpack = u := by
  cases finite with
  | zero s => cases s <;> rfl
  | finite s canonical =>
    rename_i m e
    by_cases normal : 2 ^ 52 ≤ m
    · exact unpack_pack_normal s canonical.pos canonical.bits normal canonical.low canonical.high
    · obtain rfl := canonical.normal.resolve_left normal
      exact unpack_pack_subnormal s canonical.pos (by omega)

theorem finiteParts_unpack {bits : BitVec Format.binary64.numBits}
    (finite : (UnpackedFloat.unpack Format.binary64 bits).isFinite) :
    FiniteParts (UnpackedFloat.unpack Format.binary64 bits) := by
  have bias : Format.binary64.exponentBias = 1023 := rfl
  revert finite
  fun_cases UnpackedFloat.unpack with
  | case1 => exact fun shape => by cases shape
  | case2 => exact fun shape => by cases shape
  | case3 => exact fun _ => .zero _
  | case4 mantissa exponentField exponent _ s _ zeroExponent nonzero =>
    intro _
    have field : exponentField.toNat = 0 := by rw [zeroExponent]; rfl
    have bits : mantissa.toNat < 2 ^ 52 := mantissa.isLt
    have positive : 0 < mantissa.toNat :=
      Nat.pos_of_ne_zero fun same => nonzero (BitVec.eq_of_toNat_eq same)
    have least : exponent + 1 = -1074 := by
      simp only [exponent, field, bias]
      rfl
    exact FiniteParts.finite s ⟨positive, by omega, by omega, by omega, .inr least⟩
  | case5 mantissa exponentField exponent _ s noInfinity noZero =>
    intro _
    have significand : (1#1 ++ mantissa).toNat = 2 ^ 52 + mantissa.toNat :=
      toNat_implicitBit mantissa
    have bits : mantissa.toNat < 2 ^ 52 := mantissa.isLt
    have field : exponentField.toNat < 2048 := exponentField.isLt
    have below : exponentField.toNat ≠ 2047 := fun same =>
      noInfinity (BitVec.eq_of_toNat_eq same)
    have above : exponentField.toNat ≠ 0 := fun same => noZero (BitVec.eq_of_toNat_eq same)
    have shifted : exponent = exponentField.toNat - 1075 := by
      simp only [exponent, bias]
      rfl
    exact FiniteParts.finite s ⟨by omega, by omega, by omega, by omega, .inl (by omega)⟩

theorem finiteParts_parts {x : Float} (finite : x.isFinite) : FiniteParts (parts x) :=
  finiteParts_unpack finite

theorem FiniteParts.isFinite {u : UnpackedFloat} (finite : FiniteParts u) : u.isFinite := by
  cases finite <;> rfl

theorem FiniteParts.isNaN {u : UnpackedFloat} (finite : FiniteParts u) : u.isNaN = false := by
  cases finite <;> rfl

theorem FiniteParts.isInf {u : UnpackedFloat} (finite : FiniteParts u) : u.isInf = false := by
  cases finite <;> rfl

/-- A number that is not finite is infinite. -/
theorem isInf_of_not_isFinite {x : Float} (infinite : x.isFinite = false) (number : ¬ x.isNaN) :
    x.isInf := by
  change (parts x).isFinite = false at infinite
  change ¬ (parts x).isNaN at number
  change (parts x).isInf
  cases shape : parts x with
  | infinity s => rfl
  | notANumber => exact absurd (by rw [shape]; rfl) number
  | zero s => rw [shape] at infinite; cases infinite
  | finite s m e pos => rw [shape] at infinite; cases infinite

/-! ## Order -/

/-- Of two canonical parts the greater exponent has the greater value. -/
theorem Canonical.lt {m m' : ℕ} {e e' : ℤ} (canonical : Canonical m e)
    (canonical' : Canonical m' e') (below : e < e') : (m : ℚ) * 2 ^ e < m' * 2 ^ e' := by
  have normal : 2 ^ 52 ≤ m' := canonical'.normal.resolve_right (by have := canonical.low; omega)
  have upper : (m : ℚ) < 2 ^ 53 := by exact_mod_cast canonical.bits
  have lower : (2 ^ 52 : ℚ) ≤ m' := by exact_mod_cast normal
  calc
    (m : ℚ) * 2 ^ e < 2 ^ 53 * 2 ^ e := mul_lt_mul_of_pos_right upper (two_zpow_pos e)
    _ = 2 ^ 52 * 2 ^ (e + 1) := by rw [zpow_add_one₀ two_ne_zero]; ring
    _ ≤ 2 ^ 52 * 2 ^ e' := by gcongr <;> [norm_num; omega]
    _ ≤ m' * 2 ^ e' := mul_le_mul_of_nonneg_right lower (two_zpow_pos e').le

theorem Canonical.compare {m m' : ℕ} {e e' : ℤ} (canonical : Canonical m e)
    (canonical' : Canonical m' e') :
    Ord.compare ((m : ℚ) * 2 ^ e) (m' * 2 ^ e') = (Ord.compare e e').then (Ord.compare m m') := by
  rcases lt_trichotomy e e' with below | rfl | above
  · rw [compare_lt_iff_lt.mpr below, compare_lt_iff_lt.mpr (canonical.lt canonical' below)]
    rfl
  · rw [compare_eq_iff_eq.mpr (rfl : e = e), Ordering.then]
    have power := two_zpow_pos e
    rcases lt_trichotomy m m' with below | rfl | above
    · rw [compare_lt_iff_lt.mpr below, compare_lt_iff_lt]
      exact mul_lt_mul_of_pos_right (by exact_mod_cast below) power
    · rw [compare_eq_iff_eq.mpr rfl, compare_eq_iff_eq.mpr rfl]
    · rw [compare_gt_iff_gt.mpr above, compare_gt_iff_gt]
      exact mul_lt_mul_of_pos_right (by exact_mod_cast above) power
  · rw [compare_gt_iff_gt.mpr above, compare_gt_iff_gt.mpr (canonical'.lt canonical above)]
    rfl

theorem compare_neg_neg (a b : ℚ) : Ord.compare (-a) (-b) = (Ord.compare a b).swap := by
  rcases lt_trichotomy a b with below | rfl | above
  · rw [compare_lt_iff_lt.mpr below, compare_gt_iff_gt.mpr (neg_lt_neg below)]
    rfl
  · rw [compare_eq_iff_eq.mpr rfl, compare_eq_iff_eq.mpr rfl]
    rfl
  · rw [compare_gt_iff_gt.mpr above, compare_lt_iff_lt.mpr (neg_lt_neg above)]
    rfl

theorem Canonical.magnitude_pos {m : ℕ} {e : ℤ} (canonical : Canonical m e) :
    (0 : ℚ) < m * 2 ^ e :=
  mul_pos (by exact_mod_cast canonical.pos) (two_zpow_pos e)

theorem valueOf_positive {m : ℕ} {e : ℤ} (pos : 0 < m) :
    valueOf (.finite .positive m e pos) = m * 2 ^ e := by
  simp [valueOf, Sign.apply]

theorem valueOf_negative {m : ℕ} {e : ℤ} (pos : 0 < m) :
    valueOf (.finite .negative m e pos) = -(m * 2 ^ e) := by
  simp [valueOf, Sign.apply]

/-- Finite doubles compare as the numbers that they stand for. -/
theorem FiniteParts.compare {u v : UnpackedFloat} (finiteU : FiniteParts u)
    (finiteV : FiniteParts v) :
    u.compare v = some (Ord.compare (valueOf u) (valueOf v)) := by
  have zero (s : Sign) : valueOf (.zero s) = 0 := rfl
  cases finiteU with
  | zero s =>
    cases finiteV with
    | zero t => rw [zero, zero, compare_eq_iff_eq.mpr rfl]; rfl
    | finite t canonical =>
      have magnitude := canonical.magnitude_pos
      cases t with
      | positive => rw [zero, valueOf_positive, compare_lt_iff_lt.mpr magnitude]; rfl
      | negative =>
        rw [zero, valueOf_negative, compare_gt_iff_gt.mpr (neg_neg_of_pos magnitude)]
        rfl
  | finite s canonical =>
    have magnitude := canonical.magnitude_pos
    cases finiteV with
    | zero t =>
      cases s with
      | positive => rw [zero, valueOf_positive, compare_gt_iff_gt.mpr magnitude]; rfl
      | negative =>
        rw [zero, valueOf_negative, compare_lt_iff_lt.mpr (neg_neg_of_pos magnitude)]
        rfl
    | finite t canonical' =>
      have magnitude' := canonical'.magnitude_pos
      cases s with
      | positive =>
        cases t with
        | positive =>
          rw [valueOf_positive, valueOf_positive, canonical.compare canonical']
          rfl
        | negative =>
          rw [valueOf_positive, valueOf_negative,
            compare_gt_iff_gt.mpr ((neg_neg_of_pos magnitude').trans magnitude)]
          rfl
      | negative =>
        cases t with
        | positive =>
          rw [valueOf_negative, valueOf_positive,
            compare_lt_iff_lt.mpr ((neg_neg_of_pos magnitude).trans magnitude')]
          rfl
        | negative =>
          rw [valueOf_negative, valueOf_negative, compare_neg_neg, canonical.compare canonical']
          rfl

section Finite

variable {x y : Float} (finiteX : x.isFinite) (finiteY : y.isFinite)

include finiteX finiteY

theorem compare_parts : (parts x).compare (parts y) = some (Ord.compare (value x) (value y)) :=
  (finiteParts_parts finiteX).compare (finiteParts_parts finiteY)

theorem lt_iff_value : x < y ↔ value x < value y := by
  change decide (UnpackedFloat.lt (parts x) (parts y) = true) = true ↔ _
  rw [decide_eq_true_iff, UnpackedFloat.lt, compare_parts finiteX finiteY, ← compare_lt_iff_lt]
  simp

omit finiteY in
theorem isNaN_eq_false : x.isNaN = false := by
  change (parts x).isNaN = false
  exact (finiteParts_parts finiteX).isNaN

omit finiteY in
theorem isInf_eq_false : x.isInf = false := by
  change (parts x).isInf = false
  exact (finiteParts_parts finiteX).isInf

end Finite

/-! ## The least double -/

theorem parts_lowest : parts lowest = .finite .negative (2 ^ 53 - 1) 971 (by decide) := rfl

theorem isFinite_lowest : lowest.isFinite := by
  change (parts lowest).isFinite
  rw [parts_lowest]
  rfl

theorem Canonical.le_greatest {m : ℕ} {e : ℤ} (canonical : Canonical m e) :
    (m : ℚ) * 2 ^ e ≤ (2 ^ 53 - 1 : ℕ) * 2 ^ (971 : ℤ) := by
  have bits : m ≤ 2 ^ 53 - 1 := Nat.le_sub_one_of_lt canonical.bits
  have power : (2 : ℚ) ^ e ≤ 2 ^ (971 : ℤ) := zpow_le_zpow_right₀ one_le_two canonical.high
  exact mul_le_mul (by exact_mod_cast bits) power (two_zpow_pos e).le (Nat.cast_nonneg _)

theorem FiniteParts.lowest_le {u : UnpackedFloat} (finite : FiniteParts u) :
    -((2 ^ 53 - 1 : ℕ) * 2 ^ (971 : ℤ)) ≤ valueOf u := by
  have below : -((2 ^ 53 - 1 : ℕ) * 2 ^ (971 : ℤ) : ℚ) ≤ 0 := by
    rw [Left.neg_nonpos_iff]
    positivity
  cases finite with
  | zero s => exact below
  | finite s canonical =>
    cases s with
    | positive =>
      rw [valueOf_positive]
      exact below.trans canonical.magnitude_pos.le
    | negative =>
      rw [valueOf_negative]
      exact neg_le_neg canonical.le_greatest

theorem value_lowest_le {x : Float} (finite : x.isFinite) : value lowest ≤ value x := by
  rw [value, parts_lowest, valueOf_negative]
  exact (finiteParts_parts finite).lowest_le

end AlertEngine.Binary64
