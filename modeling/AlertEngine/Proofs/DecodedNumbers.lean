import AlertEngine.Metric
import AlertEngine.Proofs.DoubleBounds
import AlertEngine.Proofs.WrittenEvents

/-! # Decoded numbers are finite

A number of a JSON text is read as a finite double or refused: its leading digits make a finite
double, products are checked, and quotients only come closer to zero.

* `Binary64.isFinite_ofRank`: ranks below that of infinity are finite.
* `Json.isFinite_of_toFloat?`: what a number is read as is finite.
* `Metric.Has`, `Metric.has_isFinite`: the numbers of a metric, and that those of a decoded one are
  finite.
-/

namespace AlertEngine

/-! ## Ranks -/

namespace Binary64

open Float.Model
open Float.Model.UnpackedFloat

theorem toNat_unpackExponent (bits : BitVec Format.binary64.numBits) :
    (unpackExponent bits).toNat = bits.toNat / 2 ^ 52 % 2 ^ 11 := by
  rw [unpackExponent, BitVec.toNat_cast, BitVec.extractLsb_toNat, Nat.shiftRight_eq_div_pow]
  rfl

/-- Bits whose field of the exponent is not full are those of a finite double. -/
theorem isFinite_unpack {bits : BitVec Format.binary64.numBits}
    (below : bits.toNat / 2 ^ 52 % 2 ^ 11 ≠ 2047) :
    (UnpackedFloat.unpack Format.binary64 bits).isFinite := by
  have noInfinity : unpackExponent bits ≠ -1#11 := fun same => by
    have field := congrArg BitVec.toNat same
    rw [toNat_unpackExponent] at field
    exact below field
  simp only [UnpackedFloat.unpack, noInfinity, if_false]
  split
  · split
    · rfl
    · rfl
  · rfl

/-- Ranks below that of infinity are finite. -/
theorem isFinite_ofRank {n : ℕ} (negative : Bool) (below : n < infinityRank) :
    (ofRank negative n).isFinite := by
  have rank : n < 2047 * 2 ^ 52 := below
  have shaped (bits : UInt64) (field : bits.toBitVec.toNat / 2 ^ 52 % 2 ^ 11 ≠ 2047) :
      (Float.ofBits bits).isFinite :=
    (parts_of_pack rfl (finiteParts_unpack (isFinite_unpack field))).1
  refine shaped _ ?_
  cases negative with
  | false =>
    have value : (UInt64.ofNat n).toBitVec.toNat = n := by
      change n % 2 ^ 64 = n
      omega
    simp only [Bool.false_eq_true, if_false, value]
    omega
  | true =>
    have value : (UInt64.ofNat (signBit + n)).toBitVec.toNat = 2 ^ 63 + n := by
      change (2 ^ 63 + n) % 2 ^ 64 = 2 ^ 63 + n
      omega
    simp only [if_true, value]
    omega

theorem floorLog2_one {num : ℕ} (positive : 0 < num) : floorLog2 num 1 = num.log2 := by
  have one : (1 : ℕ).log2 = 0 := by decide
  have reaches : 2 ^ num.log2 ≤ num := Nat.log2_self_le positive.ne'
  simp only [floorLog2, one, Nat.cast_zero, sub_zero, Int.toNat_natCast, Int.toNat_neg_natCast]
  rw [if_pos]
  simpa using reaches

theorem roundHalfEven_le (num den : ℕ) : roundHalfEven num den ≤ num / den + 1 := by
  simp only [roundHalfEven]
  split
  · omega
  · split
    · omega
    · omega

/-- Whole numbers of 64 bits are far from the end of the doubles. -/
theorem nearestRank_lt {num : ℕ} (small : num < 2 ^ 64) : nearestRank num 1 < infinityRank := by
  rw [nearestRank]
  split
  · decide
  rename_i nonzero
  have positive := Nat.pos_of_ne_zero nonzero
  have bits : num.log2 < 64 := (Nat.log2_lt nonzero).mpr small
  have upper : num < 2 ^ (num.log2 + 1) := Nat.lt_log2_self
  have scale : max (-1074) (floorLog2 num 1 - 52) = (num.log2 : ℤ) - 52 := by
    rw [floorLog2_one positive]
    omega
  simp only [scale]
  -- The significand has 53 bits, with the carry that rounding may give.
  have significand : num * Nat.pow 2 (-((num.log2 : ℤ) - 52)).toNat /
      (1 * Nat.pow 2 ((num.log2 : ℤ) - 52).toNat) < 2 ^ 53 := by
    rw [Nat.one_mul, Nat.pow_eq, Nat.pow_eq]
    rcases le_or_gt 52 num.log2 with long | short
    · have left : (-((num.log2 : ℤ) - 52)).toNat = 0 := by omega
      have right : ((num.log2 : ℤ) - 52).toNat = num.log2 - 52 := by omega
      rw [left, right, pow_zero, Nat.mul_one, Nat.div_lt_iff_lt_mul (Nat.two_pow_pos _), ← pow_add]
      exact upper.trans_eq (congrArg (2 ^ ·) (by omega))
    · have left : (-((num.log2 : ℤ) - 52)).toNat = 52 - num.log2 := by omega
      have right : ((num.log2 : ℤ) - 52).toNat = 0 := by omega
      rw [left, right, pow_zero, Nat.div_one]
      calc num * 2 ^ (52 - num.log2) < 2 ^ (num.log2 + 1) * 2 ^ (52 - num.log2) :=
            Nat.mul_lt_mul_of_pos_right upper (Nat.two_pow_pos _)
        _ = 2 ^ 53 := by rw [← pow_add]; exact congrArg (2 ^ ·) (by omega)
  have rounded := roundHalfEven_le (num * Nat.pow 2 (-((num.log2 : ℤ) - 52)).toNat)
    (1 * Nat.pow 2 ((num.log2 : ℤ) - 52).toNat)
  have places : ((num.log2 : ℤ) - 52 + 1074).toNat ≤ 1085 := by omega
  refine lt_of_le_of_lt (min_le_right _ _) ?_
  have product := Nat.mul_le_mul_right binade places
  have last : infinityRank = 2047 * binade := rfl
  have size : binade = 2 ^ 52 := rfl
  omega

end Binary64

/-! ## Numbers -/

namespace Json.Numeral

theorem isFinite_toFloat {m : ℕ} (small : m < 2 ^ 64) :
    (Decimal.toFloat ⟨false, m, 0⟩).isFinite := by
  refine Binary64.isFinite_ofRank false ?_
  have whole : Decimal.nearestRank m 0 = Binary64.nearestRank m 1 := by
    rw [Decimal.nearestRank]
    split
    · rename_i zero
      rw [zero]
      rfl
    · rw [if_neg (by omega), if_neg (by omega)]
      simp
  rw [whole]
  exact Binary64.nearestRank_lt small

/-- The powers of ten among the doubles are finite, and none is less than one. -/
theorem powerOfTen_bounds {k : ℕ} (small : k ≤ 308) :
    (powerOfTen k).isFinite ∧ 1 ≤ Binary64.value (powerOfTen k) := by
  have all : ∀ k ≤ 308, (powerOfTen k).isFinite = true ∧ ¬ powerOfTen k < 1 := by
    decide +kernel
  obtain ⟨finite, large⟩ := all k small
  obtain ⟨finiteOne, one⟩ := Binary64.value_ofNat (n := 1) (by norm_num)
  refine ⟨finite, ?_⟩
  have compared := mt (Binary64.lt_iff_value finite finiteOne).mpr large
  rw [one, not_lt, Nat.cast_one] at compared
  exact compared

/-- A quotient by a power of ten is finite, since it is no larger than what is divided. -/
theorem isFinite_div_powerOfTen {x : Float} (finite : x.isFinite) {k : ℕ} (small : k ≤ 308) :
    (x / powerOfTen k).isFinite := by
  obtain ⟨finiteTen, large⟩ := powerOfTen_bounds small
  have positive : 0 < Binary64.value (powerOfTen k) := zero_lt_one.trans_le large
  have reached := Binary64.reached_value finite
  refine (Binary64.bounded_div finite finiteTen reached positive.ne' ?_).finite
  rw [abs_div, abs_of_pos positive]
  exact div_le_self (abs_nonneg _) large

theorem isFinite_divided {x : Float} (finite : x.isFinite) (k : ℕ) : (divided x k).isFinite := by
  have repeated (n : ℕ) : (Nat.repeat (· / powerOfTen 308) n x).isFinite := by
    induction n with
    | zero => exact finite
    | succ n inductionHypothesis => exact isFinite_div_powerOfTen inductionHypothesis le_rfl
  exact isFinite_div_powerOfTen (repeated _) (Nat.mod_lt k (by decide : 308 > 0)).le

theorem isFinite_of_multiplied? {x y : Float} (finite : x.isFinite) {k : ℕ}
    (read : multiplied? x k = some y) : y.isFinite := by
  rw [multiplied?] at read
  split at read
  · cases read
    exact finite
  · dsimp only at read
    split at read
    · rename_i checked
      cases read
      exact checked
    · cases read

/-- What a number is read as is finite. -/
theorem isFinite_of_toFloat? {n : Numeral} {x : Float} (read : n.toFloat? = some x) :
    x.isFinite := by
  have finite := isFinite_toFloat (leading_fst_lt n)
  simp only [toFloat?, Option.map_eq_some_iff] at read
  obtain ⟨y, magnitude, signed⟩ := read
  have finiteY : y.isFinite := by
    split at magnitude
    · exact isFinite_of_multiplied? finite magnitude
    · cases magnitude
      exact isFinite_divided finite _
  have bounded : Binary64.Bounded |Binary64.value y| y := ⟨finiteY, le_rfl⟩
  rw [← signed]
  split
  · exact bounded.neg.finite
  · exact finiteY

end Json.Numeral

namespace Json

theorem isFinite_of_float? {t : Tree} {x : Float} (read : t.float? = some x) : x.isFinite := by
  cases t with
  | number n => exact Numeral.isFinite_of_toFloat? read
  | null => cases read
  | bool b => cases read
  | text s => cases read
  | list items => cases read
  | object members => cases read

theorem eq_or_decoded_of_withDefault? {α : Type} {r : Record} {name : String} {default x : α}
    {decode : Tree → Option α} (read : r.withDefault? name default decode = some x) :
    x = default ∨ ∃ t, decode t = some x := by
  rw [Record.withDefault?] at read
  split at read
  · cases read
    exact .inl rfl
  · exact .inr ⟨_, read⟩

end Json

/-! ## Metrics -/

namespace Metric

structure Has (good : Float → Prop) (m : Metric) : Prop where
  value : good m.value
  fields : ∀ (name : String) (x : Float), m.fields[name]? = some x → good x

theorem Has.field? {good : Float → Prop} {m : Metric} (has : m.Has good) {name : String} {x : Float}
    (found : m.field? name = some x) : good x := by
  rw [Metric.field?] at found
  split at found
  · cases found
    exact has.value
  · exact has.fields name x found

/-- All numbers of a decoded metric are finite. -/
theorem has_isFinite {t : Json.Tree} {m : Metric} (decoded : ofTree? t = some m) :
    m.Has fun x => x.isFinite := by
  simp only [ofTree?, bind, Option.bind_eq_some_iff, pure, Option.some.injEq] at decoded
  obtain ⟨r, -, name, -, value, readValue, fields, readFields, tags, -, endpoint, -, timestamp, -,
    step, -, rfl⟩ := decoded
  constructor
  case value =>
    rcases Json.eq_or_decoded_of_withDefault? readValue with rfl | ⟨u, read⟩
    · exact (Binary64.value_ofNat (n := 0) (by norm_num)).1
    · exact Json.isFinite_of_float? read
  case fields =>
    intro key x found
    rcases Json.eq_or_decoded_of_withDefault? readFields with rfl | ⟨u, read⟩
    · simp at found
    · obtain ⟨members, rfl, m, -, -, readValue⟩ := Json.exists_member_of_dictionary? read found
      exact Json.isFinite_of_float? readValue

end Metric

end AlertEngine
