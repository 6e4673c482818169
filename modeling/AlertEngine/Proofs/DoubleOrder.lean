import AlertEngine.Proofs.DoubleSums

/-!
# The order of doubles

Apart from NaN the doubles are ordered like the rational numbers with an infinity at either end. An
operation on them that is not exact still gives a number, with few exceptions.

* `Binary64.place`: a double on that line.
* `Binary64.lt_iff_place`, `Binary64.le_iff_place`: doubles compare as their places do.
* `Binary64.not_lt_iff_le`: of two numbers one is less, or the other is at most as large.
* `Binary64.isNaN_sub_iff`: a difference of numbers is a number unless both are the same infinity.
-/

namespace AlertEngine.Binary64

open Float.Model
open Float.Model.UnpackedFloat

variable {u v : UnpackedFloat} {x y : Float}

/-! ## The line of doubles -/

/-- Where the parts of a double lie among the rational numbers and the two infinities. -/
def place : UnpackedFloat → WithBot (WithTop ℚ)
  | .infinity .positive => ⊤
  | .infinity .negative => ⊥
  | u => ((valueOf u : WithTop ℚ) : WithBot (WithTop ℚ))

inductive NumberParts : UnpackedFloat → Prop where
  | infinity (s : Sign) : NumberParts (.infinity s)
  | finite {u : UnpackedFloat} (finite : FiniteParts u) : NumberParts u

theorem numberParts_parts (number : x.isNaN = false) : NumberParts (parts x) := by
  change (parts x).isNaN = false at number
  cases finite : (parts x).isFinite with
  | true => exact .finite (finiteParts_parts finite)
  | false =>
    cases shape : parts x with
    | infinity s => exact .infinity s
    | notANumber =>
      rw [shape] at number
      cases number
    | zero s =>
      rw [shape] at finite
      cases finite
    | finite s m e pos =>
      rw [shape] at finite
      cases finite

theorem FiniteParts.place (finite : FiniteParts u) :
    Binary64.place u = ((valueOf u : WithTop ℚ) : WithBot (WithTop ℚ)) := by
  cases finite <;> rfl

theorem FiniteParts.place_lt (finite : FiniteParts u) :
    Binary64.place u < Binary64.place (.infinity .positive) := by
  rw [finite.place]
  exact WithBot.coe_lt_coe.mpr (WithTop.coe_lt_top _)

theorem FiniteParts.lt_place (finite : FiniteParts u) :
    Binary64.place (.infinity .negative) < Binary64.place u := by
  rw [finite.place]
  exact WithBot.bot_lt_coe _

theorem FiniteParts.compare_place (finiteU : FiniteParts u) (finiteV : FiniteParts v) :
    Ord.compare (Binary64.place u) (Binary64.place v) = Ord.compare (valueOf u) (valueOf v) := by
  rw [finiteU.place, finiteV.place]
  rcases lt_trichotomy (valueOf u) (valueOf v) with less | same | greater
  · rw [compare_lt_iff_lt.mpr less, compare_lt_iff_lt]
    exact_mod_cast less
  · rw [compare_eq_iff_eq.mpr same, compare_eq_iff_eq, same]
  · rw [compare_gt_iff_gt.mpr greater, compare_gt_iff_gt]
    exact_mod_cast greater

/-- Numbers compare as their places do. -/
theorem NumberParts.compare (numberU : NumberParts u) (numberV : NumberParts v) :
    u.compare v = some (Ord.compare (place u) (place v)) := by
  have ends : place (.infinity .negative) < place (.infinity .positive) := bot_lt_top
  cases numberU with
  | infinity s =>
    cases numberV with
    | infinity t =>
      cases s with
      | positive =>
        cases t with
        | positive => rw [compare_eq_iff_eq.mpr rfl]; rfl
        | negative => rw [compare_gt_iff_gt.mpr ends]; rfl
      | negative =>
        cases t with
        | positive => rw [compare_lt_iff_lt.mpr ends]; rfl
        | negative => rw [compare_eq_iff_eq.mpr rfl]; rfl
    | finite finite =>
      cases s with
      | positive => rw [compare_gt_iff_gt.mpr finite.place_lt]; cases finite <;> rfl
      | negative => rw [compare_lt_iff_lt.mpr finite.lt_place]; cases finite <;> rfl
  | finite finite =>
    cases numberV with
    | infinity t =>
      cases t with
      | positive => rw [compare_lt_iff_lt.mpr finite.place_lt]; cases finite <;> rfl
      | negative => rw [compare_gt_iff_gt.mpr finite.lt_place]; cases finite <;> rfl
    | finite finite' => rw [finite.compare finite', finite.compare_place finite']

section Numbers

variable (numberX : x.isNaN = false) (numberY : y.isNaN = false)

include numberX numberY

theorem lt_iff_place : x < y ↔ place (parts x) < place (parts y) := by
  change decide (UnpackedFloat.lt (parts x) (parts y) = true) = true ↔ _
  rw [decide_eq_true_iff, UnpackedFloat.lt,
    (numberParts_parts numberX).compare (numberParts_parts numberY), ← compare_lt_iff_lt]
  simp

theorem le_iff_place : x ≤ y ↔ place (parts x) ≤ place (parts y) := by
  change decide (UnpackedFloat.le (parts x) (parts y) = true) = true ↔ _
  rw [decide_eq_true_iff, UnpackedFloat.le,
    (numberParts_parts numberX).compare (numberParts_parts numberY), ← compare_le_iff_le]
  simp [Ordering.isLE_iff_ne_gt]

/-- Of two numbers one is less, or the other is at most as large. -/
theorem not_lt_iff_le : ¬ x < y ↔ y ≤ x := by
  rw [lt_iff_place numberX numberY, le_iff_place numberY numberX, not_lt]

theorem le_trans_of_number {z : Float} (numberZ : z.isNaN = false) (first : x ≤ y)
    (second : y ≤ z) : x ≤ z := by
  rw [le_iff_place numberX numberY] at first
  rw [le_iff_place numberY numberZ] at second
  rw [le_iff_place numberX numberZ]
  exact first.trans second

end Numbers

theorem le_iff_value (finiteX : x.isFinite) (finiteY : y.isFinite) : x ≤ y ↔ value x ≤ value y := by
  rw [← not_lt_iff_le (isNaN_eq_false finiteY) (isNaN_eq_false finiteX),
    lt_iff_value finiteY finiteX, not_lt]

/-- A NaN compares with nothing. -/
theorem not_comparable_of_isNaN (undefined : x.isNaN) (y : Float) :
    (¬ x < y ∧ ¬ y < x) ∧ ¬ x ≤ y ∧ ¬ y ≤ x := by
  have shape : parts x = .notANumber := UnpackedFloat.isNaN_iff.mp undefined
  have right (u : UnpackedFloat) : u.compare .notANumber = none := by cases u <;> rfl
  have lt (a b : Float) (none : (parts a).compare (parts b) = none) : ¬ a < b := by
    change ¬ decide (UnpackedFloat.lt (parts a) (parts b) = true) = true
    rw [UnpackedFloat.lt, none]
    exact Bool.false_ne_true
  have le (a b : Float) (none : (parts a).compare (parts b) = none) : ¬ a ≤ b := by
    change ¬ decide (UnpackedFloat.le (parts a) (parts b) = true) = true
    rw [UnpackedFloat.le, none]
    exact Bool.false_ne_true
  have first : (parts x).compare (parts y) = none := by rw [shape]; rfl
  have second : (parts y).compare (parts x) = none := by rw [shape]; exact right _
  exact ⟨⟨lt x y first, lt y x second⟩, le x y first, le y x second⟩

/-! ## Results that are numbers -/

theorem isNaN_unpack_packComponents (s : Sign) {e : BitVec 11} (finite : e ≠ -1#11)
    (m : BitVec 52) :
    (UnpackedFloat.unpack Format.binary64 (packComponents Format.binary64 s e m)).isNaN =
      false := by
  simp only [UnpackedFloat.unpack, unpackExponent_packComponents, finite, if_false]
  split
  · split <;> rfl
  · rfl

/-- Packing does not turn a number into NaN, however large it is. -/
theorem isNaN_unpack_pack (u : UnpackedFloat) : (Float.Model.pack u).unpack.isNaN = u.isNaN := by
  cases u with
  | infinity s => cases s <;> rfl
  | notANumber => rfl
  | zero s => cases s <;> rfl
  | finite s m e pos =>
    change (UnpackedFloat.unpack Format.binary64 (UnpackedFloat.pack Format.binary64 _)).isNaN =
      false
    rw [UnpackedFloat.pack]
    split
    · cases s <;> rfl
    · rename_i room
      split
      · -- What does not fit has been packed as an infinity, so the exponent is not full.
        refine isNaN_unpack_packComponents s (fun same => room ?_) _
        have field := congrArg BitVec.toNat same
        rw [BitVec.toNat_ofNat] at field
        change _ % 2048 = 2047 at field
        change ¬ 2048 ≤ _ at room
        omega
      · exact isNaN_unpack_packComponents s (by decide) _

theorem isNaN_roundWithAccuracy (s : Sign) (m : ℕ) (e : ℤ) (acc : Accuracy) :
    (UnpackedFloat.roundWithAccuracy Format.binary64 s m e acc).isNaN = false := by
  simp only [UnpackedFloat.roundWithAccuracy]
  split <;> rfl

theorem isNaN_normalize (i e : ℤ) :
    (UnpackedFloat.normalize Format.binary64 i e .positive).isNaN = false := by
  rw [UnpackedFloat.normalize]
  split
  · exact isNaN_roundWithAccuracy _ _ _ _
  · rfl
  · exact isNaN_roundWithAccuracy _ _ _ _

/-- The difference of numbers is a number, unless both are the same infinity. -/
theorem NumberParts.isNaN_sub (numberU : NumberParts u) (numberV : NumberParts v) :
    (UnpackedFloat.sub Format.binary64 u v).isNaN = true ↔ u.isInf = true ∧ u = v := by
  cases numberU with
  | infinity s =>
    cases numberV with
    | infinity t =>
      cases s with
      | positive =>
        cases t with
        | positive => exact iff_of_true rfl ⟨rfl, rfl⟩
        | negative => exact iff_of_false Bool.false_ne_true fun same => nomatch same.2
      | negative =>
        cases t with
        | positive => exact iff_of_false Bool.false_ne_true fun same => nomatch same.2
        | negative => exact iff_of_true rfl ⟨rfl, rfl⟩
    | finite finite =>
      cases finite <;> exact iff_of_false Bool.false_ne_true fun same => nomatch same.2
  | finite finite =>
    refine iff_of_false ?_ fun same => absurd (finite.isInf.symm.trans same.1) Bool.false_ne_true
    rw [Bool.not_eq_true]
    cases finite with
    | zero s =>
      cases numberV with
      | infinity t => rfl
      | finite finite' =>
        cases finite' with
        | zero t => cases s <;> cases t <;> rfl
        | finite t canonical => rfl
    | finite s canonical =>
      cases numberV with
      | infinity t => rfl
      | finite finite' =>
        cases finite' with
        | zero t => rfl
        | finite t canonical' => exact isNaN_normalize _ _

theorem isNaN_sub_iff (numberX : x.isNaN = false) (numberY : y.isNaN = false) :
    (x - y).isNaN = true ↔ x.isInf = true ∧ x = y := by
  change (Float.Model.pack (UnpackedFloat.sub Format.binary64 (parts x) (parts y))).unpack.isNaN =
    true ↔ (parts x).isInf = true ∧ x = y
  rw [isNaN_unpack_pack,
    (numberParts_parts numberX).isNaN_sub (numberParts_parts numberY)]
  exact and_congr_right fun _ => ⟨parts_injective, congrArg parts⟩

theorem isNaN_abs (x : Float) : x.abs.isNaN = x.isNaN := by
  change (Float.Model.pack (parts x).abs).unpack.isNaN = (parts x).isNaN
  rw [isNaN_unpack_pack]
  cases parts x <;> rfl

end AlertEngine.Binary64
