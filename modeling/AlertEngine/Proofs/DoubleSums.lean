import AlertEngine.Comparison
import AlertEngine.Proofs.DoubleValues

/-!
# Sums of doubles

Sums of doubles are rounded after each summand, so that their order may matter. It does not where
no rounding takes place, and not for two summands.

* `Binary64.FitsGrid.exactSum`: multiples of one power of two have an exact sum as long as it has
  fewer than 54 bits.
* `Binary64.Alike`: doubles that are equal up to the sign of zero; no comparison with a threshold
  tells them apart (`Binary64.Alike.holds`).
* `Binary64.alike_sum_of_perm`: summands that are `OrderFree` have the same sum in any order.
-/

namespace AlertEngine.Binary64

open Float.Model
open Float.Model.UnpackedFloat

/-! ## Addition -/

theorem parts_add (x y : Float) :
    parts (x + y) = (Float.Model.pack (add Format.binary64 (parts x) (parts y))).unpack := rfl

/-- Moving the binary point down keeps a number. -/
theorem apply_decreaseExponent (s : Sign) {m : ℕ} {e t : ℤ} (below : t ≤ e) :
    ((s.apply (decreaseExponent m e t).1 : ℤ) : ℚ) * 2 ^ t = s.apply m * 2 ^ e := by
  obtain ⟨k, rfl⟩ := Int.le.dest below
  have amount : (t + k - t).toNat = k := by omega
  rw [decreaseExponent, amount, Nat.shiftLeft_eq, zpow_add₀ two_ne_zero, zpow_natCast]
  cases s with
  | positive =>
    simp only [Sign.apply]
    push_cast
    ring
  | negative =>
    simp only [Sign.apply]
    push_cast
    ring

/-- The sum of multiples of one power of two is exact as long as it has fewer than 54 bits. -/
theorem FiniteParts.add {u v : UnpackedFloat} (finiteU : FiniteParts u) (finiteV : FiniteParts v)
    {a b q : ℤ} (valueU : valueOf u = a * 2 ^ q) (valueV : valueOf v = b * 2 ^ q)
    (small : |a + b| < 2 ^ 53) (low : -1074 ≤ q) (high : q ≤ 971) :
    FiniteParts (UnpackedFloat.add Format.binary64 u v) ∧
      valueOf (UnpackedFloat.add Format.binary64 u v) = valueOf u + valueOf v := by
  cases finiteU with
  | zero s =>
    cases finiteV with
    | zero t =>
      rw [UnpackedFloat.add]
      split
      · exact ⟨.zero s, by simp [valueOf]⟩
      · exact ⟨.zero .positive, by simp [valueOf]⟩
    | finite t canonical => exact ⟨.finite t canonical, by simp [valueOf, UnpackedFloat.add]⟩
  | finite s canonical =>
    rename_i m e
    cases finiteV with
    | zero t => exact ⟨.finite s canonical, by simp [valueOf, UnpackedFloat.add]⟩
    | finite t canonical' =>
      rename_i m' e'
      -- Both are moved to the smaller exponent, where their sum still is a multiple of `2 ^ q`.
      have aligned := apply_decreaseExponent s (m := m) (min_le_left e e')
      have aligned' := apply_decreaseExponent t (m := m') (min_le_right e e')
      have total : ((s.apply (decreaseExponent m e (min e e')).1 +
            t.apply (decreaseExponent m' e' (min e e')).1 : ℤ) : ℚ) * 2 ^ min e e' =
          (a + b : ℤ) * 2 ^ q := by
        rw [valueOf] at valueU valueV
        rw [Int.cast_add, add_mul, aligned, aligned', valueU, valueV, Int.cast_add, add_mul]
      obtain ⟨finite, value⟩ := normalize_exact total small low high
      refine ⟨finite, value.trans ?_⟩
      rw [Int.cast_add, add_mul, aligned, aligned']
      rfl

theorem add_exact {x y : Float} (finiteX : x.isFinite) (finiteY : y.isFinite) {a b q : ℤ}
    (valueX : value x = a * 2 ^ q) (valueY : value y = b * 2 ^ q) (small : |a + b| < 2 ^ 53)
    (low : -1074 ≤ q) (high : q ≤ 971) :
    (x + y).isFinite ∧ value (x + y) = value x + value y := by
  obtain ⟨finite, total⟩ := (finiteParts_parts finiteX).add (finiteParts_parts finiteY)
    valueX valueY small low high
  have whole : parts (x + y) = UnpackedFloat.add Format.binary64 (parts x) (parts y) := by
    rw [parts_add, finite.unpack_pack]
  refine ⟨?_, by rw [value, whole, total, value, value]⟩
  change (parts (x + y)).isFinite
  rw [whole]
  exact finite.isFinite

/-! ## Sums -/

theorem sum_snoc (xs : List Float) (x : Float) : sum (xs ++ [x]) = sum xs + x := by
  rw [sum, List.foldl_append]
  rfl

theorem parts_sum_nil : parts (sum []) = .zero .negative := rfl

/-- What the sum of a part of the summands is: the exact sum, a multiple of the power of two, and no
larger than the summands are together. -/
structure ExactSum (q : ℤ) (xs : List Float) : Prop where
  finite : (sum xs).isFinite
  value : value (sum xs) = (xs.map value).sum
  grid : ∃ a : ℤ, Binary64.value (sum xs) = a * 2 ^ q
  bound : |Binary64.value (sum xs)| ≤ (xs.map fun x => |Binary64.value x|).sum

theorem exactSum_nil (q : ℤ) : ExactSum q [] := by
  have zero : value (sum []) = 0 := by
    rw [value, parts_sum_nil]
    rfl
  constructor
  case finite =>
    change (parts (sum [])).isFinite
    rw [parts_sum_nil]
    rfl
  case value => exact zero
  case grid => exact ⟨0, by rw [zero]; simp⟩
  case bound => simp [zero]

theorem ExactSum.snoc {q : ℤ} {xs : List Float} (before : ExactSum q xs) {x : Float}
    (finite : x.isFinite) (grid : ∃ a : ℤ, Binary64.value x = a * 2 ^ q) (low : -1074 ≤ q)
    (high : q ≤ 971)
    (small : ((xs ++ [x]).map fun x => |Binary64.value x|).sum < 2 ^ 53 * 2 ^ q) :
    ExactSum q (xs ++ [x]) := by
  obtain ⟨a, valueSum⟩ := before.grid
  obtain ⟨b, valueX⟩ := grid
  rw [List.map_append, List.sum_append, List.map_singleton, List.sum_singleton] at small
  have bound : |Binary64.value (sum xs) + Binary64.value x| ≤
      (xs.map fun x => |Binary64.value x|).sum + |Binary64.value x| :=
    (abs_add_le _ _).trans (by gcongr; exact before.bound)
  have total : Binary64.value (sum xs) + Binary64.value x = (a + b : ℤ) * 2 ^ q := by
    rw [valueSum, valueX, Int.cast_add, add_mul]
  have bits : |a + b| < 2 ^ 53 := by
    have product := bound.trans_lt small
    rw [total, abs_mul, abs_of_pos (two_zpow_pos q)] at product
    exact_mod_cast lt_of_mul_lt_mul_right product (two_zpow_pos q).le
  obtain ⟨finiteSum, exactSum⟩ := add_exact before.finite finite valueSum valueX bits low high
  constructor
  case finite => rwa [sum_snoc]
  case value => rw [sum_snoc, exactSum, before.value]; simp
  case grid => exact ⟨a + b, by rw [sum_snoc, exactSum, total]⟩
  case bound => rw [sum_snoc, exactSum]; simpa using bound

/-- Doubles that are multiples of one power of two and have fewer than 54 bits in sum. -/
structure FitsGrid (q : ℤ) (xs : List Float) : Prop where
  low : -1074 ≤ q
  high : q ≤ 971
  multiple : ∀ x ∈ xs, ∃ a : ℤ, Binary64.value x = a * 2 ^ q
  small : (xs.map fun x => |Binary64.value x|).sum < 2 ^ 53 * 2 ^ q

/-- The sum of finite doubles that fit one grid is exact. -/
theorem FitsGrid.exactSum {q : ℤ} {xs : List Float} (fits : FitsGrid q xs)
    (finite : ∀ x ∈ xs, x.isFinite) : ExactSum q xs := by
  obtain ⟨low, high, multiple, small⟩ := fits
  induction xs using List.reverseRecOn with
  | nil => exact exactSum_nil q
  | append_singleton xs x inductionHypothesis =>
    rw [List.forall_mem_append, List.forall_mem_singleton] at finite multiple
    -- Absolute values bound every sum on the way, whatever the signs.
    have part : (xs.map fun x => |value x|).sum < 2 ^ 53 * 2 ^ q := by
      refine lt_of_le_of_lt ?_ small
      simp
    exact (inductionHypothesis finite.1 multiple.1 part).snoc finite.2 multiple.2 low high small

/-! ## Doubles up to the sign of zero -/

inductive AlikeParts : UnpackedFloat → UnpackedFloat → Prop where
  | same (u : UnpackedFloat) : AlikeParts u u
  | zero (s t : Sign) : AlikeParts (.zero s) (.zero t)

def Alike (x y : Float) : Prop := x = y ∨ (x == 0) = true ∧ (y == 0) = true

theorem parts_injective {x y : Float} (same : parts x = parts y) : x = y :=
  Float.toBits_inj.mp (UInt64.toBitVec_inj.mp
    ((UnpackedFloat.unpack_inj_of_valid x.toModel.valid y.toModel.valid).mp same))

theorem beq_zero_iff {x : Float} : (x == 0) = true ↔ ∃ s, parts x = .zero s := by
  change UnpackedFloat.beq (parts x) (.zero .positive) = true ↔ _
  cases parts x with
  | infinity s => cases s <;> simp [UnpackedFloat.beq, UnpackedFloat.compare]
  | notANumber => simp [UnpackedFloat.beq, UnpackedFloat.compare]
  | zero s => simp [UnpackedFloat.beq, UnpackedFloat.compare]
  | finite s m e pos => cases s <;> simp [UnpackedFloat.beq, UnpackedFloat.compare]

theorem alike_iff_parts {x y : Float} : Alike x y ↔ AlikeParts (parts x) (parts y) := by
  constructor
  · rintro (rfl | ⟨zeroX, zeroY⟩)
    · exact .same _
    · obtain ⟨s, zeroX⟩ := beq_zero_iff.mp zeroX
      obtain ⟨t, zeroY⟩ := beq_zero_iff.mp zeroY
      rw [zeroX, zeroY]
      exact .zero s t
  · intro alike
    generalize shapeX : parts x = u at alike
    generalize shapeY : parts y = v at alike
    cases alike with
    | same => exact .inl (parts_injective (shapeX.trans shapeY.symm))
    | zero s t => exact .inr ⟨beq_zero_iff.mpr ⟨s, shapeX⟩, beq_zero_iff.mpr ⟨t, shapeY⟩⟩

theorem FiniteParts.alike {u v : UnpackedFloat} (finiteU : FiniteParts u) (finiteV : FiniteParts v)
    (same : valueOf u = valueOf v) : AlikeParts u v := by
  have compared : u.compare v = some .eq := by
    rw [finiteU.compare finiteV, compare_eq_iff_eq.mpr same]
  cases finiteU with
  | zero s =>
    cases finiteV with
    | zero t => exact .zero s t
    | finite t canonical => cases t <;> cases compared
  | finite s canonical =>
    cases finiteV with
    | zero t => cases s <;> cases compared
    | finite t canonical' =>
      rename_i m e m' e'
      have parts (order : Ordering) (shape : order = (Ord.compare e e').then (Ord.compare m m'))
          (equal : order = .eq) : e = e' ∧ m = m' := by
        rw [shape, Ordering.then_eq_eq] at equal
        exact ⟨compare_eq_iff_eq.mp equal.1, compare_eq_iff_eq.mp equal.2⟩
      cases s with
      | positive =>
        cases t with
        | positive =>
          obtain ⟨rfl, rfl⟩ := parts _ rfl (Option.some.inj compared)
          exact .same _
        | negative => cases compared
      | negative =>
        cases t with
        | positive => cases compared
        | negative =>
          obtain ⟨rfl, rfl⟩ := parts _ rfl (Ordering.swap_eq_eq.mp (Option.some.inj compared))
          exact .same _

theorem AlikeParts.compare {u v w : UnpackedFloat} (alike : AlikeParts u v) :
    u.compare w = v.compare w ∧ w.compare u = w.compare v := by
  cases alike with
  | same => exact ⟨rfl, rfl⟩
  | zero s t =>
    cases w with
    | infinity sign => cases sign <;> exact ⟨rfl, rfl⟩
    | notANumber => exact ⟨rfl, rfl⟩
    | zero sign => exact ⟨rfl, rfl⟩
    | finite sign m e pos => cases sign <;> exact ⟨rfl, rfl⟩

theorem add_comm_parts (u v : UnpackedFloat) :
    UnpackedFloat.add Format.binary64 u v = UnpackedFloat.add Format.binary64 v u := by
  cases u with
  | infinity s =>
    cases v with
    | infinity t => cases s <;> cases t <;> rfl
    | notANumber => rfl
    | zero t => rfl
    | finite t m e pos => rfl
  | notANumber => cases v <;> rfl
  | zero s =>
    cases v with
    | infinity t => rfl
    | notANumber => rfl
    | zero t => cases s <;> cases t <;> rfl
    | finite t m e pos => rfl
  | finite s m e pos =>
    cases v with
    | infinity t => rfl
    | notANumber => rfl
    | zero t => rfl
    | finite t m' e' pos' =>
      simp only [UnpackedFloat.add]
      rw [Int.min_comm, Int.add_comm]

theorem alike_of_value {x y : Float} (finiteX : x.isFinite) (finiteY : y.isFinite)
    (same : value x = value y) : Alike x y :=
  alike_iff_parts.mpr ((finiteParts_parts finiteX).alike (finiteParts_parts finiteY) same)

theorem AlikeParts.unpack_pack {u v : UnpackedFloat} (alike : AlikeParts u v) :
    AlikeParts (Float.Model.pack u).unpack (Float.Model.pack v).unpack := by
  cases alike with
  | same => exact .same _
  | zero s t =>
    rw [(FiniteParts.zero s).unpack_pack, (FiniteParts.zero t).unpack_pack]
    exact .zero s t

theorem AlikeParts.add_left {u v : UnpackedFloat} (alike : AlikeParts u v) (w : UnpackedFloat) :
    AlikeParts (UnpackedFloat.add Format.binary64 u w) (UnpackedFloat.add Format.binary64 v w) := by
  cases alike with
  | same => exact .same _
  | zero s t =>
    cases w with
    | zero r => cases s <;> cases t <;> cases r <;> first | exact .same _ | exact .zero _ _
    | infinity r => exact .same _
    | notANumber => exact .same _
    | finite r m e pos => exact .same _

theorem sub_eq_add_neg_parts (u v : UnpackedFloat) :
    UnpackedFloat.sub Format.binary64 u v = UnpackedFloat.add Format.binary64 u v.neg := by
  have opposite (s : Sign) (n : ℤ) : (-s).apply n = -s.apply n := by
    cases s with
    | positive => rfl
    | negative => exact (neg_neg n).symm
  cases u with
  | infinity s => cases v <;> rfl
  | notANumber => cases v <;> rfl
  | zero s => cases v <;> rfl
  | finite s m e pos =>
    cases v with
    | infinity t => rfl
    | notANumber => rfl
    | zero t => rfl
    | finite t m' e' pos' =>
      simp only [UnpackedFloat.sub, UnpackedFloat.add, UnpackedFloat.neg, opposite,
        Int.sub_eq_add_neg]

theorem AlikeParts.trans {u v w : UnpackedFloat} (first : AlikeParts u v)
    (second : AlikeParts v w) : AlikeParts u w := by
  cases first with
  | same => exact second
  | zero s t =>
    cases second with
    | same => exact .zero s t
    | zero _ r => exact .zero s r

variable {x y z : Float}

theorem Alike.refl (x : Float) : Alike x x := .inl rfl

theorem Alike.symm (alike : Alike x y) : Alike y x :=
  alike.imp Eq.symm And.symm

theorem Alike.trans (first : Alike x y) (second : Alike y z) : Alike x z :=
  alike_iff_parts.mpr ((alike_iff_parts.mp first).trans (alike_iff_parts.mp second))

protected theorem add_comm (x y : Float) : x + y = y + x := by
  apply parts_injective
  rw [parts_add, parts_add, add_comm_parts]

theorem Alike.add {x' y' : Float} (left : Alike x x') (right : Alike y y') :
    Alike (x + y) (x' + y') := by
  have one {a b : Float} (alike : Alike a b) (c : Float) : Alike (a + c) (b + c) :=
    alike_iff_parts.mpr ((alike_iff_parts.mp alike).add_left _).unpack_pack
  refine (one left y).trans ?_
  rw [Binary64.add_comm x' y, Binary64.add_comm x' y']
  exact one right x'

theorem Alike.lt (alike : Alike x y) (z : Float) : (x < z ↔ y < z) ∧ (z < x ↔ z < y) := by
  obtain ⟨left, right⟩ := (alike_iff_parts.mp alike).compare (w := parts z)
  have lt (a b : Float) : a < b ↔ (parts a).compare (parts b) = some .lt := by
    change decide (UnpackedFloat.lt (parts a) (parts b) = true) = true ↔ _
    rw [decide_eq_true_iff, UnpackedFloat.lt, beq_iff_eq]
  rw [lt, lt, lt, lt, left, right]
  exact ⟨.rfl, .rfl⟩

theorem Alike.le (alike : Alike x y) (z : Float) : (x ≤ z ↔ y ≤ z) ∧ (z ≤ x ↔ z ≤ y) := by
  obtain ⟨left, right⟩ := (alike_iff_parts.mp alike).compare (w := parts z)
  have le (a b : Float) : a ≤ b ↔ ((parts a).compare (parts b)).any (·.isLE) = true := by
    change decide (UnpackedFloat.le (parts a) (parts b) = true) = true ↔ _
    rw [decide_eq_true_iff, UnpackedFloat.le]
  rw [le, le, le, le, left, right]
  exact ⟨.rfl, .rfl⟩

theorem Alike.distance (alike : Alike x y) (z : Float) : Alike (x - z).abs (y - z).abs := by
  have parts_sub (a : Float) : parts (a - z) =
      (Float.Model.pack (UnpackedFloat.add Format.binary64 (parts a) (parts z).neg)).unpack := by
    rw [← sub_eq_add_neg_parts]
    rfl
  have difference : AlikeParts (parts (x - z)) (parts (y - z)) := by
    rw [parts_sub, parts_sub]
    exact ((alike_iff_parts.mp alike).add_left (parts z).neg).unpack_pack
  have absolute {u v : UnpackedFloat} (alike : AlikeParts u v) :
      AlikeParts (Float.Model.pack u.abs).unpack (Float.Model.pack v.abs).unpack := by
    cases alike with
    | same => exact .same _
    | zero s t => exact .same _
  exact alike_iff_parts.mpr (absolute difference)

/-- A comparison does not see the sign of zero. -/
theorem Alike.holds (alike : Alike x y) (op : Comparison) (threshold : Float) :
    op.holds x threshold = op.holds y threshold := by
  cases op with
  | equal => exact decide_eq_decide.mpr ((alike.distance threshold).lt _).1
  | notEqual => exact decide_eq_decide.mpr ((alike.distance threshold).le _).2
  | less => exact decide_eq_decide.mpr (alike.lt threshold).1
  | lessEqual => exact decide_eq_decide.mpr (alike.le threshold).1
  | greater => exact decide_eq_decide.mpr (alike.lt threshold).2
  | greaterEqual => exact decide_eq_decide.mpr (alike.le threshold).2

/-! ## Sums in any order -/

/-- Minus zero changes no other double, not even a zero or a NaN. -/
theorem negZero_add (x : Float) : -0.0 + x = x := by
  have repacked : (Float.Model.pack (parts x)).unpack = parts x :=
    congrArg (UnpackedFloat.unpack Format.binary64)
      (UnpackedFloat.pack_unpack_of_valid x.toModel.valid)
  have neutral (u : UnpackedFloat) :
      UnpackedFloat.add Format.binary64 (.zero .negative) u = u := by
    cases u with
    | zero s => cases s <;> rfl
    | infinity s => rfl
    | notANumber => rfl
    | finite s m e pos => rfl
  apply parts_injective
  calc parts (-0.0 + x)
      = (Float.Model.pack (UnpackedFloat.add Format.binary64 (.zero .negative) (parts x))).unpack :=
        rfl
    _ = parts x := by rw [neutral, repacked]

theorem alike_sum_singleton (x : Float) : Alike (sum [x]) x := .inl (negZero_add x)

theorem alike_sum_pair (x y : Float) : Alike (sum [x, y]) (x + y) :=
  (alike_sum_singleton x).add (.refl y)

def OrderFree (xs : List Float) : Prop := xs.length ≤ 2 ∨ ∃ q, FitsGrid q xs

/-- Whole numbers with fewer than 54 bits in sum can be added in any order. -/
theorem OrderFree.of_whole {xs : List Float} (whole : ∀ x ∈ xs, ∃ a : ℤ, value x = a)
    (small : (xs.map fun x => |value x|).sum < 2 ^ 53) : OrderFree xs := by
  refine .inr ⟨0, by decide, by decide, ?_, ?_⟩
  · intro x member
    rw [zpow_zero]
    simpa using whole x member
  · rwa [zpow_zero, mul_one]

theorem FitsGrid.of_perm {q : ℤ} {xs ys : List Float} (fits : FitsGrid q xs)
    (perm : (xs.map value).Perm (ys.map value)) : FitsGrid q ys where
  low := fits.low
  high := fits.high
  multiple y member := by
    obtain ⟨x, memberX, same⟩ := List.mem_map.mp
      (perm.mem_iff.mpr (List.mem_map_of_mem (f := value) member))
    exact same ▸ fits.multiple x memberX
  small := by
    have sizes := (perm.map fun v => |v|).sum_eq
    rw [List.map_map, List.map_map] at sizes
    exact lt_of_eq_of_lt sizes.symm fits.small

theorem perm_pair {a b c d : ℚ} (perm : [a, b].Perm [c, d]) : a = c ∧ b = d ∨ a = d ∧ b = c := by
  have member : a ∈ [c, d] := perm.mem_iff.mp List.mem_cons_self
  rw [List.mem_cons, List.mem_singleton] at member
  rcases member with rfl | rfl
  · exact .inl ⟨rfl, List.singleton_perm_singleton.mp ((List.perm_cons a).mp perm)⟩
  · have swapped := perm.trans (List.Perm.swap a c [])
    exact .inr ⟨rfl, List.singleton_perm_singleton.mp ((List.perm_cons a).mp swapped)⟩

/-- At most two summands can be added in both orders. -/
theorem alike_sum_of_few {xs ys : List Float} (finiteX : ∀ x ∈ xs, x.isFinite)
    (finiteY : ∀ y ∈ ys, y.isFinite) (perm : (xs.map value).Perm (ys.map value))
    (few : xs.length ≤ 2) : Alike (sum xs) (sum ys) := by
  have length := perm.length_eq
  rw [List.length_map, List.length_map] at length
  cases xs with
  | nil =>
    obtain rfl := List.length_eq_zero_iff.mp length.symm
    exact .refl _
  | cons x xs =>
    cases xs with
    | nil =>
      obtain ⟨y, rfl⟩ := List.length_eq_one_iff.mp length.symm
      rw [List.forall_mem_singleton] at finiteX finiteY
      have same : value x = value y := List.singleton_perm_singleton.mp perm
      have alike := alike_of_value finiteX finiteY same
      exact (alike_sum_singleton x).trans (alike.trans (alike_sum_singleton y).symm)
    | cons x' xs =>
      obtain rfl : xs = [] := List.length_eq_zero_iff.mp (by
        rw [List.length_cons, List.length_cons] at few
        omega)
      obtain ⟨y, y', rfl⟩ := List.length_eq_two.mp length.symm
      rw [List.forall_mem_cons, List.forall_mem_singleton] at finiteX finiteY
      have alike : Alike (x + x') (y + y') := by
        rcases perm_pair perm with ⟨first, second⟩ | ⟨first, second⟩
        · exact (alike_of_value finiteX.1 finiteY.1 first).add
            (alike_of_value finiteX.2 finiteY.2 second)
        · rw [Binary64.add_comm y y']
          exact (alike_of_value finiteX.1 finiteY.2 first).add
            (alike_of_value finiteX.2 finiteY.1 second)
      exact (alike_sum_pair x x').trans (alike.trans (alike_sum_pair y y').symm)

/-- Summands of the same values have the same sum in any two orders, up to the sign of zero, if it
does not depend on the order. -/
theorem alike_sum_of_perm {xs ys : List Float} (finiteX : ∀ x ∈ xs, x.isFinite)
    (finiteY : ∀ y ∈ ys, y.isFinite) (perm : (xs.map value).Perm (ys.map value))
    (free : OrderFree xs) : Alike (sum xs) (sum ys) := by
  rcases free with few | ⟨q, fits⟩
  · exact alike_sum_of_few finiteX finiteY perm few
  · have exactX := fits.exactSum finiteX
    have exactY := (fits.of_perm perm).exactSum finiteY
    refine alike_of_value exactX.finite exactY.finite ?_
    rw [exactX.value, exactY.value, perm.sum_eq]

end AlertEngine.Binary64
