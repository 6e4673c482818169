import AlertEngine.Calculation
import AlertEngine.Proofs.CalculationFaults
import AlertEngine.Proofs.DoubleBounds

/-! # Values of calculations

What a calculation reports is a value of the window or is made of some values by arithmetic. In the
first case it is finite when the values are. In the second it may leave the range of doubles; it
does not as long as the values are of moderate size.

* `Calculation.value_mem_window`: `all` and `atLeast` report a value of the window.
* `Moderate`: zero, and magnitudes far from both ends of the range.
* `Difference.bounded_series`: the differences of moderate values.
* `Calculation.isFinite_value`: every calculation on moderate values reports a finite value.
-/

namespace AlertEngine

open Binary64 (Bounded value)

/-! ## Values of the window -/

namespace Calculation

variable {c : Calculation} {window : List Float} {threshold : Float} {op : Comparison}
  {need : Option Int} {outcome : Outcome}

theorem getD_find?_mem {xs : List Float} {x : Float} (member : x ∈ xs) (p : Float → Bool) :
    (xs.find? p).getD x ∈ xs := by
  cases found : xs.find? p with
  | none => exact member
  | some y => exact List.mem_of_find?_eq_some found

/-- A calculation that looks for a value reports one of the window. -/
theorem value_mem_window (plain : c = .all ∨ c = .atLeast)
    (ran : c.run window threshold op need = .ok outcome) : outcome.value ∈ window := by
  cases window with
  | nil => cases ran
  | cons newest older =>
    rcases plain with rfl | rfl
    · rw [run, runOn] at ran
      split at ran
      · rename_i failed found
        cases ran
        exact List.mem_of_find?_eq_some found
      · cases ran
        exact List.mem_cons_self
    · simp only [run, runOn] at ran
      split at ran
      · cases ran
      · cases ran
        exact getD_find?_mem List.mem_cons_self _

end Calculation

/-! ## Moderate values -/

structure Moderate (x : Float) : Prop where
  finite : x.isFinite
  upper : |value x| ≤ 2 ^ (480 : ℤ)
  lower : value x = 0 ∨ 2 ^ (-480 : ℤ) ≤ |value x|

theorem Moderate.bounded {x : Float} (moderate : Moderate x) : Bounded (2 ^ (480 : ℤ)) x :=
  ⟨moderate.finite, moderate.upper⟩

namespace Binary64

/-- A difference is at most twice as large as its two sides. -/
theorem Bounded.sub {q : ℤ} {x y : Float} (boundedX : Bounded (2 ^ q) x)
    (boundedY : Bounded (2 ^ q) y) (low : -1074 ≤ q + 1) (high : q + 1 ≤ 971) :
    Bounded (2 ^ (q + 1)) (x - y) := by
  refine bounded_sub boundedX.finite boundedY.finite (reached_two_zpow low high) ?_
  calc |value x - value y| ≤ |value x| + |value y| := abs_sub _ _
    _ ≤ 2 ^ q + 2 ^ q := add_le_add boundedX.bound boundedY.bound
    _ = 2 ^ (q + 1) := by rw [zpow_add_one₀ two_ne_zero]; ring

theorem FiniteParts.eq_zero {u : Float.Model.UnpackedFloat} (finite : FiniteParts u)
    (zero : valueOf u = 0) : ∃ s, u = .zero s := by
  cases finite with
  | zero s => exact ⟨s, rfl⟩
  | finite s canonical =>
    have magnitude := canonical.magnitude_pos
    rw [← abs_valueOf s canonical.pos, zero, abs_zero] at magnitude
    exact absurd magnitude (lt_irrefl 0)

theorem value_ne_zero {x : Float} (finite : x.isFinite) (nonzero : ¬ (x == 0) = true) :
    value x ≠ 0 :=
  fun zero => nonzero (beq_zero_iff.mpr ((finiteParts_parts finite).eq_zero zero))

end Binary64

/-! ## Differences -/

namespace Difference

variable {window ds : List Float}

theorem smaller_mem (x y : Float) : Binary64.smaller x y = x ∨ Binary64.smaller x y = y := by
  rw [Binary64.smaller]
  split
  · exact .inr rfl
  · split
    · exact .inr rfl
    · exact .inl rfl

/-- A change in percent of the smaller one of two moderate values. -/
theorem bounded_percentage {newer older : Float} (moderate : Moderate newer)
    (moderate' : Moderate older) (nonzero : ¬ (Binary64.smaller newer older == 0) = true) :
    Bounded (2 ^ (968 : ℤ)) ((newer - older) / Binary64.smaller newer older * 100) := by
  have base : Moderate (Binary64.smaller newer older) := by
    rcases smaller_mem newer older with same | same
    · rwa [same]
    · rwa [same]
  -- The divisor is not zero, so its magnitude is at least 2 ^ -480, and the quotient is at most
  -- 2 ^ 481 times 2 ^ 480.
  have divisor := Binary64.value_ne_zero base.finite nonzero
  have difference := moderate.bounded.sub moderate'.bounded (by norm_num) (by norm_num)
  have quotient : Bounded (2 ^ (961 : ℤ)) ((newer - older) / Binary64.smaller newer older) := by
    refine Binary64.bounded_div difference.finite base.finite
      (Binary64.reached_two_zpow (by norm_num) (by norm_num)) divisor ?_
    have least := base.lower.resolve_left divisor
    rw [abs_div, div_le_iff₀ (abs_pos.mpr divisor)]
    calc |value (newer - older)| ≤ 2 ^ (480 + 1 : ℤ) := difference.bound
      _ = 2 ^ (961 : ℤ) * 2 ^ (-480 : ℤ) := by rw [← zpow_add₀ two_ne_zero]; norm_num
      _ ≤ 2 ^ (961 : ℤ) * |value (Binary64.smaller newer older)| :=
        mul_le_mul_of_nonneg_left least (Binary64.two_zpow_pos 961).le
  obtain ⟨finite, hundred⟩ : (100 : Float).isFinite ∧ value 100 = (100 : ℕ) :=
    Binary64.value_ofNat (by norm_num)
  refine Binary64.bounded_mul quotient.finite finite
    (Binary64.reached_two_zpow (by norm_num) (by norm_num)) ?_
  rw [hundred, abs_mul, Nat.abs_cast]
  calc |value ((newer - older) / Binary64.smaller newer older)| * (100 : ℕ)
      ≤ 2 ^ (961 : ℤ) * 2 ^ (7 : ℤ) :=
        mul_le_mul quotient.bound (by norm_num) (by norm_num) (Binary64.two_zpow_pos 961).le
    _ = 2 ^ (968 : ℤ) := by rw [← zpow_add₀ two_ne_zero]; norm_num

theorem bounded_percentSeries {index : Nat} (moderate : ∀ x ∈ window, Moderate x)
    (ran : percentSeries index window = .ok ds) : ∀ x ∈ ds, Bounded (2 ^ (968 : ℤ)) x := by
  induction window generalizing index ds with
  | nil =>
    cases ran
    simp
  | cons newer rest inductionHypothesis =>
    cases rest with
    | nil =>
      cases ran
      simp
    | cons older rest =>
      rw [List.forall_mem_cons] at moderate
      simp only [percentSeries] at ran
      split at ran
      · cases ran
      · rename_i nonzero
        obtain ⟨changes, others, rfl⟩ := map_eq_ok_iff.mp ran
        rw [List.forall_mem_cons]
        exact ⟨bounded_percentage moderate.1 (moderate.2 older List.mem_cons_self) nonzero,
          inductionHypothesis moderate.2 others⟩

/-- All differences of moderate values. -/
theorem bounded_series {d : Difference} (moderate : ∀ x ∈ window, Moderate x)
    (ran : d.series window = .ok ds) : ∀ x ∈ ds, Bounded (2 ^ (968 : ℤ)) x := by
  have difference {x y : Float} (memberX : x ∈ window) (memberY : y ∈ window) :
      Bounded (2 ^ (968 : ℤ)) (x - y) :=
    ((moderate x memberX).bounded.sub (moderate y memberY).bounded (by norm_num)
      (by norm_num)).mono (zpow_le_zpow_right₀ one_le_two (by norm_num))
  cases window with
  | nil =>
    cases ran
    simp
  | cons newest older =>
    cases d with
    | fromNewest =>
      cases ran
      intro x member
      obtain ⟨y, present, rfl⟩ := List.mem_map.mp member
      exact difference List.mem_cons_self (List.mem_cons_of_mem newest present)
    | distanceFromNewest =>
      cases ran
      intro x member
      obtain ⟨y, present, rfl⟩ := List.mem_map.mp member
      exact (difference List.mem_cons_self (List.mem_cons_of_mem newest present)).abs
    | consecutive =>
      cases ran
      intro x member
      rw [← List.map_uncurry_zip_eq_zipWith] at member
      obtain ⟨⟨y, z⟩, pair, rfl⟩ := List.mem_map.mp member
      obtain ⟨present, presentOlder⟩ := List.of_mem_zip pair
      exact difference present (List.mem_cons_of_mem newest presentOlder)
    | percent => exact bounded_percentSeries moderate ran

theorem length_percentSeries {index : Nat} (ran : percentSeries index window = .ok ds) :
    ds.length = window.length - 1 := by
  induction window generalizing index ds with
  | nil =>
    cases ran
    rfl
  | cons newer rest inductionHypothesis =>
    cases rest with
    | nil =>
      cases ran
      rfl
    | cons older rest =>
      simp only [percentSeries] at ran
      split at ran
      · cases ran
      · obtain ⟨changes, others, rfl⟩ := map_eq_ok_iff.mp ran
        have length := inductionHypothesis others
        simp only [List.length_cons] at length ⊢
        omega

/-- There is one difference for each sample but the newest. -/
theorem length_series {d : Difference} (ran : d.series window = .ok ds) :
    ds.length = window.length - 1 := by
  cases window with
  | nil =>
    cases ran
    rfl
  | cons newest older =>
    cases d with
    | fromNewest =>
      cases ran
      exact List.length_map _
    | distanceFromNewest =>
      cases ran
      exact List.length_map _
    | consecutive =>
      cases ran
      simp
    | percent => exact length_percentSeries ran

end Difference

/-! ## Calculations -/

namespace Calculation

variable {c : Calculation} {d : Difference} {window : List Float} {meets : Float → Bool}
  {outcome : Outcome}

theorem isFinite_everyDifference (moderate : ∀ x ∈ window, Moderate x)
    (ran : c.everyDifference d meets window = .ok outcome) : outcome.value.isFinite := by
  rw [everyDifference] at ran
  split at ran
  · cases ran
  · obtain ⟨ds, differences, rfl⟩ := map_eq_ok_iff.mp ran
    have bounded := Difference.bounded_series moderate differences
    cases ds with
    | nil => exact (Binary64.value_ofNat (n := 0) (by norm_num)).1
    | cons first rest => exact (bounded _ (getD_find?_mem List.mem_cons_self meets)).finite

theorem isFinite_averageDifference (change : Float → Float)
    (kept : ∀ (b : ℚ) (x : Float), Bounded b x → Bounded b (change x))
    (moderate : ∀ x ∈ window, Moderate x) (short : window.length < 2 ^ 53)
    (ran : c.averageDifference d change meets window = .ok outcome) : outcome.value.isFinite := by
  rw [averageDifference] at ran
  split at ran
  · cases ran
  · rename_i pairs
    obtain ⟨ds, differences, rfl⟩ := map_eq_ok_iff.mp ran
    have length := Difference.length_series differences
    have present : ds ≠ [] := List.length_pos_iff.mp (by omega)
    have bounded := Difference.bounded_series moderate differences
    exact (kept _ _ (Binary64.bounded_mean bounded present (by omega) (by norm_num)
      (by norm_num))).finite

/-- Every calculation on moderate values reports a finite value. -/
theorem isFinite_value {threshold : Float} {op : Comparison} {need : Option Int}
    (moderate : ∀ x ∈ window, Moderate x) (short : window.length < 2 ^ 53)
    (ran : c.run window threshold op need = .ok outcome) : outcome.value.isFinite := by
  have bounded : ∀ x ∈ window, Bounded (2 ^ (480 : ℤ)) x :=
    fun x member => (moderate x member).bounded
  by_cases plain : c = .all ∨ c = .atLeast
  · exact (moderate _ (value_mem_window plain ran)).finite
  cases window with
  | nil => cases ran
  | cons newest older =>
    rw [run] at ran
    cases c with
    | all => exact absurd (.inl rfl) plain
    | atLeast => exact absurd (.inr rfl) plain
    | sum =>
      cases ran
      exact (Binary64.bounded_sum bounded short (by norm_num) (by norm_num)).finite
    | avg =>
      cases ran
      exact (Binary64.bounded_mean bounded (List.cons_ne_nil newest older) short (by norm_num)
        (by norm_num)).finite
    | diff => exact isFinite_everyDifference moderate ran
    | adiff => exact isFinite_everyDifference moderate ran
    | rdiff => exact isFinite_everyDifference moderate ran
    | pdiff => exact isFinite_everyDifference moderate ran
    | diffAvg =>
      rw [runOn] at ran
      exact isFinite_averageDifference id (fun _ _ => id) moderate short ran
    | adiffAvg =>
      rw [runOn] at ran
      exact isFinite_averageDifference Float.abs (fun _ _ => Bounded.abs) moderate short ran
    | rdiffAvg =>
      rw [runOn] at ran
      exact isFinite_averageDifference id (fun _ _ => id) moderate short ran
    | pdiffAvg =>
      rw [runOn] at ran
      exact isFinite_averageDifference id (fun _ _ => id) moderate short ran

end Calculation

end AlertEngine
