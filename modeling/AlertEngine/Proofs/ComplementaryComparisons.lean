import AlertEngine.Proofs.DoubleOrder
import AlertEngine.Proofs.SampleCounts

/-!
# Complementary comparisons

Of a comparison and its complement exactly one holds for two numbers, with one exception: an
infinite value is at no distance from the same infinity, so that it is neither equal to it within
the tolerance nor unequal. All that windows say of complements follows by counting.

* `Comparison.complement`: the comparison that stands for the opposite.
* `Comparison.undecided`: the exception.
* `Comparison.holds_complement`: a number meets the complement of what it does not meet.
* `Calculation.metIn_complement`: the samples of a window, counted by the way they are decided.
* `Calculation.complements_are_dual`: which questions about a window are opposite.
-/

namespace AlertEngine

open Binary64 (isNaN_sub_iff isNaN_abs not_lt_iff_le not_comparable_of_isNaN)

namespace Comparison

/-! ## Complements -/

def complement : Comparison → Comparison
  | equal => notEqual
  | notEqual => equal
  | less => greaterEqual
  | lessEqual => greater
  | greater => lessEqual
  | greaterEqual => less

def isTolerant : Comparison → Bool
  | equal => true
  | notEqual => true
  | _ => false

/-- Whether neither a comparison nor its complement holds for two numbers. -/
def undecided (c : Comparison) (left right : Float) : Bool :=
  c.isTolerant && (right.isInf && left = right)

variable {c : Comparison} {x t : Float}

@[simp] theorem isTolerant_complement (c : Comparison) :
    c.complement.isTolerant = c.isTolerant := by
  cases c <;> rfl

theorem undecided_iff :
    c.undecided x t = true ↔ c.isTolerant = true ∧ t.isInf = true ∧ x = t := by
  rw [undecided, Bool.and_eq_true, Bool.and_eq_true, decide_eq_true_iff]

/-- The distance of numbers is a number, unless they are the same infinity. -/
theorem isNaN_distance_iff (numberX : x.isNaN = false) (numberT : t.isNaN = false) :
    (x - t).abs.isNaN = true ↔ t.isInf = true ∧ x = t := by
  rw [isNaN_abs, isNaN_sub_iff numberX numberT]
  exact ⟨fun ⟨infinite, same⟩ => ⟨same ▸ infinite, same⟩,
    fun ⟨infinite, same⟩ => ⟨same ▸ infinite, same⟩⟩

theorem isNaN_tolerance : tolerance.isNaN = false := by decide +kernel

theorem not_holds_of_undecided (undecided : c.undecided x t = true) (numberT : t.isNaN = false) :
    c.holds x t = false := by
  obtain ⟨tolerant, infinite, rfl⟩ := undecided_iff.mp undecided
  have distance := (isNaN_distance_iff numberT numberT).mpr ⟨infinite, rfl⟩
  obtain ⟨⟨notBelow, -⟩, -, notAbove⟩ := not_comparable_of_isNaN distance tolerance
  cases c with
  | equal => exact decide_eq_false notBelow
  | notEqual => exact decide_eq_false notAbove
  | less => cases tolerant
  | lessEqual => cases tolerant
  | greater => cases tolerant
  | greaterEqual => cases tolerant

/-- A number meets the complement of a comparison if it does not meet the comparison, unless it is
undecided. -/
theorem holds_complement (numberX : x.isNaN = false) (numberT : t.isNaN = false) :
    c.complement.holds x t = (!c.holds x t && !c.undecided x t) := by
  cases gap : c.undecided x t with
  | true =>
    rw [not_holds_of_undecided _ numberT, Bool.not_true, Bool.and_false]
    rw [undecided_iff, isTolerant_complement, ← undecided_iff]
    exact gap
  | false =>
    -- All that is compared are numbers now, the distance too.
    rw [Bool.not_false, Bool.and_true]
    have atLeast {a b : Float} (numberA : a.isNaN = false) (numberB : b.isNaN = false) :
        decide (b ≤ a) = !decide (a < b) := by
      rw [← decide_not, decide_eq_decide, not_lt_iff_le numberA numberB]
    have below {a b : Float} (numberA : a.isNaN = false) (numberB : b.isNaN = false) :
        decide (a < b) = !decide (b ≤ a) := by
      rw [atLeast numberA numberB, Bool.not_not]
    have distance (tolerant : c.isTolerant = true) : (x - t).abs.isNaN = false := by
      rw [← Bool.not_eq_true, isNaN_distance_iff numberX numberT]
      exact fun same => Bool.false_ne_true (gap.symm.trans (undecided_iff.mpr ⟨tolerant, same⟩))
    cases c with
    | equal => exact atLeast (distance rfl) isNaN_tolerance
    | notEqual => exact below (distance rfl) isNaN_tolerance
    | less => exact atLeast numberX numberT
    | lessEqual => exact below numberT numberX
    | greater => exact atLeast numberT numberX
    | greaterEqual => exact below numberX numberT

end Comparison

namespace Calculation

open Comparison

/-! ## Counting -/

def undecidedIn (c : Comparison) (window : List Float) (threshold : Float) : Nat :=
  window.countP fun x => c.undecided x threshold

def metIn (c : Comparison) (window : List Float) (threshold : Float) : Nat :=
  window.countP fun x => c.holds x threshold

variable {c : Comparison} {newest threshold : Float} {older window : List Float} {need : Int}

/-- Every sample meets a comparison or its complement, or is undecided. -/
theorem metIn_complement (numbers : ∀ x ∈ window, x.isNaN = false)
    (number : threshold.isNaN = false) :
    metIn c window threshold + metIn c.complement window threshold +
      undecidedIn c window threshold = window.length := by
  induction window with
  | nil => rfl
  | cons x window inductionHypothesis =>
    rw [List.forall_mem_cons] at numbers
    have rest := inductionHypothesis numbers.2
    rw [metIn, metIn, undecidedIn] at rest ⊢
    rw [List.countP_cons, List.countP_cons, List.countP_cons, List.length_cons,
      holds_complement numbers.1 number]
    cases gap : c.undecided x threshold with
    | true =>
      rw [not_holds_of_undecided gap number]
      simp
      omega
    | false =>
      cases c.holds x threshold with
      | true => simp; omega
      | false => simp; omega

theorem undecidedIn_eq_zero_iff : undecidedIn c window threshold = 0 ↔
    c.isTolerant = false ∨ threshold.isInf = false ∨ threshold ∉ window := by
  rw [undecidedIn, List.countP_eq_zero]
  simp only [undecided_iff]
  constructor
  · intro none
    rw [← Bool.not_eq_true, ← Bool.not_eq_true, or_iff_not_imp_left, or_iff_not_imp_left]
    intro tolerant infinite member
    exact none threshold member ⟨not_not.mp tolerant, not_not.mp infinite, rfl⟩
  · rintro (exact | finite | absent) x member ⟨tolerant, infinite, rfl⟩
    · exact Bool.false_ne_true (exact.symm.trans tolerant)
    · exact Bool.false_ne_true (finite.symm.trans infinite)
    · exact absent member

/-! ## Opposite questions -/

theorem not_triggers_atLeast_iff :
    ¬ Triggers (atLeast.run (newest :: older) threshold c (some need)) ↔
      metIn c (newest :: older) threshold < need := by
  rw [triggers_atLeast_iff, Int.not_le]
  rfl

/-- Asking a window for a number of samples that meet a comparison is the opposite of asking whether
so many meet the complement that too few are left, and asking for all samples is the opposite of
asking for one that meets the complement. The exception are samples that are undecided: there are
some only if values are compared for equality with an infinite threshold that is a sample itself.
Opposite questions never both trigger, and neither does if the number asked for is only reached
with the undecided samples. -/
theorem complements_are_dual (c : Comparison) (newest : Float) (older : List Float)
    (threshold : Float) (numbers : ∀ x ∈ newest :: older, x.isNaN = false)
    (number : threshold.isNaN = false) :
    let window := newest :: older
    let asking (op : Comparison) (need : Int) := atLeast.run window threshold op (some need)
    let opposite (need : Int) := asking c.complement (window.length - need + 1)
    let met := metIn c window threshold
    let ties := undecidedIn c window threshold
    (ties = 0 →
      (∀ arg, Triggers (all.run window threshold c arg) ↔ ¬ Triggers (asking c.complement 1)) ∧
      ∀ need, Triggers (asking c need) ↔ ¬ Triggers (opposite need)) ∧
    (ties = 0 ↔ c.isTolerant = false ∨ threshold.isInf = false ∨ threshold ∉ window) ∧
    (∀ arg, all.run window threshold c arg = asking c window.length) ∧
    (∀ need, Triggers (asking c need) → ¬ Triggers (opposite need)) ∧
    ∀ need, (¬ Triggers (asking c need) ∧ ¬ Triggers (opposite need)) ↔
      met < need ∧ need ≤ met + ties := by
  intro window asking opposite met ties
  have counted : met + metIn c.complement window threshold + ties = window.length :=
    metIn_complement numbers number
  have all_eq (arg : Option Int) : all.run window threshold c arg = asking c window.length :=
    all_eq_atLeast_length newest older _ arg
  have triggers (need : Int) : Triggers (asking c need) ↔ need ≤ met := triggers_atLeast_iff
  have rests (need : Int) : ¬ Triggers (opposite need) ↔ need ≤ met + ties := by
    rw [not_triggers_atLeast_iff]
    change (metIn c.complement window threshold : Int) < _ ↔ _
    omega
  refine ⟨fun none => ?_, undecidedIn_eq_zero_iff, all_eq, fun need => ?_, fun need => ?_⟩
  · have dual (need : Int) : Triggers (asking c need) ↔ ¬ Triggers (opposite need) := by
      rw [triggers, rests, none, Nat.cast_zero, add_zero]
    refine ⟨fun arg => ?_, dual⟩
    rw [all_eq, dual]
    change ¬ Triggers (asking c.complement (window.length - window.length + 1)) ↔ _
    rw [sub_self, zero_add]
  · rw [triggers, rests]
    omega
  · rw [triggers, rests, not_le]

/-- One of two samples is the threshold, which is infinite: it counts neither as equal to it nor as
unequal. -/
theorem one_of_two_undecided :
    let window := [Binary64.infinity, 80]
    (∀ x ∈ window, x.isNaN = false) ∧ Binary64.infinity.isNaN = false ∧
      undecidedIn .equal window Binary64.infinity = 1 ∧
      (¬ Triggers (atLeast.run window Binary64.infinity .equal (some 1)) ∧
        ¬ Triggers (atLeast.run window Binary64.infinity .notEqual (some 2))) ∧
      (Triggers (all.run window Binary64.infinity .lessEqual none) ↔
        ¬ Triggers (atLeast.run window Binary64.infinity .greater (some 1))) := by
  intro window
  have numbers : ∀ x ∈ window, x.isNaN = false := by decide +kernel
  have number : Binary64.infinity.isNaN = false := by decide +kernel
  obtain ⟨_, _, _, _, neither⟩ :=
    complements_are_dual .equal Binary64.infinity [80] Binary64.infinity numbers number
  obtain ⟨dual, decided, _⟩ :=
    complements_are_dual .lessEqual Binary64.infinity [80] Binary64.infinity numbers number
  exact ⟨numbers, number, by decide +kernel, (neither 1).mpr (by decide +kernel),
    (dual (decided.mpr (.inl rfl))).1 none⟩

/-- At an infinite threshold a window of the threshold alone does not trigger `all` with `=`, nor
`atLeast` with `!=`. -/
theorem same_infinity_undecided :
    Binary64.infinity.isNaN = false ∧
      ¬ (Triggers (all.run [Binary64.infinity] Binary64.infinity .equal none) ↔
        ¬ Triggers (atLeast.run [Binary64.infinity] Binary64.infinity .notEqual (some 1))) := by
  have rests (op : Comparison) (unmet : op.holds Binary64.infinity Binary64.infinity = false) :
      ¬ Triggers (atLeast.run [Binary64.infinity] Binary64.infinity op (some 1)) := by
    rw [not_triggers_atLeast_iff, metIn, List.countP_singleton, unmet]
    decide
  have same : all.run [Binary64.infinity] Binary64.infinity .equal none =
      atLeast.run [Binary64.infinity] Binary64.infinity .equal (some 1) :=
    all_eq_atLeast_length Binary64.infinity [] (equal.holds · Binary64.infinity) none
  refine ⟨by decide +kernel, fun dual => rests .equal (by decide +kernel) ?_⟩
  exact same ▸ dual.mpr (rests .notEqual (by decide +kernel))

end Calculation

end AlertEngine
