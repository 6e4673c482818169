import AlertEngine.Calculation

/-! # Counting samples

Two calculations look at every sample of a window on its own: `all` searches for one that does not
meet the condition, and `atLeast` counts those that do. Whether `atLeast` triggers depends on the
count alone, and to ask for all samples is to ask for as many as there are.

* `Calculation.Triggers`, `Calculation.Rests`: results that trigger a rule, and results that do not.
* `Calculation.triggers_atLeast_iff`, `rests_atLeast_iff`: what `atLeast` says of a window, by the
  number of samples that meet the condition.
* `Calculation.all_eq_atLeast_length`: the search and the count have the same result.
* `Calculation.all_is_full_count`: both, with what follows for larger and smaller numbers.
-/

namespace AlertEngine

namespace Calculation

def Triggers (result : Except CalculationError Outcome) : Prop :=
  ∃ value, result = .ok ⟨value, true⟩

def Rests (result : Except CalculationError Outcome) : Prop :=
  ∃ value, result = .ok ⟨value, false⟩

variable {newest threshold : Float} {older : List Float} {op : Comparison} {need : Int}

/-! ## Asking for a number of samples -/

/-- There is an outcome in any case, and it triggers if enough samples meet the condition. -/
theorem exists_run_atLeast (newest : Float) (older : List Float) (threshold : Float)
    (op : Comparison) (need : Int) :
    ∃ value, atLeast.run (newest :: older) threshold op (some need) =
      .ok ⟨value, decide (need ≤ (newest :: older).countP fun x => op.holds x threshold)⟩ :=
  ⟨_, rfl⟩

theorem triggers_atLeast_iff :
    Triggers (atLeast.run (newest :: older) threshold op (some need)) ↔
      need ≤ (newest :: older).countP fun x => op.holds x threshold := by
  obtain ⟨value, run⟩ := exists_run_atLeast newest older threshold op need
  rw [run]
  simp [Triggers]

theorem rests_atLeast_iff :
    Rests (atLeast.run (newest :: older) threshold op (some need)) ↔
      (newest :: older).countP (fun x => op.holds x threshold) < need := by
  obtain ⟨value, run⟩ := exists_run_atLeast newest older threshold op need
  rw [run]
  simp [Rests]

/-! ## Asking for all samples -/

/-- To search for a sample that fails is to count whether all of them pass, and both ways report the
same sample. -/
theorem all_eq_atLeast_length (newest : Float) (older : List Float) (meets : Float → Bool)
    (need : Option Int) :
    all.runOn newest older meets need =
      atLeast.runOn newest older meets (some (newest :: older).length) := by
  have full : ((newest :: older).length : Int) ≤ (newest :: older).countP meets ↔
      ∀ x ∈ newest :: older, meets x = true := by
    rw [Int.ofNat_le, ← List.countP_eq_length]
    exact ⟨Nat.le_antisymm List.countP_le_length, Nat.le_of_eq ∘ Eq.symm⟩
  by_cases every : ∀ x ∈ newest :: older, meets x = true
  · have none : (newest :: older).find? (fun x => !meets x) = none := by
      simpa using every
    have first : meets newest = true := every newest List.mem_cons_self
    simp only [runOn, none, full.mpr every, decide_true, List.find?_cons, first, beq_self_eq_true,
      Option.getD_some]
  · have fails : (fun x => meets x == false) = fun x => !meets x := by
      funext x
      cases meets x <;> rfl
    have short : decide (((newest :: older).length : Int) ≤ (newest :: older).countP meets) =
        false := decide_eq_false fun enough => every (full.mp enough)
    cases found : (newest :: older).find? fun x => !meets x with
    | none => exact absurd (by simpa using found) every
    | some failed => simp only [runOn, found, short, fails, Option.getD_some]

/-- To ask for all samples is to ask for as many as the window has: both give the same result.
Asking for fewer triggers wherever asking for more does. Asking for none always triggers, and asking
for more samples than there are never does. -/
theorem all_is_full_count (newest : Float) (older : List Float) (threshold : Float)
    (op : Comparison) :
    let window := newest :: older
    let asking (need : Int) := atLeast.run window threshold op (some need)
    (∀ need, all.run window threshold op need = asking window.length) ∧
    (∀ fewer more : Int, fewer ≤ more → Triggers (asking more) → Triggers (asking fewer)) ∧
    (∀ need : Int, need ≤ 0 → Triggers (asking need)) ∧
    ∀ need : Int, window.length < need → Rests (asking need) := by
  intro window asking
  have most : (window.countP fun x => op.holds x threshold : Int) ≤ window.length :=
    Int.ofNat_le.mpr List.countP_le_length
  refine ⟨fun need => all_eq_atLeast_length newest older _ need, ?_, ?_, ?_⟩
  · intro fewer more order triggers
    exact triggers_atLeast_iff.mpr (Int.le_trans order (triggers_atLeast_iff.mp triggers))
  · intro need none
    exact triggers_atLeast_iff.mpr (Int.le_trans none (Int.natCast_nonneg _))
  · intro need beyond
    exact rests_atLeast_iff.mpr (Int.lt_of_le_of_lt most beyond)

/-- Of three samples two are above the threshold and one is not a number. -/
theorem two_of_three_above :
    let window := [95, Binary64.nan, 97]
    all.run window 90 .greater none = atLeast.run window 90 .greater (some 3) ∧
      Triggers (atLeast.run window 90 .greater (some 1)) ∧
      Triggers (atLeast.run window 90 .greater (some 0)) ∧
      Rests (atLeast.run window 90 .greater (some 4)) := by
  intro window
  obtain ⟨full, monotone, always, never⟩ :=
    all_is_full_count 95 [Binary64.nan, 97] 90 .greater
  have two : Triggers (atLeast.run window 90 .greater (some 2)) :=
    triggers_atLeast_iff.mpr (by decide +kernel)
  exact ⟨full none, monotone 1 2 (by decide) two, always 0 (by decide), never 4 (by decide)⟩

end Calculation

end AlertEngine
