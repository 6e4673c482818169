import AlertEngine.Proofs.CalculationFaults
import AlertEngine.Proofs.DoubleSums
import Mathlib.Data.Nat.Count

/-! # The table of calculations

What the calculations say of a window, by the indices of its samples: which entries have to meet the
condition, which entry is reported, and which window has no outcome. The calculations themselves go
through the window once; here nothing is said of the way.

* `sampleAt`, `Difference.entry`: a sample, and an entry of a series of differences, at an index.
* `FirstOf`: the entry of least index that has a property, or else a given value.
* `leftSum`: entries added from left to right.
* `Calculation.Tabulated`: the table, with one row for each calculation.
* `Difference.series_cases`: the differences of a window are the entries at its indices.
* `Calculation.run_eq_iff_tabulated`: a calculation gives the one result that stands in the table.
-/

namespace AlertEngine

/-! ## Entries -/

def sampleAt (window : List Float) (i : Nat) : Float := window.getD i 0

def Difference.entry (d : Difference) (window : List Float) (i : Nat) : Float :=
  match d with
  | fromNewest => sampleAt window 0 - sampleAt window i
  | distanceFromNewest => (sampleAt window 0 - sampleAt window i).abs
  | consecutive => sampleAt window (i - 1) - sampleAt window i
  | percent =>
    (sampleAt window (i - 1) - sampleAt window i) /
      Binary64.smaller (sampleAt window (i - 1)) (sampleAt window i) * 100

/-- The entry of least index, from `first` on and below `last`, that has a property; if none has it,
a value to fall back on. -/
inductive FirstOf (property : Float → Prop) (entry : Nat → Float) (first last : Nat)
    (fallback : Float) : Float → Prop
  | found (i : Nat) (low : first ≤ i) (high : i < last) (holds : property (entry i))
    (before : ∀ j, first ≤ j → j < i → ¬ property (entry j)) :
    FirstOf property entry first last fallback (entry i)
  | none (nowhere : ∀ i, first ≤ i → i < last → ¬ property (entry i)) :
    FirstOf property entry first last fallback fallback

/-- The entry at an index and so many more behind it, added from left to right. -/
def leftSum (entry : Nat → Float) (first : Nat) : Nat → Float
  | 0 => entry first
  | more + 1 => leftSum entry first more + entry (first + (more + 1))

structure Found (condition : Prop) (property : Float → Prop) (entry : Nat → Float)
    (first last : Nat) (fallback : Float) (o : Outcome) : Prop where
  triggered : o.triggered ↔ condition
  value : FirstOf property entry first last fallback o.value

/-! ## The table -/

namespace Calculation

variable {window : List Float} {meets : Float → Bool} {need : Option Int}

/-- The results of a calculation that makes outcomes of differences: it needs two samples, and no
divisor of a percentage may be zero. -/
inductive OnDifferences (c : Calculation) (d : Difference) (window : List Float)
    (admits : Outcome → Prop) : Except CalculationError Outcome → Prop
  | tooFewSamples (single : window.length < 2) :
    OnDifferences c d window admits (.error (.tooFewSamples c.name))
  | zeroDivisor {i : Nat} (several : 2 ≤ window.length) (percent : d = .percent)
    (first : IsFirstZeroDivisor window i) :
    OnDifferences c d window admits (.error (.zeroDivisor i))
  | outcome {o : Outcome} (several : 2 ≤ window.length)
    (defined : d = .percent → ∀ i, ¬ isZeroDivisor window i) (admitted : admits o) :
    OnDifferences c d window admits (.ok o)

def Every (c : Calculation) (d : Difference) (window : List Float) (meets : Float → Bool) :
    Except CalculationError Outcome → Prop :=
  OnDifferences c d window
    (Found (∀ i, 1 ≤ i → i < window.length → meets (d.entry window i)) (fun x => meets x)
      (d.entry window) 1 window.length (d.entry window 1))

def Average (c : Calculation) (d : Difference) (change : Float → Float) (window : List Float)
    (meets : Float → Bool) : Except CalculationError Outcome → Prop :=
  OnDifferences c d window fun o =>
    let mean := leftSum (d.entry window) 1 (window.length - 2) / Float.ofNat (window.length - 1)
    o = ⟨change mean, meets (change mean)⟩

/-- The results of calculations on a window that is not empty. A value meets the condition or not;
`need` is the number of samples that `atLeast` asks for. -/
def Tabulated (window : List Float) (meets : Float → Bool) (need : Option Int)
    (result : Except CalculationError Outcome) : Calculation → Prop
  | all => ∃ o, result = .ok o ∧
    Found (∀ i < window.length, meets (sampleAt window i)) (fun x => ¬ meets x)
      (sampleAt window) 0 window.length (sampleAt window 0) o
  | atLeast =>
    match need with
    | none => result = .error (.missingArgument "have")
    | some wanted => ∃ o, result = .ok o ∧
      Found (wanted ≤ Nat.count (fun i => meets (sampleAt window i)) window.length)
        (fun x => meets x = o.triggered) (sampleAt window) 0 window.length (sampleAt window 0) o
  | sum =>
    let sum := leftSum (sampleAt window) 0 (window.length - 1)
    result = .ok ⟨sum, meets sum⟩
  | avg =>
    let mean := leftSum (sampleAt window) 0 (window.length - 1) / Float.ofNat window.length
    result = .ok ⟨mean, meets mean⟩
  | diff => Every diff .fromNewest window meets result
  | adiff => Every adiff .distanceFromNewest window meets result
  | rdiff => Every rdiff .consecutive window meets result
  | pdiff => Every pdiff .percent window meets result
  | diffAvg => Average diffAvg .fromNewest id window meets result
  | adiffAvg => Average adiffAvg .fromNewest Float.abs window meets result
  | rdiffAvg => Average rdiffAvg .consecutive id window meets result
  | pdiffAvg => Average pdiffAvg .percent id window meets result

end Calculation

/-! ## Searching and adding -/

section

variable {property : Float → Prop} {entry : Nat → Float} {first last : Nat} {fallback x y : Float}

/-- There is one such entry at most. -/
theorem FirstOf.unique (one : FirstOf property entry first last fallback x)
    (other : FirstOf property entry first last fallback y) : x = y := by
  cases one with
  | found i low high holds before =>
    cases other with
    | found j low' high' holds' before' =>
      have notBefore : ¬ i < j := fun less => before' i low less holds
      have notBehind : ¬ j < i := fun less => before j low' less holds'
      rw [show i = j by omega]
    | none nowhere => exact absurd holds (nowhere i low high)
  | none nowhere =>
    cases other with
    | found j low' high' holds' before' => exact absurd holds' (nowhere j low' high')
    | none => rfl

/-- A search says one thing, also when the property depends on whether it triggers. -/
theorem Found.unique {condition : Prop} (property : Bool → Float → Prop) {o p : Outcome}
    (one : Found condition (property o.triggered) entry first last fallback o)
    (other : Found condition (property p.triggered) entry first last fallback p) : o = p := by
  obtain ⟨value, triggered⟩ := o
  obtain ⟨value', triggered'⟩ := p
  obtain rfl : triggered = triggered' :=
    Bool.eq_iff_iff.mpr (one.triggered.trans other.triggered.symm)
  obtain rfl : value = value' := one.value.unique other.value
  rfl

/-- What is said of the entries behind the first one, when that one lacks the property. -/
theorem FirstOf.step (behind : FirstOf property entry (first + 1) last fallback x)
    (lacks : ¬ property (entry first)) : FirstOf property entry first last fallback x := by
  have extend {i : Nat} (low : first ≤ i) (later : first + 1 ≤ i → ¬ property (entry i)) :
      ¬ property (entry i) := by
    rcases Nat.eq_or_lt_of_le low with rfl | less
    · exact lacks
    · exact later less
  cases behind with
  | found i low high holds before =>
    exact .found i (Nat.le_of_succ_le low) high holds fun j low below =>
      extend low fun later => before j later below
  | none nowhere => exact .none fun i low high => extend low fun later => nowhere i later high

/-- A search through entries finds the one of least index. -/
theorem firstOf_find? {p : Float → Bool} (decides : ∀ x, p x = true ↔ property x)
    (entry : Nat → Float) (first count : Nat) (fallback : Float) :
    FirstOf property entry first (first + count) fallback
      ((((List.range' first count).map entry).find? p).getD fallback) := by
  induction count generalizing first with
  | zero => exact .none fun i low high => by omega
  | succ count inductionHypothesis =>
    rw [List.range'_succ, List.map_cons, List.find?_cons]
    cases holds : p (entry first) with
    | true =>
      exact .found first (Nat.le_refl _) (by omega) ((decides _).mp holds) fun j low below => by
        omega
    | false =>
      have behind := inductionHypothesis (first + 1)
      rw [Nat.add_right_comm] at behind
      exact behind.step fun has => by rw [(decides _).mpr has] at holds; cases holds

theorem all_entries (p : Float → Bool) (entry : Nat → Float) (first count : Nat) :
    ((List.range' first count).map entry).all p = true ↔
      ∀ i, first ≤ i → i < first + count → p (entry i) := by
  simp [List.mem_range'_1]

/-- A sum from left to right starts with its first summand: the zero before it changes nothing. -/
theorem sum_entries (entry : Nat → Float) (first more : Nat) :
    Binary64.sum ((List.range' first (more + 1)).map entry) = leftSum entry first more := by
  induction more with
  | zero => exact Binary64.negZero_add (entry first)
  | succ more inductionHypothesis =>
    rw [List.range'_concat, List.map_append, List.map_singleton, Binary64.sum_snoc,
      inductionHypothesis, leftSum, Nat.one_mul]

end

/-! ## Series of differences -/

section

variable {window : List Float} {newest : Float} {older ds : List Float} {i : Nat}

@[simp] theorem sampleAt_zero (newest : Float) (older : List Float) :
    sampleAt (newest :: older) 0 = newest := rfl

theorem sampleAt_eq_getElem (inside : i < window.length) : sampleAt window i = window[i] := by
  simp [sampleAt, inside]

/-- The samples of a window, by their indices. -/
theorem map_sampleAt (window : List Float) :
    (List.range' 0 window.length).map (sampleAt window) = window := by
  refine List.ext_getElem (by simp) fun i _ inside => ?_
  simp [sampleAt_eq_getElem inside]

theorem IsFirstZeroDivisor.unique {j : Nat} (one : IsFirstZeroDivisor window i)
    (other : IsFirstZeroDivisor window j) : i = j := by
  have notBefore : ¬ i < j := fun less => other.2 i less one.1
  have notBehind : ¬ j < i := fun less => one.2 j less other.1
  omega

theorem exists_isFirstZeroDivisor (zero : isZeroDivisor window i) :
    ∃ j, IsFirstZeroDivisor window j :=
  have found : ∃ j, isZeroDivisor window j = true := ⟨i, zero⟩
  ⟨Nat.find found, Nat.find_spec found, fun _ below => Nat.find_min found below⟩

namespace Difference

variable {d : Difference}

theorem percentSeries_eq_entries {index : Nat}
    (defined : percentSeries index window = .ok ds) :
    ds = (List.range' 1 (window.length - 1)).map (percent.entry window) := by
  induction window generalizing index ds with
  | nil =>
    cases defined
    rfl
  | cons newer rest inductionHypothesis =>
    cases rest with
    | nil =>
      cases defined
      rfl
    | cons older rest =>
      rw [percentSeries] at defined
      split at defined
      · cases defined
      · obtain ⟨tail, read, rfl⟩ := map_eq_ok_iff.mp defined
        rw [inductionHypothesis read]
        -- Behind the first difference the indices are those of the rest, moved by one.
        refine List.ext_getElem (by simp) fun i _ inside => ?_
        cases i with
        | zero => simp [entry, sampleAt]
        | succ i => simp [Nat.add_comm 1, entry, sampleAt]

/-- The differences of a window are the entries at its indices, if there are any. -/
theorem series_eq_entries (defined : d.series (newest :: older) = .ok ds) :
    ds = (List.range' 1 older.length).map (d.entry (newest :: older)) := by
  have behind {i : Nat} (inside : i < older.length) :
      sampleAt (newest :: older) (i + 1) = older[i] :=
    sampleAt_eq_getElem (Nat.succ_lt_succ inside)
  cases d with
  | fromNewest =>
    cases defined
    refine List.ext_getElem (by simp) fun i inside _ => ?_
    rw [List.length_map] at inside
    simp only [List.getElem_map, List.getElem_range'_1, entry, sampleAt_zero, Nat.add_comm 1,
      behind inside]
  | distanceFromNewest =>
    cases defined
    refine List.ext_getElem (by simp) fun i inside _ => ?_
    rw [List.length_map] at inside
    simp only [List.getElem_map, List.getElem_range'_1, entry, sampleAt_zero, Nat.add_comm 1,
      behind inside]
  | consecutive =>
    cases defined
    refine List.ext_getElem (by simp) fun i paired _ => ?_
    have newer := List.lt_length_left_of_zipWith paired
    have inside := List.lt_length_right_of_zipWith paired
    simp only [List.getElem_zipWith, List.getElem_map, List.getElem_range'_1, entry,
      Nat.add_comm 1, behind inside, Nat.add_sub_cancel, sampleAt_eq_getElem newer]
  | percent => exact percentSeries_eq_entries defined

/-- A window has a first zero divisor, or the differences at all its indices. -/
theorem series_cases (d : Difference) (newest : Float) (older : List Float) :
    (∃ i, d = .percent ∧ IsFirstZeroDivisor (newest :: older) i ∧
      d.series (newest :: older) = .error (.zeroDivisor i)) ∨
    (d = .percent → ∀ i, ¬ isZeroDivisor (newest :: older) i) ∧
      d.series (newest :: older) =
        .ok ((List.range' 1 older.length).map (d.entry (newest :: older))) := by
  cases result : d.series (newest :: older) with
  | error fault =>
    obtain ⟨percent, i, rfl, first⟩ := series_eq_error_iff.mp result
    exact .inl ⟨i, percent, first, rfl⟩
  | ok ds =>
    refine .inr ⟨fun percent i zero => ?_, congrArg _ (series_eq_entries result)⟩
    obtain ⟨j, first⟩ := exists_isFirstZeroDivisor zero
    have fails := series_eq_error_iff.mpr ⟨percent, j, rfl, first⟩
    rw [result] at fails
    cases fails

end Difference

end

/-! ## Calculations -/

namespace Calculation

variable {c : Calculation} {d : Difference} {window : List Float} {newest : Float}
  {older : List Float} {meets : Float → Bool} {need : Option Int}
  {result other : Except CalculationError Outcome}

/-- A calculation on differences has one result. -/
theorem OnDifferences.unique {admits : Outcome → Prop}
    (functional : ∀ o p, admits o → admits p → o = p)
    (one : OnDifferences c d window admits result)
    (second : OnDifferences c d window admits other) : result = other := by
  cases one with
  | tooFewSamples single =>
    cases second with
    | tooFewSamples => rfl
    | zeroDivisor several => omega
    | outcome several => omega
  | zeroDivisor several percent first =>
    cases second with
    | tooFewSamples single => omega
    | zeroDivisor _ _ firstToo => rw [first.unique firstToo]
    | outcome _ defined => exact absurd first.1 (defined percent _)
  | outcome several defined admitted =>
    cases second with
    | tooFewSamples single => omega
    | zeroDivisor _ percent first => exact absurd first.1 (defined percent _)
    | outcome _ _ admittedToo => rw [functional _ _ admitted admittedToo]

theorem Every.unique (one : Every c d window meets result) (second : Every c d window meets other) :
    result = other :=
  OnDifferences.unique (fun _ _ => Found.unique (fun _ x => meets x)) one second

theorem Average.unique {change : Float → Float} (one : Average c d change window meets result)
    (second : Average c d change window meets other) : result = other :=
  OnDifferences.unique (fun _ _ first second => first.trans second.symm) one second

/-- There is one result in the table. -/
theorem Tabulated.unique (one : Tabulated window meets need result c)
    (second : Tabulated window meets need other c) : result = other := by
  cases c
  case all =>
    obtain ⟨o, rfl, found⟩ := one
    obtain ⟨p, rfl, foundToo⟩ := second
    rw [Found.unique (fun _ x => ¬ meets x) found foundToo]
  case atLeast =>
    cases need with
    | none => exact one.trans second.symm
    | some wanted =>
      obtain ⟨o, rfl, found⟩ := one
      obtain ⟨p, rfl, foundToo⟩ := second
      rw [Found.unique (fun triggered x => meets x = triggered) found foundToo]
  case sum => exact one.trans second.symm
  case avg => exact one.trans second.symm
  case diff => exact Every.unique one second
  case adiff => exact Every.unique one second
  case rdiff => exact Every.unique one second
  case pdiff => exact Every.unique one second
  case diffAvg => exact Average.unique one second
  case adiffAvg => exact Average.unique one second
  case rdiffAvg => exact Average.unique one second
  case pdiffAvg => exact Average.unique one second

theorem onDifferences_series {admits : Outcome → Prop} {outcome : List Float → Outcome}
    (admitted : 2 ≤ (newest :: older).length →
      admits (outcome ((List.range' 1 older.length).map (d.entry (newest :: older))))) :
    OnDifferences c d (newest :: older) admits
      (if (newest :: older).length < 2 then .error (.tooFewSamples c.name)
        else (d.series (newest :: older)).map outcome) := by
  split
  · rename_i single
    exact .tooFewSamples single
  · rename_i single
    have several : 2 ≤ (newest :: older).length := Nat.le_of_not_lt single
    rcases d.series_cases newest older with ⟨i, percent, first, fails⟩ | ⟨defined, entries⟩
    · rw [fails]
      exact .zeroDivisor several percent first
    · rw [entries]
      exact .outcome several defined (admitted several)

theorem every_everyDifference :
    Every c d (newest :: older) meets (c.everyDifference d meets (newest :: older)) := by
  refine onDifferences_series fun several => ⟨?_, ?_⟩
  · rw [all_entries, Nat.add_comm 1]
    rfl
  · have found := firstOf_find? (p := meets) (fun _ => Iff.rfl) (d.entry (newest :: older)) 1
      older.length (d.entry (newest :: older) 1)
    rw [Nat.add_comm 1] at found
    cases older with
    | nil => simp at several
    | cons second rest => exact found

theorem average_averageDifference {change : Float → Float} :
    Average c d change (newest :: older) meets
      (c.averageDifference d change meets (newest :: older)) := by
  refine onDifferences_series fun several => ?_
  cases older with
  | nil => simp at several
  | cons second rest =>
    simp only [Binary64.mean, List.length_cons, sum_entries, List.length_map, List.length_range',
      Nat.add_sub_cancel]
    rfl

theorem countP_window (window : List Float) :
    window.countP meets = Nat.count (fun i => meets (sampleAt window i)) window.length := by
  conv_lhs => rw [← map_sampleAt window]
  rw [List.countP_map, Nat.count, List.range_eq_range']
  simp [Function.comp_def]

theorem firstOf_window {p : Float → Bool} {property : Float → Prop}
    (decides : ∀ x, p x = true ↔ property x) (newest : Float) (older : List Float) :
    FirstOf property (sampleAt (newest :: older)) 0 (newest :: older).length newest
      (((newest :: older).find? p).getD newest) := by
  have found :=
    firstOf_find? decides (sampleAt (newest :: older)) 0 (newest :: older).length newest
  rwa [map_sampleAt, Nat.zero_add] at found

theorem all_window (window : List Float) :
    window.all meets = true ↔ ∀ i < window.length, meets (sampleAt window i) := by
  have every := all_entries meets (sampleAt window) 0 window.length
  simpa only [map_sampleAt, Nat.zero_add, Nat.zero_le, true_imp_iff] using every

theorem sum_window (newest : Float) (older : List Float) :
    Binary64.sum (newest :: older) = leftSum (sampleAt (newest :: older)) 0 older.length := by
  rw [← sum_entries, ← List.length_cons, map_sampleAt]

/-- Every calculation gives a result of the table. -/
theorem tabulated_runOn :
    Tabulated (newest :: older) meets need (c.runOn newest older meets need) c := by
  cases c
  case all =>
    have decides (x : Float) : (!meets x) = true ↔ ¬ meets x = true := by simp
    have reported := firstOf_window decides newest older
    rw [runOn]
    cases found : (newest :: older).find? fun x => !meets x with
    | none =>
      rw [found] at reported
      refine ⟨_, rfl, ?_, reported⟩
      rw [← all_window]
      simpa using found
    | some failed =>
      rw [found] at reported
      refine ⟨_, rfl, ?_, reported⟩
      rw [← all_window]
      -- The sample that is found does not meet the condition, so not all of them do.
      have fails := List.find?_some found
      have member := List.mem_of_find?_eq_some found
      simp only [Bool.false_eq_true, List.all_eq_true, false_iff]
      intro every
      simp [every failed member] at fails
  case atLeast =>
    cases need with
    | none => rfl
    | some wanted =>
      refine ⟨_, rfl, ?_, firstOf_window (fun _ => beq_iff_eq) newest older⟩
      rw [countP_window, decide_eq_true_iff]
  case sum =>
    simp only [runOn, Tabulated, sum_window]
    rfl
  case avg =>
    simp only [runOn, Tabulated, Binary64.mean, sum_window]
    rfl
  case diff => exact every_everyDifference
  case adiff => exact every_everyDifference
  case rdiff => exact every_everyDifference
  case pdiff => exact every_everyDifference
  case diffAvg => exact average_averageDifference
  case adiffAvg => exact average_averageDifference
  case rdiffAvg => exact average_averageDifference
  case pdiffAvg => exact average_averageDifference

/-- A calculation on a window that is not empty gives the one result that stands in the table. -/
theorem run_eq_iff_tabulated (c : Calculation) (newest : Float) (older : List Float)
    (threshold : Float) (op : Comparison) (need : Option Int)
    (result : Except CalculationError Outcome) :
    c.run (newest :: older) threshold op need = result ↔
      Tabulated (newest :: older) (fun x => op.holds x threshold) need result c := by
  constructor
  · rintro rfl
    exact tabulated_runOn
  · exact Tabulated.unique tabulated_runOn

end Calculation

end AlertEngine
