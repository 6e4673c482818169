import AlertEngine.Proofs.MonitorHistory

/-! # Faults of calculations

A calculation can refuse a window for four reasons. This module proves that three of them cannot
come up in a monitor: the window is full whenever it is judged, a full window is large enough, and a
function that needs an argument has it. What is left is a zero divisor of the percentages.

* `Difference.percentSeries_eq_error_iff`: the percentages fail at the first zero divisor, and only
  there.
* `Calculation.run_eq_error_iff`: every way in which a calculation fails.
* `WindowFunction.Supported`: what the faults other than a zero divisor are excluded by; every
  function that can be read is supported.
* `Monitor.handed?`: the values that a check hands to the rule; `Monitor.check_fault_iff` reads off
  them whether the check fails.
* `Monitor.faults_after_run`: the faults after any run.
-/

namespace AlertEngine

/-! ## Divisors -/

/-- Whether the percentage at an index of a window has the divisor zero: the smaller one of the
sample there and the next newer sample. The newest sample has no percentage. -/
def isZeroDivisor (window : List Float) : Nat → Bool
  | 0 => false
  | i + 1 =>
    match window[i]?, window[i + 1]? with
    | some newer, some older => Binary64.smaller newer older == 0
    | _, _ => false

def IsFirstZeroDivisor (window : List Float) (i : Nat) : Prop :=
  isZeroDivisor window i ∧ ∀ j < i, ¬ isZeroDivisor window j

theorem bounds_of_isZeroDivisor {window : List Float} {i : Nat} (zero : isZeroDivisor window i) :
    1 ≤ i ∧ i < window.length := by
  cases i with
  | zero => cases zero
  | succ i =>
    refine ⟨Nat.le_add_left 1 i, Nat.lt_of_not_le fun outside => ?_⟩
    simp only [isZeroDivisor, List.getElem?_eq_none outside] at zero
    split at zero
    · rename_i found
      cases found
    · cases zero

theorem isFirstZeroDivisor_one {newer older : Float} {rest : List Float} :
    IsFirstZeroDivisor (newer :: older :: rest) 1 ↔ Binary64.smaller newer older == 0 := by
  refine ⟨fun first => first.1, fun zero => ⟨zero, fun j below => ?_⟩⟩
  obtain rfl : j = 0 := by omega
  exact Bool.false_ne_true

theorem isFirstZeroDivisor_cons {newer older : Float} {rest : List Float} {i : Nat} :
    IsFirstZeroDivisor (newer :: older :: rest) (i + 2) ↔
      ¬ (Binary64.smaller newer older == 0) ∧ IsFirstZeroDivisor (older :: rest) (i + 1) := by
  constructor
  · rintro ⟨zero, before⟩
    refine ⟨before 1 (by omega), zero, fun j below => ?_⟩
    cases j with
    | zero => exact Bool.false_ne_true
    | succ j => exact before (j + 2) (by omega)
  · rintro ⟨nonzero, zero, before⟩
    refine ⟨zero, fun j below => ?_⟩
    match j with
    | 0 => exact Bool.false_ne_true
    | 1 => exact nonzero
    | j + 2 => exact before (j + 1) (by omega)

/-- The percentages of a window fail at the first zero divisor, and nowhere else. -/
theorem Difference.percentSeries_eq_error_iff {index : Nat} {window : List Float}
    {fault : CalculationError} :
    percentSeries index window = .error fault ↔
      ∃ i, fault = .zeroDivisor (index + i) ∧ IsFirstZeroDivisor window (i + 1) := by
  induction window generalizing index with
  | nil =>
    have noDivisor (i : Nat) : ¬ IsFirstZeroDivisor [] (i + 1) := fun first =>
      absurd (bounds_of_isZeroDivisor first.1).2 (Nat.not_lt_zero _)
    simp [percentSeries, noDivisor]
  | cons newer rest inductionHypothesis =>
    cases rest with
    | nil =>
      have noDivisor (i : Nat) : ¬ IsFirstZeroDivisor [newer] (i + 1) := fun first => by
        simpa using bounds_of_isZeroDivisor first.1
      simp [percentSeries, noDivisor]
    | cons older rest =>
      rw [percentSeries]
      by_cases zero : (Binary64.smaller newer older == 0) = true
      · rw [if_pos zero]
        constructor
        · rintro ⟨⟩
          exact ⟨0, rfl, isFirstZeroDivisor_one.mpr zero⟩
        · rintro ⟨i, rfl, first⟩
          cases i with
          | zero => rfl
          | succ i => exact absurd zero (isFirstZeroDivisor_cons.mp first).1
      · rw [if_neg zero, map_eq_error_iff, inductionHypothesis]
        constructor
        · -- The rest counts from the next index, and its first pair is the second one here.
          rintro ⟨i, rfl, first⟩
          refine ⟨i + 1, ?_, isFirstZeroDivisor_cons.mpr ⟨zero, first⟩⟩
          rw [Nat.add_right_comm, Nat.add_assoc]
        · rintro ⟨i, rfl, first⟩
          cases i with
          | zero => exact absurd (isFirstZeroDivisor_one.mp first) zero
          | succ i =>
            refine ⟨i, ?_, (isFirstZeroDivisor_cons.mp first).2⟩
            rw [Nat.add_right_comm, Nat.add_assoc]

/-! ## Calculations -/

namespace Difference

/-- Of the differences of a window only the percentages can fail. -/
theorem series_eq_error_iff {d : Difference} {window : List Float} {fault : CalculationError} :
    d.series window = .error fault ↔
      d = .percent ∧ ∃ i, fault = .zeroDivisor i ∧ IsFirstZeroDivisor window i := by
  have shifted : (∃ i, fault = .zeroDivisor (1 + i) ∧ IsFirstZeroDivisor window (i + 1)) ↔
      ∃ i, fault = .zeroDivisor i ∧ IsFirstZeroDivisor window i := by
    constructor
    · rintro ⟨i, rfl, first⟩
      exact ⟨i + 1, by rw [Nat.add_comm], first⟩
    · rintro ⟨i, rfl, first⟩
      obtain ⟨j, rfl⟩ := Nat.exists_eq_add_of_le (bounds_of_isZeroDivisor first.1).1
      exact ⟨j, rfl, Nat.add_comm 1 j ▸ first⟩
  rw [← shifted, ← percentSeries_eq_error_iff]
  cases window with
  | nil => simp [series, percentSeries]
  | cons newest older => cases d <;> simp [series]

end Difference

namespace Calculation

variable {c : Calculation} {meets : Float → Bool} {window : List Float} {fault : CalculationError}

/-- Whatever a calculation makes of the differences, it fails for want of a second sample or where
they do. -/
theorem outcome_eq_error_iff {d : Difference} {outcome : List Float → Outcome} :
    (if window.length < 2 then .error (.tooFewSamples c.name)
      else (d.series window).map outcome : Except CalculationError Outcome) = .error fault ↔
      if window.length < 2 then fault = .tooFewSamples c.name
      else d.series window = .error fault := by
  split
  · rw [Except.error.injEq, eq_comm]
  · exact map_eq_error_iff

def difference? : Calculation → Option Difference
  | diff => some .fromNewest
  | diffAvg => some .fromNewest
  | adiff => some .distanceFromNewest
  | adiffAvg => some .fromNewest
  | rdiff => some .consecutive
  | rdiffAvg => some .consecutive
  | pdiff => some .percent
  | pdiffAvg => some .percent
  | all => none
  | sum => none
  | avg => none
  | atLeast => none

theorem isDifference_eq : c.isDifference = c.difference?.isSome := by
  cases c <;> rfl

theorem difference?_eq_percent_iff :
    c.difference? = some .percent ↔ c = .pdiff ∨ c = .pdiffAvg := by
  cases c <;> simp [difference?]

/-- A calculation that looks at differences fails where they do. -/
theorem runOn_of_difference {d : Difference} (found : c.difference? = some d) {newest : Float}
    {older : List Float} {need : Option Int} :
    c.runOn newest older meets need = .error fault ↔
      if (newest :: older).length < 2 then fault = .tooFewSamples c.name
      else d.series (newest :: older) = .error fault := by
  cases c <;> cases found <;> exact outcome_eq_error_iff

/-- A calculation on the values themselves fails only for want of an argument. -/
theorem runOn_of_values (values : c.difference? = none) {newest : Float} {older : List Float}
    {need : Option Int} :
    c.runOn newest older meets need = .error fault ↔
      c = .atLeast ∧ need = none ∧ fault = .missingArgument c.name := by
  cases c <;> cases values
  case all =>
    rw [runOn]
    split <;> simp
  case sum => simp [runOn]
  case avg => simp [runOn]
  case atLeast =>
    cases need with
    | none => simp [runOn, @eq_comm _ fault]
    | some need => simp [runOn]

/-- Every way in which a calculation on a window fails. -/
theorem run_eq_error_iff {threshold : Float} {op : Comparison} {need : Option Int} :
    c.run window threshold op need = .error fault ↔
      window = [] ∧ fault = .emptyWindow ∨
      window ≠ [] ∧ c = .atLeast ∧ need = none ∧ fault = .missingArgument c.name ∨
      window.length = 1 ∧ c.isDifference ∧ fault = .tooFewSamples c.name ∨
      2 ≤ window.length ∧ (c = .pdiff ∨ c = .pdiffAvg) ∧
        ∃ i, fault = .zeroDivisor i ∧ IsFirstZeroDivisor window i := by
  cases window with
  | nil => simp [run, @eq_comm _ fault]
  | cons newest older =>
    rw [run, ← difference?_eq_percent_iff, isDifference_eq]
    cases kind : c.difference? with
    | none => simp [runOn_of_values kind]
    | some d =>
      have other : c ≠ .atLeast := by
        rintro rfl
        cases kind
      rw [runOn_of_difference kind]
      cases older with
      | nil => simp [other]
      | cons second rest =>
        have pair : ¬ (newest :: second :: rest).length < 2 := by simp
        rw [if_neg pair, Difference.series_eq_error_iff]
        simp [other]

end Calculation

/-! ## Functions that can be read -/

namespace WindowFunction

/-- A window function whose windows, once full, fail only at a zero divisor. -/
structure Supported (f : WindowFunction) : Prop where
  positive : 1 ≤ f.samples
  bounded : f.samples ≤ 100001
  pairs : f.calculation.isDifference → 2 ≤ f.samples
  argument : f.calculation = .atLeast → f.need ≠ none

/-- Among the functions that can be read, exactly `atLeast` has an argument. -/
theorem need_of_parse {text : String} {f : WindowFunction} (accepted : parse text = .ok f) :
    f.need.isSome ↔ f.calculation = .atLeast := by
  unfold parse at accepted
  split at accepted
  · cases accepted
  · obtain ⟨calculation, _, sized⟩ := bind_eq_ok_iff.mp accepted
    split at sized
    · obtain ⟨size, _, built⟩ := bind_eq_ok_iff.mp sized
      split at built
      · cases built
      · rename_i other
        cases built
        simpa using other
    · obtain ⟨size, _, built⟩ := bind_eq_ok_iff.mp sized
      split at built
      · rename_i isAtLeast
        obtain ⟨need, _, built⟩ := bind_eq_ok_iff.mp built
        cases pure_eq_ok_iff.mp built
        simpa using isAtLeast
      · cases built
    · cases sized

theorem supported_of_parse {text : String} {f : WindowFunction} (accepted : parse text = .ok f) :
    f.Supported := by
  obtain ⟨positive, bounded⟩ := size_of_parse accepted
  have maximum : Calculation.maxSamples = 18446744073709551615 := rfl
  constructor
  case positive => exact samples_pos positive
  case bounded =>
    unfold samples Calculation.samplesFor
    split <;> omega
  case pairs =>
    intro difference
    rw [samples, Calculation.samplesFor, if_pos difference]
    omega
  case argument =>
    intro isAtLeast missing
    have present := (need_of_parse accepted).mpr isAtLeast
    rw [missing] at present
    cases present

end WindowFunction

/-- On a full window a rule fails exactly at the first zero divisor of its percentages. -/
theorem Rule.evaluate_eq_error_iff {r : Rule} (supported : r.function.Supported)
    {window : List Float} (full : window.length = r.limit) {fault : CalculationError} :
    r.evaluate window = .error fault ↔
      (r.function.calculation = .pdiff ∨ r.function.calculation = .pdiffAvg) ∧
        ∃ i, fault = .zeroDivisor i ∧ IsFirstZeroDivisor window i := by
  have size : window.length = r.function.samples := full
  have present : window ≠ [] := by
    rintro rfl
    have positive := supported.positive
    simp only [List.length_nil] at size
    omega
  rw [evaluate, Calculation.run_eq_error_iff]
  constructor
  · rintro (⟨empty, -⟩ | ⟨-, isAtLeast, missing, -⟩ | ⟨single, difference, -⟩ | ⟨-, fails⟩)
    · exact absurd empty present
    · exact absurd missing (supported.argument isAtLeast)
    · have pairs := supported.pairs difference
      omega
    · exact fails
  · rintro ⟨percent, fails⟩
    refine .inr (.inr (.inr ⟨?_, percent, fails⟩))
    rw [size]
    exact supported.pairs (by rcases percent with h | h <;> rw [h] <;> rfl)

/-! ## Checks -/

namespace Transform

theorem readField_ne_calculation (m : Metric) (field : String) (fault : CalculationError) :
    readField m field ≠ .error (.calculation fault) := by
  unfold readField
  split <;> simp

theorem checkRanges_ne_calculation (m : Metric) (ranges : List FieldRange)
    (fault : CalculationError) : checkRanges m ranges ≠ .error (.calculation fault) := by
  induction ranges with
  | nil => simp [checkRanges]
  | cons r rs inductionHypothesis =>
    unfold checkRanges
    split
    · simp
    · split
      · exact inductionHypothesis
      · simp

/-- The faults of a transform are not those of a calculation. -/
theorem apply_ne_calculation (t : Transform) (m : Metric) (fault : CalculationError) :
    t.apply m ≠ .error (.calculation fault) := by
  intro fails
  cases t with
  | select field => exact readField_ne_calculation m field fault fails
  | rangeSelect field min max other default =>
    rcases bind_eq_error_iff.mp fails with fails | ⟨x, -, fails⟩
    · exact readField_ne_calculation m field fault fails
    · split at fails
      · exact readField_ne_calculation m other fault fails
      · cases fails
  | rangeAnd ranges field =>
    rcases bind_eq_error_iff.mp fails with fails | ⟨-, -, fails⟩
    · exact checkRanges_ne_calculation m ranges fault fails
    · exact readField_ne_calculation m field fault fails
  | rangeOr ranges field =>
    rw [apply] at fails
    split at fails
    · exact readField_ne_calculation m field fault fails
    · cases fails

end Transform

namespace Monitor

/-- The values that a check of a metric hands to the rule: those of its window, if the sample is
taken in and the window is full then. -/
def handed? (u : Monitor) (m : Metric) : Option (List Float) := do
  let value ← (u.rule.transform.apply m).toOption
  let after ← (u.window m.identity).push? ⟨value, m.timestamp⟩
  if after.isFull then some after.values else none

theorem handed?_eq_some_iff {u : Monitor} {m : Metric} {window : List Float} :
    u.handed? m = some window ↔
      ∃ value after, u.rule.transform.apply m = .ok value ∧
        (u.window m.identity).push? ⟨value, m.timestamp⟩ = some after ∧
        after.isFull ∧ after.values = window := by
  unfold handed?
  cases u.rule.transform.apply m with
  | error fault => simp [Except.toOption]
  | ok value => simp [Except.toOption, Option.bind_eq_some_iff]

/-- A check answers with what the rule says of the values handed to it. -/
theorem check_of_handed {u : Monitor} {m : Metric} {window : List Float}
    (handed : u.handed? m = some window) :
    (u.check m).1 =
      match u.rule.evaluate window with
      | .ok outcome => .ok ⟨if outcome.triggered then .problem else .ok, outcome.value⟩
      | .error fault => .error (.calculation fault) := by
  obtain ⟨value, after, read, pushed, full, rfl⟩ := handed?_eq_some_iff.mp handed
  rw [check, checkSeries, read]
  simp only [pushed, full, if_true]
  rfl

/-- A check that hands nothing to the rule fails with its transform, or ignores the sample. -/
theorem check_of_not_handed {u : Monitor} {m : Metric} (nothing : u.handed? m = none) :
    (∃ fault, u.rule.transform.apply m = .error fault ∧ (u.check m).1 = .error fault) ∨
      ∃ value, (u.check m).1 = .ok ⟨.ignored, value⟩ := by
  cases read : u.rule.transform.apply m with
  | error fault => exact .inl ⟨fault, rfl, by simp only [check, checkSeries, read]⟩
  | ok value =>
    refine .inr ⟨value, ?_⟩
    cases pushed : (u.window m.identity).push? ⟨value, m.timestamp⟩ with
    | none => simp [check, checkSeries, read, pushed]
    | some after =>
      have notFull : ¬ after.isFull := fun full => by
        have handed := handed?_eq_some_iff.mpr ⟨value, after, read, pushed, full, rfl⟩
        rw [nothing] at handed
        cases handed
      simp [check, checkSeries, read, pushed, notFull]

theorem check_fault_iff {u : Monitor} {m : Metric} {fault : CalculationError} :
    (u.check m).1 = .error (.calculation fault) ↔
      ∃ window, u.handed? m = some window ∧ u.rule.evaluate window = .error fault := by
  cases handed : u.handed? m with
  | none =>
    rcases check_of_not_handed handed with ⟨other, read, fails⟩ | ⟨value, ignored⟩
    · have apart := u.rule.transform.apply_ne_calculation m fault
      rw [read, Ne, Except.error.injEq] at apart
      simp [fails, apart]
    · simp [ignored]
  | some window =>
    rw [check_of_handed handed]
    cases evaluated : u.rule.evaluate window <;> simp [evaluated]

theorem length_of_handed {u : Monitor} {m : Metric} {window : List Float}
    (limit : (u.window m.identity).limit = u.rule.limit) (handed : u.handed? m = some window) :
    window.length = u.rule.limit := by
  obtain ⟨value, after, -, pushed, full, rfl⟩ := handed?_eq_some_iff.mp handed
  unfold SlidingWindow.push? at pushed
  split at pushed
  · cases pushed
  · cases pushed
    simp only [SlidingWindow.isFull, decide_eq_true_eq, List.length_take, List.length_cons]
      at full
    simp only [SlidingWindow.values, List.length_map, List.length_take, List.length_cons]
    omega

/-- After any run of a monitor, every window that is handed to the rule has exactly as many values
as the rule asks for, one of 1 to 100001 and at least two where differences are formed, and the
check answers with what the rule says of it. The one fault of a calculation that a check can end
with is the first zero divisor of that window, and only percentages have divisors. -/
theorem faults_after_run {s : Strategy} {u : Monitor} (accepted : ofStrategy s = .ok u)
    (calls : List Call) (m : Metric) :
    let v := u.run calls
    let limit := u.rule.limit
    let calculation := u.rule.function.calculation
    1 ≤ limit ∧ limit ≤ 100001 ∧ (calculation.isDifference → 2 ≤ limit) ∧
    (∀ window, v.handed? m = some window →
      window.length = limit ∧
      (v.check m).1 =
        match u.rule.evaluate window with
        | .ok outcome => .ok ⟨if outcome.triggered then .problem else .ok, outcome.value⟩
        | .error fault => .error (.calculation fault)) ∧
    ∀ fault, (v.check m).1 = .error (.calculation fault) ↔
      (calculation = .pdiff ∨ calculation = .pdiffAvg) ∧
        ∃ window i, v.handed? m = some window ∧ fault = .zeroDivisor i ∧
          1 ≤ i ∧ i < limit ∧ IsFirstZeroDivisor window i := by
  intro v limit calculation
  obtain ⟨r, compiled, made⟩ := eq_of_ofStrategy accepted
  have function : u.rule.function = r.function := by rw [made]
  have supported : u.rule.function.Supported :=
    function ▸ WindowFunction.supported_of_parse (Rule.parse_of_compile compiled)
  have remembers : Remembers u v calls :=
    remembers_run supported.positive (by rw [made]) calls
  have length {window : List Float} (handed : v.handed? m = some window) :
      window.length = limit := by
    have held := window_of_held remembers.rule (remembers.windows m.identity)
    rw [length_of_handed (by rw [held, remembers.rule]) handed, remembers.rule]
  refine ⟨supported.positive, supported.bounded, supported.pairs,
    fun window handed => ⟨length handed, ?_⟩, fun fault => ?_⟩
  · rw [check_of_handed handed, remembers.rule]
  · rw [check_fault_iff, remembers.rule]
    constructor
    · rintro ⟨window, handed, fails⟩
      have full := length handed
      obtain ⟨percent, i, rfl, first⟩ := (Rule.evaluate_eq_error_iff supported full).mp fails
      obtain ⟨positive, inside⟩ := bounds_of_isZeroDivisor first.1
      exact ⟨percent, window, i, handed, rfl, positive, full ▸ inside, first⟩
    · rintro ⟨percent, window, i, handed, rfl, -, -, first⟩
      exact ⟨window, handed,
        (Rule.evaluate_eq_error_iff supported (length handed)).mpr ⟨percent, i, rfl, first⟩⟩

/-- Three percentages of the samples 1, 0, 2 and 3: the newest one has a divisor, the one behind it
has not. -/
theorem check_of_zero_among_samples :
    let s : Strategy :=
      { id := 1, metric := "net", func := "pdiff(#3)", op := ">", rightValue := 10 }
    let r : Rule := ⟨.select "value", ⟨.pdiff, 3, none⟩, .greater, 10, []⟩
    let u : Monitor := { strategy := s, rule := r }
    let net (value : Float) : Metric := { name := "net", value := value }
    let v := u.run [.check (net 1), .check (net 0), .check (net 2)]
    ofStrategy s = .ok u ∧ v.handed? (net 3) = some [3, 2, 0, 1] ∧
      (v.check (net 3)).1 = .error (.calculation (.zeroDivisor 2)) := by
  intro s r u net v
  have transform : Transform.parse "select(value)" = .ok r.transform := by decide +kernel
  have function : WindowFunction.parse "pdiff(#3)" = .ok r.function := by decide +kernel
  have comparison : Comparison.ofText ">" = .ok r.comparison := by decide +kernel
  have filters : TagFilter.parse "" = .ok r.filters := by decide +kernel
  have accepted : ofStrategy s = .ok u := by
    simp only [ofStrategy, Rule.compile, s, transform, function, comparison, filters]
    rfl
  have remembers := remembers_run (u := u) (by decide) rfl
    [.check (net 1), .check (net 0), .check (net 2)]
  have taken : history r.transform (net 3).identity
      [.check (net 1), .check (net 0), .check (net 2)] = [⟨2, 0⟩, ⟨0, 0⟩, ⟨1, 0⟩] := by
    have same (value : Float) : (net value).identity = (net 3).identity := by
      simp only [Metric.identity, Metric.identityText, net]
    simp only [history, List.foldl_cons, List.foldl_nil, remember, same, if_true]
    rfl
  have window : v.window (net 3).identity = ⟨4, [⟨2, 0⟩, ⟨0, 0⟩, ⟨1, 0⟩]⟩ := by
    have held := window_of_held remembers.rule (remembers.windows (net 3).identity)
    rw [taken] at held
    exact held
  have handed : v.handed? (net 3) = some [3, 2, 0, 1] := by
    refine handed?_eq_some_iff.mpr
      ⟨3, ⟨4, [⟨3, 0⟩, ⟨2, 0⟩, ⟨0, 0⟩, ⟨1, 0⟩]⟩, ?_, ?_, rfl, rfl⟩
    · rw [remembers.rule]
      rfl
    · rw [window]
      rfl
  have first : IsFirstZeroDivisor [3, 2, 0, 1] 2 := ⟨by decide +kernel, by decide +kernel⟩
  obtain ⟨-, -, -, -, faults⟩ := faults_after_run accepted
    [.check (net 1), .check (net 0), .check (net 2)] (net 3)
  exact ⟨accepted, handed, (faults (.zeroDivisor 2)).mpr
    ⟨.inl rfl, _, 2, handed, rfl, by decide, by decide, first⟩⟩

end Monitor

end AlertEngine
