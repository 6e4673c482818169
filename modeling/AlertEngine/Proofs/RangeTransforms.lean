import AlertEngine.Proofs.TransformText

/-! # What ranges let through

A transform with several ranges reads its field if every range holds of the metric, or if some range
does. A range fails of a metric for one of two reasons, and the two kinds of transform treat these
differently: the one names the first range that fails, the other only says that none holds.

* `FieldRange.Holds`, `FieldRange.Fails`: a range holds of a metric, or fails for a reason.
* `Transform.checkRanges_eq_ok_iff`, `Transform.checkRanges_eq_error_iff`: all ranges hold, or there
  is a first one that fails.
* `Transform.SameArguments`: texts with the same ranges and the same field, one of either kind.
* `Transform.every_and_some_range`: what such texts make of a metric.
-/

namespace AlertEngine

namespace FieldRange

variable {r : FieldRange} {m : Metric} {fault : JudgeError}

def Holds (r : FieldRange) (m : Metric) : Prop :=
  ∃ x, m.field? r.field = some x ∧ r.min ≤ x ∧ x ≤ r.max

/-- A metric lacks the field of the range, or has it with a value that is not between the bounds. -/
inductive Fails (r : FieldRange) (m : Metric) : JudgeError → Prop
  | missing (absent : m.field? r.field = none) : Fails r m (.fieldMissing r.field)
  | outside {x : Float} (found : m.field? r.field = some x) (beyond : ¬ (r.min ≤ x ∧ x ≤ r.max)) :
    Fails r m (.outOfRange r.field)

theorem contains_iff {x : Float} : r.contains x = true ↔ r.min ≤ x ∧ x ≤ r.max := by
  simp [contains, isWithin]

theorem holds_or_fails (r : FieldRange) (m : Metric) : r.Holds m ∨ ∃ fault, r.Fails m fault := by
  cases found : m.field? r.field with
  | none => exact .inr ⟨_, .missing found⟩
  | some x =>
    by_cases within : r.min ≤ x ∧ x ≤ r.max
    · exact .inl ⟨x, found, within⟩
    · exact .inr ⟨_, .outside found within⟩

theorem Fails.not_holds (fails : r.Fails m fault) : ¬ r.Holds m := by
  rintro ⟨x, found, within⟩
  cases fails with
  | missing absent =>
    rw [absent] at found
    cases found
  | outside other beyond =>
    rw [other] at found
    obtain rfl := Option.some.inj found
    exact beyond within

end FieldRange

namespace Transform

variable {m : Metric} {ranges : List FieldRange} {field text other : String} {fault : JudgeError}
  {v : Float}

/-! ## Checking ranges -/

theorem rangeHolds_iff {r : FieldRange} : rangeHolds m r = true ↔ r.Holds m := by
  rw [rangeHolds, FieldRange.Holds]
  cases m.field? r.field with
  | none => simp
  | some x => simp [FieldRange.contains_iff]

theorem checkRanges_cons_of_holds {r : FieldRange} (holds : r.Holds m) :
    checkRanges m (r :: ranges) = checkRanges m ranges := by
  obtain ⟨x, found, within⟩ := holds
  simp only [checkRanges, found, if_pos (FieldRange.contains_iff.mpr within)]

theorem checkRanges_cons_of_fails {r : FieldRange} (fails : r.Fails m fault) :
    checkRanges m (r :: ranges) = .error fault := by
  cases fails with
  | missing absent => simp only [checkRanges, absent]
  | outside found beyond =>
    simp only [checkRanges, found, if_neg (mt FieldRange.contains_iff.mp beyond)]

def FirstFails (m : Metric) (ranges : List FieldRange) (fault : JudgeError) : Prop :=
  ∃ before r after, ranges = before ++ r :: after ∧ (∀ s ∈ before, s.Holds m) ∧ r.Fails m fault

theorem checkRanges_eq_ok_iff : checkRanges m ranges = .ok () ↔ ∀ r ∈ ranges, r.Holds m := by
  induction ranges with
  | nil => simp [checkRanges]
  | cons r ranges inductionHypothesis =>
    rw [List.forall_mem_cons]
    rcases r.holds_or_fails m with holds | ⟨fault, fails⟩
    · rw [checkRanges_cons_of_holds holds, inductionHypothesis, and_iff_right holds]
    · rw [checkRanges_cons_of_fails fails]
      exact iff_of_false nofun fun all => fails.not_holds all.1

/-- The fault of some ranges is that of the first one that fails. -/
theorem checkRanges_eq_error_iff :
    checkRanges m ranges = .error fault ↔ FirstFails m ranges fault := by
  constructor
  · intro refused
    induction ranges with
    | nil => cases refused
    | cons r ranges inductionHypothesis =>
      rcases r.holds_or_fails m with holds | ⟨own, fails⟩
      · rw [checkRanges_cons_of_holds holds] at refused
        obtain ⟨before, failing, after, rfl, hold, fails⟩ := inductionHypothesis refused
        exact ⟨r :: before, failing, after, rfl, List.forall_mem_cons.mpr ⟨holds, hold⟩, fails⟩
      · rw [checkRanges_cons_of_fails fails] at refused
        cases refused
        exact ⟨[], r, ranges, rfl, nofun, fails⟩
  · rintro ⟨before, r, after, rfl, hold, fails⟩
    induction before with
    | nil => exact checkRanges_cons_of_fails fails
    | cons s before inductionHypothesis =>
      rw [List.forall_mem_cons] at hold
      rw [List.cons_append, checkRanges_cons_of_holds hold.1]
      exact inductionHypothesis hold.2

/-! ## Values -/

theorem readField_eq_ok_iff : readField m field = .ok v ↔ m.field? field = some v := by
  rw [readField]
  cases m.field? field <;> simp

theorem readField_eq_error_iff : readField m field = .error fault ↔
    m.field? field = none ∧ fault = .fieldMissing field := by
  rw [readField]
  cases m.field? field <;> simp [eq_comm]

theorem any_rangeHolds_iff : ranges.any (rangeHolds m) = true ↔ ∃ r ∈ ranges, r.Holds m := by
  simp only [List.any_eq_true, rangeHolds_iff]

theorem rangeAnd_eq_ok_iff : (rangeAnd ranges field).apply m = .ok v ↔
    (∀ r ∈ ranges, r.Holds m) ∧ m.field? field = some v := by
  simp only [apply, bind_eq_ok_iff, Unique.exists_iff, PUnit.default_eq_unit,
    checkRanges_eq_ok_iff, readField_eq_ok_iff]

theorem rangeAnd_eq_error_iff : (rangeAnd ranges field).apply m = .error fault ↔
    FirstFails m ranges fault ∨
      (∀ r ∈ ranges, r.Holds m) ∧ m.field? field = none ∧ fault = .fieldMissing field := by
  simp only [apply, bind_eq_error_iff, Unique.exists_iff, PUnit.default_eq_unit,
    checkRanges_eq_error_iff, checkRanges_eq_ok_iff, readField_eq_error_iff]

theorem rangeOr_eq_ok_iff : (rangeOr ranges field).apply m = .ok v ↔
    (∃ r ∈ ranges, r.Holds m) ∧ m.field? field = some v := by
  rw [apply, ← any_rangeHolds_iff]
  split
  · rename_i some
    rw [readField_eq_ok_iff, and_iff_right some]
  · rename_i none
    exact iff_of_false nofun fun both => none both.1

theorem rangeOr_eq_error_iff : (rangeOr ranges field).apply m = .error fault ↔
    (¬ ∃ r ∈ ranges, r.Holds m) ∧ fault = .outOfRange field ∨
      (∃ r ∈ ranges, r.Holds m) ∧ m.field? field = none ∧ fault = .fieldMissing field := by
  rw [apply, ← any_rangeHolds_iff]
  split
  · rename_i some
    simp only [readField_eq_error_iff, some, not_true, false_and, true_and, false_or]
  · rename_i none
    simp [none, eq_comm]

/-! ## Texts with the same arguments -/

/-- Two texts with the same arguments, where one asks for every range and the other for some
range. -/
def SameArguments (text other : String) : Prop :=
  ∃ arguments, splitCall text.toList = .ok (Keyword.rangeAnd.spelling.toList, arguments) ∧
    splitCall other.toList = .ok (Keyword.rangeOr.spelling.toList, arguments)

theorem nonempty_of_parse (read : parse text = .ok (.rangeAnd ranges field)) : ranges ≠ [] :=
  (isWritten_of_parse read).1.filled

/-- The same arguments make the same ranges and the same field. -/
theorem parse_of_sameArguments (same : SameArguments text other)
    (read : parse text = .ok (.rangeAnd ranges field)) :
    parse other = .ok (.rangeOr ranges field) := by
  obtain ⟨arguments, cut, cutOther⟩ := same
  obtain ⟨_, _, _, separable⟩ := isCall_of_splitCall cut
  obtain ⟨name, own, cutOwn, called⟩ := parse_eq_ok_iff.mp read
  obtain ⟨rfl, rfl⟩ := Prod.mk.inj (Except.ok.inj (cut.symm.trans cutOwn))
  obtain ⟨-, has, filled⟩ := hasArguments_of_ofCall separable.free called
  cases has with
  | rangeAnd listed =>
    exact parse_eq_ok_iff.mpr ⟨_, _, cutOther, ofCall_of_hasArguments (.rangeOr listed) filled⟩

/-- A transform that asks for every range, and the one with the same arguments that asks for some
range. The former yields a value if every range holds, and else the fault of the first range that
fails; the latter yields a value if some range holds, and else a fault that names the field to be
read. So the latter yields whatever the former yields, and over a single range the two agree. -/
theorem every_and_some_range (read : parse text = .ok (.rangeAnd ranges field))
    (same : SameArguments text other) :
    parse other = .ok (.rangeOr ranges field) ∧ 1 ≤ ranges.length ∧ ∀ m v fault,
      ((rangeAnd ranges field).apply m = .ok v ↔
        (∀ r ∈ ranges, r.Holds m) ∧ m.field? field = some v) ∧
      ((rangeAnd ranges field).apply m = .error fault ↔ FirstFails m ranges fault ∨
        (∀ r ∈ ranges, r.Holds m) ∧ m.field? field = none ∧ fault = .fieldMissing field) ∧
      ((rangeOr ranges field).apply m = .ok v ↔
        (∃ r ∈ ranges, r.Holds m) ∧ m.field? field = some v) ∧
      ((rangeOr ranges field).apply m = .error fault ↔
        (¬ ∃ r ∈ ranges, r.Holds m) ∧ fault = .outOfRange field ∨
        (∃ r ∈ ranges, r.Holds m) ∧ m.field? field = none ∧ fault = .fieldMissing field) ∧
      ((rangeAnd ranges field).apply m = .ok v → (rangeOr ranges field).apply m = .ok v) ∧
      (ranges.length = 1 →
        ((rangeAnd ranges field).apply m = .ok v ↔ (rangeOr ranges field).apply m = .ok v)) := by
  have nonempty := nonempty_of_parse read
  refine ⟨parse_of_sameArguments same read, List.length_pos_iff.mpr nonempty, fun m v fault =>
    ⟨rangeAnd_eq_ok_iff, rangeAnd_eq_error_iff, rangeOr_eq_ok_iff, rangeOr_eq_error_iff, ?_, ?_⟩⟩
  · rw [rangeAnd_eq_ok_iff, rangeOr_eq_ok_iff]
    rintro ⟨every, found⟩
    -- There is a range to hold, since no text makes a transform without one.
    obtain ⟨r, member⟩ := List.exists_mem_of_ne_nil ranges nonempty
    exact ⟨⟨r, member, every r member⟩, found⟩
  · intro single
    obtain ⟨r, rfl⟩ := List.length_eq_one_iff.mp single
    simp only [rangeAnd_eq_ok_iff, rangeOr_eq_ok_iff, List.mem_singleton, forall_eq,
      exists_eq_left]

/-- A NaN lies in no range. So the first of two ranges fails, and the second one holds. -/
theorem nan_fails_first_range : ∃ (ranges : List FieldRange) (m : Metric),
    parse "rangeand(a,0,10,b,5,6,value)" = .ok (.rangeAnd ranges "value") ∧
      parse " RangeOr(a , 0,10,b,5,6,value)" = .ok (.rangeOr ranges "value") ∧
      m.field? "a" = some Binary64.nan ∧
      (rangeAnd ranges "value").apply m = .error (.outOfRange "a") ∧
      (rangeOr ranges "value").apply m = .ok 7 := by
  have read : parse "rangeand(a,0,10,b,5,6,value)" =
      .ok (.rangeAnd [⟨"a", 0, 10⟩, ⟨"b", 5, 6⟩] "value") := by decide +kernel
  have same : SameArguments "rangeand(a,0,10,b,5,6,value)" " RangeOr(a , 0,10,b,5,6,value)" :=
    ⟨["a", "0", "10", "b", "5", "6", "value"].map String.toList, by decide, by decide⟩
  obtain ⟨m, notNumber, half, seven⟩ : ∃ m : Metric, m.field? "a" = some Binary64.nan ∧
      m.field? "b" = some 5.5 ∧ m.field? "value" = some 7 :=
    ⟨{ name := "load", value := 7, fields := .ofList [("a", Binary64.nan), ("b", 5.5)] },
      by decide +kernel, by decide +kernel, by decide +kernel⟩
  have fails : FieldRange.Fails ⟨"a", 0, 10⟩ m (.outOfRange "a") :=
    .outside notNumber (by decide +kernel)
  have holds : FieldRange.Holds ⟨"b", 5, 6⟩ m := ⟨5.5, half, by decide +kernel, by decide +kernel⟩
  obtain ⟨readOther, -, values⟩ := every_and_some_range read same
  obtain ⟨-, every, either, -, -, -⟩ := values m 7 (.outOfRange "a")
  exact ⟨_, m, read, readOther, notNumber, every.mpr (.inl ⟨[], _, _, rfl, nofun, fails⟩),
    either.mpr ⟨⟨_, by simp, holds⟩, seven⟩⟩

end Transform

end AlertEngine
