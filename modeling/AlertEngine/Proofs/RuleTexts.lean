import AlertEngine.Proofs.CompositeHistory
import AlertEngine.Proofs.WindowFunctionText
import AlertEngine.Proofs.WrittenThresholds

/-!
# The texts that tell rules apart

The text of a rule is made of its parts with bars between them. Function, comparison and threshold
hold no bar once they have been read, but the names of a metric and of its fields may, and then a
part can end in one rule where it goes on in another one.

* `Condition`, `Strategy.condition`: what decides when a rule fails.
* `Strategy.SameBars`: texts that have their bars in the same parts.
* `Strategy.condition_eq_iff`: rules of one text that have their bars in the same parts are the
  same.
* `Strategy.sameBars_of_plain`: rules of one text do, if names hold no bar.
-/

namespace AlertEngine

/-! ## Bars -/

theorem Text.Words.not_mem {isSep : Char → Bool} {words : List (List Char)} {s : List Char}
    {c : Char} (parted : Text.Words isSep words s) (visible : isSep c = false)
    (free : ∀ word ∈ words, c ∉ word) : c ∉ s := by
  have outside {gap : List Char} (separators : ∀ d ∈ gap, isSep d = true) : c ∉ gap :=
    fun member => Bool.false_ne_true (visible.symm.trans (separators c member))
  induction parted with
  | gap separators => exact outside separators
  | word gap separators present plain ends more inductionHypothesis =>
    rw [List.forall_mem_cons] at free
    simp only [List.mem_append, not_or]
    exact ⟨outside separators, free.1, inductionHypothesis free.2⟩

theorem IsInteger.bar_not_mem {n : Int} {word : List Char} (isInteger : IsInteger n word) :
    '|' ∉ word := by
  obtain ⟨digits, -, decimal, signed⟩ := isInteger.signed
  have free : '|' ∉ digits := fun member => absurd (decimal _ member) (by decide)
  cases signed with
  | bare => exact free
  | plus => exact List.not_mem_cons_of_ne_of_not_mem (by decide) free
  | minus => exact List.not_mem_cons_of_ne_of_not_mem (by decide) free

theorem Calculation.bar_not_mem {c : Calculation} {word : List Char}
    (named : Text.InAnyCase c.name word) : '|' ∉ word := fun member => by
  have range := (named.letter c.isKeywordLetter_name _ member).range
  exact absurd range (by decide)

theorem WindowFunction.Denotes.bar_not_mem {words : List (List Char)} {f : WindowFunction}
    (denotes : Denotes words f) : ∀ word ∈ words, '|' ∉ word := by
  cases denotes with
  | plain named other sized range =>
    simp only [List.forall_mem_cons]
    exact ⟨Calculation.bar_not_mem named, sized.bar_not_mem, List.forall_mem_nil _⟩
  | atLeast named sized range asked =>
    simp only [List.forall_mem_cons]
    exact ⟨Calculation.bar_not_mem named, sized.bar_not_mem, asked.bar_not_mem,
      List.forall_mem_nil _⟩

theorem WindowFunction.bar_not_mem {text : String} {f : WindowFunction}
    (read : WindowFunction.parse text = .ok f) : '|' ∉ text.toList :=
  (Text.words_runs isSeparator text.toList).not_mem (by decide) (denotes_of_parse read).bar_not_mem

theorem Comparison.bar_not_mem {text : String} {c : Comparison} (read : ofText text = .ok c) :
    '|' ∉ text.toList := by
  have listed {symbol : String} (same : Text.trimmed text = symbol)
      (free : '|' ∉ symbol.toList) : '|' ∉ text.toList := by
    rw [← same, Text.trimmed, String.toList_ofList] at free
    exact Text.not_mem_of_padded (Text.padded_trim text.toList) (by decide) free
  rw [ofText] at read
  split at read
  any_goals exact listed ‹_› (by decide)
  cases read

/-! ## Rules of one text -/

/-- What decides when a rule fails. -/
structure Condition where
  metric : String
  fieldTransform : String
  func : String
  op : String
  threshold : Float
  tags : String
deriving DecidableEq, Inhabited

namespace Strategy

variable {s t : Strategy}

def condition (s : Strategy) : Condition where
  metric := s.metric
  fieldTransform := s.fieldTransform
  func := s.func
  op := s.op
  threshold := s.rightValue
  tags := s.tags

def bars (text : String) : Nat := text.toList.count '|'

def SameBars (s t : Strategy) : Prop :=
  bars s.metric = bars t.metric ∧ bars s.fieldTransform = bars t.fieldTransform

instance (s t : Strategy) : Decidable (s.SameBars t) := inferInstanceAs (Decidable (_ ∧ _))

theorem toList_ruleText (s : Strategy) : (ruleText s).toList =
    s.metric.toList ++ '|' :: (s.fieldTransform.toList ++ '|' :: (s.func.toList ++ '|' ::
      (s.op.toList ++ '|' :: (thresholdLayout.write s.rightValue ++ '|' :: s.tags.toList)))) := by
  simp [ruleText]

theorem ruleText_congr (same : s.condition = t.condition) : ruleText s = ruleText t := by
  simp only [condition, Condition.mk.injEq] at same
  obtain ⟨metric, transform, func, op, threshold, tags⟩ := same
  rw [ruleText, ruleText, metric, transform, func, op, threshold, tags]

theorem sameBars_of_condition (same : s.condition = t.condition) : s.SameBars t :=
  ⟨congrArg (fun k => bars k.metric) same, congrArg (fun k => bars k.fieldTransform) same⟩

theorem bars_eq_zero_iff {text : String} : bars text = 0 ↔ '|' ∉ text.toList := by
  rw [bars, List.count_eq_zero]

/-- Function and comparison hold no bar, for they can be read. -/
theorem bar_not_mem_of_compile {r : Rule} (compiled : Rule.compile s = .ok r) :
    '|' ∉ s.func.toList ∧ '|' ∉ s.op.toList := by
  obtain ⟨_, -, compiled⟩ := bind_eq_ok_iff.mp compiled
  obtain ⟨_, function, compiled⟩ := bind_eq_ok_iff.mp compiled
  obtain ⟨_, comparison, -⟩ := bind_eq_ok_iff.mp compiled
  exact ⟨WindowFunction.bar_not_mem function, Comparison.bar_not_mem comparison⟩

section

variable {r q : Rule} (compiled : Rule.compile s = .ok r) (compiled' : Rule.compile t = .ok q)

include compiled compiled'

theorem condition_of_ruleText (same : ruleText s = ruleText t) (sameBars : s.SameBars t) :
    s.condition = t.condition := by
  obtain ⟨function, comparison⟩ := bar_not_mem_of_compile compiled
  obtain ⟨function', comparison'⟩ := bar_not_mem_of_compile compiled'
  have texts := congrArg String.toList same
  rw [toList_ruleText, toList_ruleText] at texts
  -- The parts are taken off from the left, and each ends at a bar that is known by counting.
  obtain ⟨metric, texts⟩ := append_mark_inj_of_count sameBars.1 texts
  obtain ⟨transform, texts⟩ := append_mark_inj_of_count sameBars.2 texts
  obtain ⟨func, texts⟩ := append_mark_inj function function' texts
  obtain ⟨op, texts⟩ := append_mark_inj comparison comparison' texts
  obtain ⟨threshold, tags⟩ := append_mark_inj (bar_not_mem_write _) (bar_not_mem_write _) texts
  simp only [condition, Condition.mk.injEq]
  exact ⟨String.toList_injective metric, String.toList_injective transform,
    String.toList_injective func, String.toList_injective op, write_injective threshold,
    String.toList_injective tags⟩

/-- Rules are the same when they have one text and the same bars in metric and transform. -/
theorem condition_eq_iff :
    s.condition = t.condition ↔ ruleText s = ruleText t ∧ s.SameBars t :=
  ⟨fun same => ⟨ruleText_congr same, sameBars_of_condition same⟩,
    fun ⟨same, sameBars⟩ => condition_of_ruleText compiled compiled' same sameBars⟩

omit compiled' in
theorem bars_ruleText :
    bars (ruleText s) = bars s.metric + bars s.fieldTransform + bars s.tags + 5 := by
  obtain ⟨function, comparison⟩ := bar_not_mem_of_compile compiled
  rw [bars, toList_ruleText]
  simp only [List.count_append, List.count_cons_self, List.count_eq_zero.mpr function,
    List.count_eq_zero.mpr comparison, List.count_eq_zero.mpr (bar_not_mem_write s.rightValue),
    bars]
  omega

end

def Plain (rules : List Strategy) : Prop :=
  (∀ s ∈ rules, '|' ∉ s.metric.toList) ∧
    ((∀ s ∈ rules, '|' ∉ s.fieldTransform.toList) ∨ ∀ s ∈ rules, '|' ∉ s.tags.toList)

instance (rules : List Strategy) : Decidable (Plain rules) := inferInstanceAs (Decidable (_ ∧ _))

/-- One of the bars of a text that are neither in the metric nor in the tags must be in the
transform. -/
theorem sameBars_of_plain {rules : List Strategy} {r q : Rule} (plain : Plain rules)
    (first : s ∈ rules) (second : t ∈ rules) (compiled : Rule.compile s = .ok r)
    (compiled' : Rule.compile t = .ok q) (same : ruleText s = ruleText t) : s.SameBars t := by
  have total := congrArg bars same
  rw [bars_ruleText compiled, bars_ruleText compiled'] at total
  have metric := bars_eq_zero_iff.mpr (plain.1 s first)
  have metric' := bars_eq_zero_iff.mpr (plain.1 t second)
  refine ⟨metric.trans metric'.symm, ?_⟩
  rcases plain.2 with transforms | tags
  · exact (bars_eq_zero_iff.mpr (transforms s first)).trans
      (bars_eq_zero_iff.mpr (transforms t second)).symm
  · have none := bars_eq_zero_iff.mpr (tags s first)
    have none' := bars_eq_zero_iff.mpr (tags t second)
    omega

end Strategy

end AlertEngine
