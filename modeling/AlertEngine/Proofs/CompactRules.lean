import AlertEngine.Proofs.CompositeHistory
import AlertEngine.Proofs.ScanOutcomes
import AlertEngine.Proofs.TextCutting
import Mathlib.Data.List.TakeDrop

/-! # Compact rules

A rule of a composite strategy is given as a strategy of its own or as a compact text. The two forms
come to the same composite: the text is read as the strategy, and nothing that a composite does
depends on the ids, the names and the grouping that its rules have as strategies.

* `CompactRule.plain_of_readFloat?`: texts of numbers have neither separators nor blanks.
* `Definition`, `IsExplicit`, `IsWritten`: a rule, as a strategy and as a text;
  `parse_of_isWritten`: the text is read as the strategy.
* `Composite.anonymous`: a composite without what tells its rules apart as strategies;
  `anonymous_ofStrategy`, `anonymous_run`: reading, checking and scanning do without it.
* `Indistinguishable`: two composites that no call tells apart.
* `compact_as_explicit`: rules in either form make the same composite.
-/

namespace AlertEngine

/-! ## Texts of numbers -/

namespace CompactRule

def Plain (c : Char) : Prop := c ≠ ';' ∧ Text.isBlank c = false

instance (c : Char) : Decidable (Plain c) := inferInstanceAs (Decidable (_ ∧ _))

/-- Neither the separator nor a blank is among the digits and the capital letters. -/
theorem plain_of_range {c : Char}
    (range : 48 ≤ c.toNat ∧ c.toNat ≤ 57 ∨ 65 ≤ c.toNat ∧ c.toNat ≤ 90) : Plain c := by
  constructor
  · rintro rfl
    revert range
    decide
  · simp only [Text.isBlank, Text.inRanges, Text.blankRanges, List.any_cons, List.any_nil,
      Bool.or_false, Bool.or_eq_false_iff, Bool.and_eq_false_iff, decide_eq_false_iff_not]
    omega

theorem plain_of_isDigit {c : Char} (digit : Decimal.isDigit c = true) : Plain c := by
  simp only [Decimal.isDigit, Bool.and_eq_true, decide_eq_true_eq, Char.le_def,
    UInt32.le_iff_toNat_le] at digit
  exact plain_of_range (.inl digit)

theorem plain_of_toLower {c : Char} (plain : Plain c.toLower) : Plain c := by
  -- Only capital letters change, and they are plain themselves.
  by_cases upper : c.val ≥ 'A'.val ∧ c.val ≤ 'Z'.val
  · simp only [ge_iff_le, UInt32.le_iff_toNat_le] at upper
    exact plain_of_range (.inr upper)
  · have kept : c.toLower = c := dif_neg upper
    rwa [kept] at plain

theorem plain_of_word {s word : List Char} (same : s.map Char.toLower = word)
    (plain : word.all (fun c => Plain c) = true) : ∀ c ∈ s, Plain c := by
  intro c member
  apply plain_of_toLower
  have lowered : c.toLower ∈ word := by
    rw [← same]
    exact List.mem_map_of_mem member
  exact of_decide_eq_true (List.all_eq_true.mp plain _ lowered)

theorem plain_of_cutSign {s : List Char} (plain : ∀ c ∈ (Decimal.cutSign s).2, Plain c) :
    ∀ c ∈ s, Plain c := by
  unfold Decimal.cutSign at plain
  split at plain
  · rw [List.forall_mem_cons]
    exact ⟨by decide, plain⟩
  · rw [List.forall_mem_cons]
    exact ⟨by decide, plain⟩
  · exact plain

theorem plain_of_readExponent? {s : List Char} {n : Int}
    (read : Decimal.readExponent? s = some n) : ∀ c ∈ s, Plain c := by
  apply plain_of_cutSign
  unfold Decimal.readExponent? at read
  dsimp only at read
  split at read
  · cases read
  · rename_i digits
    simp only [Bool.or_eq_true, Bool.not_eq_true', not_or, Bool.not_eq_false,
      List.all_eq_true] at digits
    exact fun c member => plain_of_isDigit (digits.2 c member)

theorem plain_of_span {s : List Char} (plain : ∀ c ∈ (s.span Decimal.isDigit).2, Plain c) :
    ∀ c ∈ s, Plain c := by
  rw [List.span_eq_takeWhile_dropWhile] at plain
  intro c member
  rw [← List.takeWhile_append_dropWhile (p := Decimal.isDigit) (l := s), List.mem_append] at member
  cases member with
  | inl digit => exact plain_of_isDigit (List.mem_takeWhile_imp digit)
  | inr rest => exact plain c rest

/-- Behind the digits there is nothing, or an exponent. -/
theorem plain_of_exponent {bare : Bool} {tail : List Char} {number : Int → Decimal} {d : Decimal}
    (read : (if bare = true then none
      else match tail with
        | [] => some (number 0)
        | c :: exponent =>
          if c = 'e' ∨ c = 'E' then (Decimal.readExponent? exponent).map number else none) =
      some d) : ∀ c ∈ tail, Plain c := by
  split at read
  · cases read
  · split at read
    · exact fun _ member => nomatch member
    · split at read
      · rename_i mark
        obtain ⟨n, digits, _⟩ := Option.map_eq_some_iff.mp read
        rw [List.forall_mem_cons]
        refine ⟨?_, plain_of_readExponent? digits⟩
        cases mark with
        | inl small => rw [small]; decide
        | inr capital => rw [capital]; decide
      · cases read

theorem plain_of_readMagnitude? {negative : Bool} {s : List Char} {d : Decimal}
    (read : Decimal.readMagnitude? negative s = some d) : ∀ c ∈ s, Plain c := by
  apply plain_of_span
  unfold Decimal.readMagnitude? at read
  dsimp only at read
  split at read
  · rename_i fraction point
    rw [point, List.forall_mem_cons]
    exact ⟨by decide, plain_of_span (plain_of_exponent read)⟩
  · exact plain_of_exponent read

/-- The text of a number has neither separators nor blanks. -/
theorem plain_of_readFloat? {s : List Char} {x : Float} (read : Decimal.readFloat? s = some x) :
    ∀ c ∈ s, Plain c := by
  apply plain_of_cutSign
  unfold Decimal.readFloat? at read
  dsimp only at read
  split at read
  · rename_i infinite
    cases infinite with
    | inl short => exact plain_of_word short (by decide)
    | inr long => exact plain_of_word long (by decide)
  · split at read
    · rename_i nan
      exact plain_of_word nan (by decide)
    · obtain ⟨d, magnitude, _⟩ := Option.map_eq_some_iff.mp read
      exact plain_of_readMagnitude? magnitude

/-! ## Compact texts -/

def IsPart (text : String) : Prop := ';' ∉ text.toList ∧ Text.trim text.toList = text.toList

theorem isPart_of_readFloat? {text : String} {x : Float}
    (read : Decimal.readFloat? text.toList = some x) : IsPart text :=
  ⟨fun member => (plain_of_readFloat? read _ member).1 rfl,
    Text.trim_of_visible fun c member => (plain_of_readFloat? read c member).2⟩

structure Definition where
  metric : String
  fieldTransform : String
  func : String
  op : String
  threshold : String
  weight : String
  tags : String
  rightValue : Float
  weightValue : Float
  parts : ∀ text ∈ [metric, fieldTransform, func, op, tags], IsPart text
  readsThreshold : Decimal.readFloat? threshold.toList = some rightValue
  readsWeight : Decimal.readFloat? weight.toList = some weightValue

variable {d : Definition} {text : String} {id : Int64}

def Definition.strategy (d : Definition) (id : Int64) (name : String) (groupBy : List String) :
    Strategy where
  id := id
  name := name
  metric := d.metric
  fieldTransform := d.fieldTransform
  func := d.func
  tags := d.tags
  op := d.op
  rightValue := d.rightValue
  weight := d.weightValue
  groupBy := groupBy

def Definition.IsExplicit (d : Definition) (s : Strategy) : Prop :=
  ∃ id name groupBy, s = d.strategy id name groupBy

/-- What stands between the separators of a compact text: all parts, or all but the tags when these
are empty. -/
inductive Definition.Parts (d : Definition) : List String → Prop
  | all : d.Parts [d.metric, d.fieldTransform, d.func, d.op, d.threshold, d.weight, d.tags]
  | untagged (empty : d.tags = "") :
    d.Parts [d.metric, d.fieldTransform, d.func, d.op, d.threshold, d.weight]

def Definition.IsWritten (d : Definition) (text : String) : Prop :=
  ∃ parts cells, d.Parts parts ∧
    List.Forall₂ (fun part cell => Text.Padded part.toList cell) parts cells ∧
      text.toList = [';'].intercalate cells

/-! ### Reading -/

theorem Definition.Parts.isPart {parts : List String} (parted : d.Parts parts) :
    ∀ part ∈ parts, IsPart part := by
  have texts := d.parts
  have threshold : IsPart d.threshold := isPart_of_readFloat? d.readsThreshold
  have weight : IsPart d.weight := isPart_of_readFloat? d.readsWeight
  simp only [List.forall_mem_cons, List.not_mem_nil, false_imp_iff, implies_true,
    and_true] at texts
  obtain ⟨metric, transform, func, op, tags⟩ := texts
  cases parted with
  | all => simp [metric, transform, func, op, threshold, weight, tags]
  | untagged => simp [metric, transform, func, op, threshold, weight]

theorem ofParts_of_parts {parts : List String} (parted : d.Parts parts) (id : Int64) :
    ofParts id (parts.map String.toList) = .ok (d.strategy id "" []) := by
  have threshold : RuleText.number d.threshold.toList = .ok d.rightValue := by
    rw [RuleText.number, d.readsThreshold]
  have weight : RuleText.number d.weight.toList = .ok d.weightValue := by
    rw [RuleText.number, d.readsWeight]
  cases parted with
  | all =>
    simp only [ofParts, List.map_cons, List.map_nil, List.headD_cons, threshold, weight,
      String.ofList_toList]
    rfl
  | untagged empty =>
    simp only [ofParts, List.map_cons, List.map_nil, List.headD_nil, threshold, weight,
      String.ofList_toList, Definition.strategy, empty]
    rfl

/-- A compact text is read as the rule. -/
theorem parse_of_isWritten (written : d.IsWritten text) (id : Int64) :
    parse id text = .ok (d.strategy id "" []) := by
  obtain ⟨parts, cells, parted, padded, joined⟩ := written
  have cut : (Text.splitOn ';' text.toList).map Text.trim = parts.map String.toList := by
    rw [joined]
    refine Text.splitOn_of_padded (List.forall₂_map_left_iff.mpr padded) (by decide)
      (List.forall_mem_map.mpr fun part member => (parted.isPart part member).1)
      (List.forall_mem_map.mpr fun part member => (parted.isPart part member).2) ?_
    rw [ne_eq, List.map_eq_nil_iff]
    rintro rfl
    cases parted
  rw [parse, cut, ofParts_of_parts parted]

end CompactRule

/-! ## What composites do without -/

def Strategy.anonymous (s : Strategy) : Strategy := { s with id := 0, name := "", groupBy := [] }

def Monitor.anonymous (u : Monitor) : Monitor := { u with strategy := u.strategy.anonymous }

def SubRule.anonymous (sub : SubRule) : SubRule := { sub with monitor := sub.monitor.anonymous }

theorem Monitor.anonymous_ofStrategy (s : Strategy) :
    ofStrategy s.anonymous = (ofStrategy s).map anonymous := by
  have same : Rule.compile s.anonymous = Rule.compile s := rfl
  rw [ofStrategy, ofStrategy, same]
  cases Rule.compile s <;> rfl

theorem Monitor.anonymous_checkSeries (u : Monitor) (series : String) (m : Metric) :
    u.anonymous.checkSeries series m =
      ((u.checkSeries series m).1, (u.checkSeries series m).2.anonymous) := by
  have rule : u.anonymous.rule = u.rule := rfl
  have window : u.anonymous.window series = u.window series := rfl
  cases applied : u.rule.transform.apply m with
  | error fault => simp only [checkSeries, rule, applied]
  | ok value =>
    cases pushed : (u.window series).push? ⟨value, m.timestamp⟩ with
    | none => simp only [checkSeries, rule, window, applied, pushed]
    | some after =>
      simp only [checkSeries, rule, window, applied, pushed]
      rfl

namespace Composite

variable {c d : Composite}

def anonymous (c : Composite) : Composite :=
  { c with
    strategy := { c.strategy with strategies := [], rules := [] }
    subs := c.subs.map SubRule.anonymous }

/-! ### Reading -/

theorem anonymous_subRules (id : Int64) (place : Nat) (strategies : List Strategy) :
    subRules id place (strategies.map Strategy.anonymous) =
      (subRules id place strategies).map (List.map SubRule.anonymous) := by
  induction strategies generalizing place with
  | nil => rfl
  | cons s rest inductionHypothesis =>
    rw [List.map_cons, subRules, subRules, inductionHypothesis, Monitor.anonymous_ofStrategy]
    cases Monitor.ofStrategy s with
    | error fault => rfl
    | ok monitor => cases subRules id (place + 1) rest <;> rfl

/-! ### Checking and scanning -/

theorem anonymous_accept? (c : Composite) (m : Metric) : c.anonymous.accept? m = c.accept? m := by
  rw [accept?, anonymous, List.findIdx?_map]
  rfl

/-- Of a rule only its key, its hash and its weight are recorded. -/
theorem anonymous_record (c : Composite) (sub : SubRule) (m : Metric) (judgment : Judgment) :
    c.anonymous.record sub.anonymous m.identity m judgment =
      (c.record sub m.identity m judgment).anonymous := by
  by_cases alarm : judgment.status = .problem
  · rw [record_problem alarm, record_problem alarm]
    rfl
  by_cases calm : judgment.status = .ok
  · cases present : c.groups[c.groupOf m]? with
    | none =>
      rw [record_ok_of_none calm present]
      exact record_ok_of_none (c := c.anonymous) calm present
    | some g =>
      rw [record_ok_of_some calm present]
      exact record_ok_of_some (c := c.anonymous) calm present
  · rw [record_of_not_judged calm alarm, record_of_not_judged calm alarm]

theorem anonymous_watched (c : Composite) (place : Nat) (sub : SubRule) (m : Metric) :
    c.anonymous.watched place sub.anonymous m = (c.watched place sub m).anonymous := by
  have checked : (sub.anonymous.monitor.checkSeries m.identity m).2 =
      (sub.monitor.checkSeries m.identity m).2.anonymous :=
    congrArg Prod.snd (sub.monitor.anonymous_checkSeries m.identity m)
  simp only [watched, anonymous, checked, List.map_set]
  rfl

theorem anonymous_check (c : Composite) (place : Nat) (m : Metric) :
    c.anonymous.check place m = ((c.check place m).1, (c.check place m).2.anonymous) := by
  cases found : c.subs[place]? with
  | none =>
    have absent : c.anonymous.subs[place]? = none := by
      rw [anonymous, List.getElem?_map, found, Option.map_none]
    simp only [check, found, absent]
  | some sub =>
    have present : c.anonymous.subs[place]? = some sub.anonymous := by
      rw [anonymous, List.getElem?_map, found, Option.map_some]
    have result : (sub.anonymous.monitor.checkSeries m.identity m).1 =
        (sub.monitor.checkSeries m.identity m).1 := by
      rw [SubRule.anonymous, Monitor.anonymous_checkSeries]
    have watched := c.anonymous_watched place sub m
    simp only [Composite.watched] at watched
    cases outcome : (sub.monitor.checkSeries m.identity m).1 with
    | error fault => simp only [check, found, present, result, outcome, watched]
    | ok judgment =>
      simp only [check, found, present, result, outcome, watched, anonymous_record]

theorem mayReport_anonymous (c : Composite) (now : Instant) (events : List Event) :
    c.anonymous.MayReport now events ↔ c.MayReport now events := Iff.rfl

theorem anonymous_perform (c : Composite) (call : Call) :
    c.anonymous.perform call = (c.perform call).anonymous := by
  cases call with
  | check place m => rw [perform, perform, anonymous_check]
  | scan now => rfl
  | evictIdle cutoff =>
    simp only [perform, evictIdle, anonymous, List.map_map]
    rfl

theorem anonymous_run (c : Composite) (calls : List Call) :
    c.anonymous.run calls = (c.run calls).anonymous := by
  induction calls using List.reverseRecOn with
  | nil => rfl
  | append_singleton calls call inductionHypothesis =>
    rw [run_snoc, run_snoc, inductionHypothesis, anonymous_perform]

/-! ## Composites that no call tells apart -/

/-- Two composites have the same rules in the same order. After any calls they have the same windows
and groups, they accept and judge alike, they make the same report of a group and a score, and a
scan may report the same of both. -/
structure Indistinguishable (c d : Composite) : Prop where
  keys : c.subs.map SubRule.key = d.subs.map SubRule.key
  hashes : c.subs.map SubRule.hash = d.subs.map SubRule.hash
  weights : c.subs.map SubRule.weight = d.subs.map SubRule.weight
  rules : (c.subs.map fun sub => sub.monitor.rule) = d.subs.map fun sub => sub.monitor.rule
  comparison : c.comparison = d.comparison
  windows : ∀ calls, ((c.run calls).subs.map fun sub => sub.monitor.windows) =
    (d.run calls).subs.map fun sub => sub.monitor.windows
  groups : ∀ calls, (c.run calls).groups = (d.run calls).groups
  accepts : ∀ calls m, (c.run calls).accept? m = (d.run calls).accept? m
  judgments : ∀ calls place m, ((c.run calls).check place m).1 = ((d.run calls).check place m).1
  reports : ∀ calls now key g score,
    (c.run calls).reportScoring now key g score = (d.run calls).reportScoring now key g score
  scans : ∀ calls now events,
    (c.run calls).MayReport now events ↔ (d.run calls).MayReport now events

theorem indistinguishable_of_anonymous (same : c.anonymous = d.anonymous) :
    c.Indistinguishable d := by
  have runs (calls : List Call) : (c.run calls).anonymous = (d.run calls).anonymous := by
    rw [← anonymous_run, same, anonymous_run]
  have kept {α : Type} {part : SubRule → α} (keeps : ∀ sub, part sub.anonymous = part sub)
      {c d : Composite} (same : c.anonymous = d.anonymous) :
      c.subs.map part = d.subs.map part := by
    have parts := congrArg (fun e : Composite => e.subs.map part) same
    simpa only [anonymous, List.map_map, Function.comp_def, keeps] using parts
  exact {
    keys := kept (fun _ => rfl) same
    hashes := kept (fun _ => rfl) same
    weights := kept (fun _ => rfl) same
    rules := kept (fun _ => rfl) same
    comparison := by
      have comparisons := congrArg Composite.comparison same
      exact comparisons
    windows := fun calls => kept (fun _ => rfl) (runs calls)
    groups := fun calls => by
      have groups := congrArg Composite.groups (runs calls)
      exact groups
    accepts := fun calls m => by rw [← anonymous_accept?, runs, anonymous_accept?]
    judgments := fun calls place m => by
      have checks := congrArg (fun e : Composite => (e.check place m).1) (runs calls)
      simpa only [anonymous_check] using checks
    reports := fun calls now key g score => by
      have reports := congrArg (fun e : Composite => e.reportScoring now key g score) (runs calls)
      exact reports
    scans := fun calls now events => by
      rw [← mayReport_anonymous, runs, mayReport_anonymous] }

/-! ## Rules in either form -/

open CompactRule (Definition)

theorem anonymous_of_isExplicit {definitions : List Definition} {strategies : List Strategy}
    (given : List.Forall₂ Definition.IsExplicit definitions strategies) :
    strategies.map Strategy.anonymous = definitions.map fun d => d.strategy 0 "" [] := by
  induction given with
  | nil => rfl
  | cons first _ inductionHypothesis =>
    obtain ⟨id, name, groupBy, rfl⟩ := first
    rw [List.map_cons, List.map_cons, inductionHypothesis]
    rfl

theorem compactRules_of_isWritten {definitions : List Definition} {texts : List String}
    (written : List.Forall₂ Definition.IsWritten definitions texts) (place : Nat) :
    ∃ strategies, compactRules place texts = .ok strategies ∧
      List.Forall₂ Definition.IsExplicit definitions strategies := by
  induction written generalizing place with
  | nil => exact ⟨[], rfl, .nil⟩
  | cons first _ inductionHypothesis =>
    obtain ⟨strategies, read, explicit⟩ := inductionHypothesis (place + 1)
    refine ⟨_, ?_, .cons ⟨Int64.ofNat place, "", [], rfl⟩ explicit⟩
    rw [compactRules, CompactRule.parse_of_isWritten first, read]
    rfl

/-- What a composite strategy comes to depends on its rules as anonymous strategies. -/
theorem anonymous_ofStrategy (s : CompositeStrategy) {strategies rules : List Strategy}
    {texts : List String}
    (defined : definitions { s with strategies := strategies, rules := texts } = .ok rules) :
    (ofStrategy { s with strategies := strategies, rules := texts }).map anonymous = do
      let comparison ← Comparison.ofText s.op
      let subs ← subRules s.id 0 (rules.map Strategy.anonymous)
      return { strategy := { s with strategies := [], rules := [] }
               comparison := comparison
               subs := subs } := by
  rw [anonymous_subRules, ofStrategy, defined]
  cases Comparison.ofText s.op with
  | error fault => rfl
  | ok comparison =>
    show (subRules s.id 0 rules >>= _).map anonymous = _
    cases subRules s.id 0 rules <;> rfl

/-- Rules may be given as strategies, under any ids and names, or as compact texts, with any blanks
around the parts. Whether the last ones are texts or all are strategies makes no difference: both
composites are refused for the same fault, or no call tells them apart. -/
theorem compact_as_explicit (s : CompositeStrategy) {front back : List Definition}
    {first all : List Strategy} {texts : List String}
    (given : List.Forall₂ Definition.IsExplicit front first)
    (written : List.Forall₂ Definition.IsWritten back texts)
    (whole : List.Forall₂ Definition.IsExplicit (front ++ back) all) :
    let mixed := ofStrategy { s with strategies := first, rules := texts }
    let explicit := ofStrategy { s with strategies := all, rules := [] }
    (∃ fault, mixed = .error fault ∧ explicit = .error fault) ∨
      ∃ c d, mixed = .ok c ∧ explicit = .ok d ∧ c.Indistinguishable d := by
  intro mixed explicit
  obtain ⟨compact, read, readAs⟩ := compactRules_of_isWritten written first.length
  have definedMixed : definitions { s with strategies := first, rules := texts } =
      .ok (first ++ compact) := by
    rw [definitions, read]
    rfl
  have definedExplicit : definitions { s with strategies := all, rules := [] } = .ok all := by
    rw [definitions, compactRules]
    exact congrArg Except.ok (List.append_nil all)
  have alike : (first ++ compact).map Strategy.anonymous = all.map Strategy.anonymous := by
    rw [List.map_append, anonymous_of_isExplicit given, anonymous_of_isExplicit readAs,
      anonymous_of_isExplicit whole, List.map_append]
  have same : mixed.map anonymous = explicit.map anonymous := by
    rw [anonymous_ofStrategy s definedMixed, anonymous_ofStrategy s definedExplicit, alike]
  cases resultMixed : mixed with
  | error fault =>
    rw [resultMixed] at same
    exact .inl ⟨fault, rfl, map_eq_error_iff.mp same.symm⟩
  | ok c =>
    rw [resultMixed] at same
    obtain ⟨d, accepted, anonymous⟩ := map_eq_ok_iff.mp same.symm
    exact .inr ⟨c, d, rfl, accepted, indistinguishable_of_anonymous anonymous.symm⟩

def busyProcessor : Definition where
  metric := "cpu"
  fieldTransform := "select(value)"
  func := "all(#1)"
  op := ">"
  threshold := "90"
  weight := "+7e1"
  tags := ""
  rightValue := 90
  weightValue := 70
  parts := by unfold CompactRule.IsPart; decide
  readsThreshold := by decide +kernel
  readsWeight := by decide +kernel

/-- The processor is one rule as a strategy and one as a text, with blanks and without tags. -/
theorem busyProcessor_in_either_form :
    let s : CompositeStrategy := { id := 9, op := ">=", rightValue := 60 }
    let mixed : CompositeStrategy :=
      { s with
        strategies := [busyProcessor.strategy 5 "first" ["host"]]
        rules := ["cpu ; select(value);\tall(#1);>;90 ;+7e1"] }
    let explicit : CompositeStrategy :=
      { s with strategies := [busyProcessor.strategy 1 "" [], busyProcessor.strategy 1 "" []] }
    ∃ c d, ofStrategy mixed = .ok c ∧ ofStrategy explicit = .ok d ∧ c.Indistinguishable d ∧
      d.subCount = 2 := by
  intro s mixed explicit
  have written : busyProcessor.IsWritten "cpu ; select(value);\tall(#1);>;90 ;+7e1" :=
    ⟨_, ["cpu ".toList, " select(value)".toList, "\tall(#1)".toList, ">".toList, "90 ".toList,
      "+7e1".toList], .untagged rfl,
      .cons ⟨[], [' '], Text.blanks_nil, Text.blanks_of_all rfl, by decide⟩
        (.cons ⟨[' '], [], Text.blanks_of_all rfl, Text.blanks_nil, by decide⟩
          (.cons ⟨['\t'], [], Text.blanks_of_all rfl, Text.blanks_nil, by decide⟩
            (.cons (Text.padded_self ">".toList)
              (.cons ⟨[], [' '], Text.blanks_nil, Text.blanks_of_all rfl, by decide⟩
                (.cons (Text.padded_self "+7e1".toList) .nil))))), by decide⟩
  have accepted : (ofStrategy explicit).toOption.any (fun d => d.subCount == 2) = true := by
    decide +kernel
  cases compact_as_explicit s (.cons ⟨5, "first", ["host"], rfl⟩ .nil) (.cons written .nil)
    (.cons ⟨1, "", [], rfl⟩ (.cons ⟨1, "", [], rfl⟩ .nil)) with
  | inl refused =>
    obtain ⟨fault, _, failed⟩ := refused
    rw [failed] at accepted
    cases accepted
  | inr both =>
    obtain ⟨c, d, read, readExplicit, alike⟩ := both
    rw [readExplicit] at accepted
    exact ⟨c, d, read, readExplicit, alike, beq_iff_eq.mp accepted⟩

end Composite

end AlertEngine
