import AlertEngine.Proofs.CalculationBounds
import AlertEngine.Proofs.DecodedNumbers
import AlertEngine.Proofs.MonitorInvariants

/-! # Events that can be read again

The value of an event is calculated from numbers of metrics. Metrics that come from JSON texts have
finite numbers only, but what is calculated from them may have left the range of the doubles, and
then the line of the event is no event.

* `Monitor.Fed`: monitors whose windows hold what was read off some metrics; `Monitor.lasting_fed`.
* `Rule.Calculates`: values that a rule may report when it is fed so.
* `Monitor.Reports`, `Engine.reports_judge`: every event of a judging reports such a value.
* `Engine.judged_events_read_back`: which events are read again as they were.
-/

namespace AlertEngine

open Std (ExtTreeMap)

variable {admitted : Metric → Prop} {good : Float → Prop} {m : Metric}

/-! ## Values of transforms -/

namespace Transform

def Has (good : Float → Prop) : Transform → Prop
  | .rangeSelect _ _ _ _ default => good default
  | _ => True

theorem good_of_readField (has : m.Has good) {field : String} {x : Float}
    (read : readField m field = .ok x) : good x := by
  rw [readField] at read
  split at read
  · rename_i found
    cases read
    exact has.field? found
  · cases read

/-- A transform gives a number of the metric, or its own. -/
theorem Has.apply {t : Transform} (own : t.Has good) (has : m.Has good) {x : Float}
    (read : t.apply m = .ok x) : good x := by
  cases t with
  | select field => exact good_of_readField has read
  | rangeSelect field min max other default =>
    obtain ⟨y, -, read⟩ := bind_eq_ok_iff.mp read
    split at read
    · exact good_of_readField has read
    · cases read
      exact own
  | rangeAnd ranges field =>
    obtain ⟨-, -, read⟩ := bind_eq_ok_iff.mp read
    exact good_of_readField has read
  | rangeOr ranges field =>
    rw [Transform.apply] at read
    split at read
    · exact good_of_readField has read
    · cases read

end Transform

/-! ## What monitors hold -/

namespace SlidingWindow

variable {w after : SlidingWindow} {s : Sample}

theorem limit_of_push? (pushed : w.push? s = some after) : after.limit = w.limit := by
  rw [push?] at pushed
  split at pushed
  · cases pushed
  · cases pushed
    rfl

theorem mem_values_of_push? (pushed : w.push? s = some after) {x : Float}
    (member : x ∈ after.values) : x = s.value ∨ x ∈ w.values := by
  rw [push?] at pushed
  split at pushed
  · cases pushed
  · cases pushed
    obtain ⟨taken, present, rfl⟩ := List.mem_map.mp member
    rcases List.mem_cons.mp (List.mem_of_mem_take present) with rfl | earlier
    · exact .inl rfl
    · exact .inr (List.mem_map_of_mem earlier)

end SlidingWindow

namespace Monitor

variable {u : Monitor}

/-- A monitor with the rule of its strategy, whose windows have the size that the rule asks for and
hold values that the rule has taken from admitted metrics. -/
structure Fed (admitted : Metric → Prop) (u : Monitor) : Prop where
  compiled : Rule.compile u.strategy = .ok u.rule
  limit : ∀ (series : String) (w : SlidingWindow), u.windows[series]? = some w →
    w.limit = u.rule.limit
  values : ∀ (series : String) (w : SlidingWindow), u.windows[series]? = some w →
    ∀ x ∈ w.values, ∃ m, admitted m ∧ u.rule.transform.apply m = .ok x

/-- After a check every window is one from before, or it is the one that has taken the sample in. -/
theorem windows_check {series : String} {w : SlidingWindow}
    (found : (u.check m).2.windows[series]? = some w) :
    u.windows[series]? = some w ∨
      ∃ value, u.rule.transform.apply m = .ok value ∧
        (u.window m.identity).push? ⟨value, m.timestamp⟩ = some w := by
  cases read : u.rule.transform.apply m with
  | error fault =>
    simp only [check, checkSeries, read] at found
    exact .inl found
  | ok value =>
    cases pushed : (u.window m.identity).push? ⟨value, m.timestamp⟩ with
    | none =>
      simp only [check, checkSeries, read, pushed] at found
      exact .inl found
    | some after =>
      simp only [check, checkSeries, read, pushed, ExtTreeMap.getElem?_insert] at found
      split at found
      · cases found
        exact .inr ⟨value, rfl, pushed⟩
      · exact .inl found

theorem Fed.window (fed : u.Fed admitted) (series : String) :
    (u.window series).limit = u.rule.limit ∧
      ∀ x ∈ (u.window series).values, ∃ m, admitted m ∧ u.rule.transform.apply m = .ok x := by
  rw [Monitor.window]
  cases found : u.windows[series]? with
  | none => exact ⟨rfl, fun _ member => by cases member⟩
  | some w => exact ⟨fed.limit series w found, fed.values series w found⟩

theorem Fed.push? (fed : u.Fed admitted) (admits : admitted m) {value : Float}
    (read : u.rule.transform.apply m = .ok value) {after : SlidingWindow}
    (pushed : (u.window m.identity).push? ⟨value, m.timestamp⟩ = some after) :
    after.limit = u.rule.limit ∧
      ∀ x ∈ after.values, ∃ m, admitted m ∧ u.rule.transform.apply m = .ok x := by
  obtain ⟨limit, values⟩ := fed.window m.identity
  refine ⟨(SlidingWindow.limit_of_push? pushed).trans limit, fun x member => ?_⟩
  rcases SlidingWindow.mem_values_of_push? pushed member with rfl | earlier
  · exact ⟨m, admits, read⟩
  · exact values x earlier

@[simp] theorem check_rule (u : Monitor) (m : Metric) : (u.check m).2.rule = u.rule :=
  Engine.checkSeries_rule u m.identity m

@[simp] theorem check_strategy (u : Monitor) (m : Metric) :
    (u.check m).2.strategy = u.strategy :=
  Engine.checkSeries_strategy u m.identity m

theorem Fed.check (fed : u.Fed admitted) (admits : admitted m) : (u.check m).2.Fed admitted := by
  have kept {series : String} {w : SlidingWindow}
      (found : (u.check m).2.windows[series]? = some w) : w.limit = u.rule.limit ∧
        ∀ x ∈ w.values, ∃ m, admitted m ∧ u.rule.transform.apply m = .ok x := by
    rcases windows_check found with earlier | ⟨value, read, pushed⟩
    · exact ⟨fed.limit series w earlier, fed.values series w earlier⟩
    · exact fed.push? admits read pushed
  constructor
  case compiled =>
    rw [check_rule, check_strategy]
    exact fed.compiled
  case limit =>
    intro series w found
    rw [check_rule]
    exact (kept found).1
  case values =>
    intro series w found
    rw [check_rule]
    exact (kept found).2

/-- Monitors are fed by the metrics that they check. -/
theorem lasting_fed : Lasting admitted (Fed admitted) where
  fresh {s u} accepted := by
    obtain ⟨r, compiled, rfl⟩ := eq_of_ofStrategy accepted
    exact ⟨compiled, fun series w found => by simp at found, fun series w found => by simp at found⟩
  check admits fed := fed.check admits
  evictIdle {u} cutoff fed := by
    have earlier {series : String} {w : SlidingWindow}
        (found : (u.evictIdle cutoff).windows[series]? = some w) : u.windows[series]? = some w := by
      rw [windows_evictIdle, Option.filter_eq_some_iff] at found
      exact found.1
    exact ⟨fed.compiled, fun series w found => fed.limit series w (earlier found),
      fun series w found => fed.values series w (earlier found)⟩

end Monitor

/-! ## What rules calculate -/

/-- Whether a rule may report a value when it looks at what it has taken from admitted metrics. -/
def Rule.Calculates (admitted : Metric → Prop) (r : Rule) (x : Float) : Prop :=
  ∃ window outcome, (∀ y ∈ window, ∃ m, admitted m ∧ r.transform.apply m = .ok y) ∧
    window.length ≤ 100001 ∧ r.evaluate window = .ok outcome ∧ outcome.value = x

namespace Rule.Calculates

variable {r : Rule} {x : Float}

/-- A rule that looks for a value of the window reports a number of a metric, or its own. -/
theorem good_of_plain (calculates : r.Calculates admitted x)
    (plain : r.function.calculation = .all ∨ r.function.calculation = .atLeast)
    (own : r.transform.Has good) (has : ∀ m, admitted m → m.Has good) : good x := by
  obtain ⟨window, outcome, taken, -, evaluated, rfl⟩ := calculates
  obtain ⟨m, admits, read⟩ := taken _ (Calculation.value_mem_window plain evaluated)
  exact own.apply (has m admits) read

/-- From moderate numbers every rule calculates a finite value. -/
theorem isFinite (calculates : r.Calculates admitted x) (own : r.transform.Has Moderate)
    (has : ∀ m, admitted m → m.Has Moderate) : x.isFinite := by
  obtain ⟨window, outcome, taken, short, evaluated, rfl⟩ := calculates
  have moderate : ∀ y ∈ window, Moderate y := by
    intro y member
    obtain ⟨m, admits, read⟩ := taken y member
    exact own.apply (has m admits) read
  exact Calculation.isFinite_value moderate (by omega) evaluated

end Rule.Calculates

/-! ## Reports -/

namespace Monitor

variable {u : Monitor} {judgment : Judgment}

/-- A check that judges has handed a window to the rule, and its value is what the rule says. -/
theorem exists_handed_of_judged (checked : (u.check m).1 = .ok judgment)
    (judged : judgment.status = .ok ∨ judgment.status = .problem) :
    ∃ window outcome, u.handed? m = some window ∧ u.rule.evaluate window = .ok outcome ∧
      outcome.value = judgment.leftValue := by
  cases handed : u.handed? m with
  | none =>
    rcases check_of_not_handed handed with ⟨fault, -, fails⟩ | ⟨value, ignored⟩
    · rw [fails] at checked
      cases checked
    · rw [ignored] at checked
      cases checked
      rcases judged with same | same <;> cases same
  | some window =>
    rw [check_of_handed handed] at checked
    cases evaluated : u.rule.evaluate window with
    | error fault =>
      rw [evaluated] at checked
      cases checked
    | ok outcome =>
      rw [evaluated] at checked
      cases checked
      exact ⟨window, outcome, rfl, evaluated, rfl⟩

theorem Fed.calculates (fed : u.Fed admitted) (admits : admitted m)
    (checked : (u.check m).1 = .ok judgment)
    (judged : judgment.status = .ok ∨ judgment.status = .problem) :
    u.rule.Calculates admitted judgment.leftValue := by
  obtain ⟨window, outcome, handed, evaluated, value⟩ := exists_handed_of_judged checked judged
  have length := length_of_handed (fed.window m.identity).1 handed
  obtain ⟨x, after, read, pushed, -, rfl⟩ := handed?_eq_some_iff.mp handed
  refine ⟨after.values, outcome, (fed.push? admits read pushed).2, ?_, evaluated, value⟩
  exact length.trans_le
    (WindowFunction.supported_of_parse (Rule.parse_of_compile fed.compiled)).bounded

/-- An event as a monitor reports it: it is named for the strategy, it shows the threshold and some
texts, and its value may be calculated by the rule. -/
structure Reports (admitted : Metric → Prop) (now : Instant) (u : Monitor) (event : Event) :
    Prop where
  strategyId : event.strategyId = u.id
  createdAt : event.createdAt = now
  fields : ∀ entry ∈ event.fields.toList,
    entry = ("threshold", .ofFloat u.rule.threshold) ∨ ∃ s, entry.2 = .text s
  leftValue : u.rule.Calculates admitted event.leftValue

theorem mem_fields_eventOf {now : Instant} {series : String} {entry : String × Json}
    (member : entry ∈ (Engine.eventOf now u series m judgment).fields.toList) :
    entry = ("threshold", .ofFloat u.rule.threshold) ∨ ∃ s, entry.2 = .text s := by
  have written := Dictionary.mem_of_getElem?_ofEntries
    (ExtTreeMap.mem_toList_iff_getElem?_eq_some.mp member)
  simp only [List.mem_cons, List.not_mem_nil, or_false] at written
  rcases written with same | same | same
  · exact .inl same
  · exact .inr ⟨_, congrArg Prod.snd same⟩
  · exact .inr ⟨_, congrArg Prod.snd same⟩

/-- The fields of an event are kept, or none is. -/
theorem mem_fields_kept {policy : DebouncePolicy} {event : Event} {step : UInt32}
    {entry : String × Json}
    (member : entry ∈ (DebounceTable.kept policy event step).fields.toList) :
    entry ∈ event.fields.toList := by
  rw [DebounceTable.kept] at member
  split at member
  · have found := ExtTreeMap.mem_toList_iff_getElem?_eq_some.mp member
    simp [Event.simplified] at found
  · exact member

theorem reports_kept {now : Instant} {series : String}
    (calculates : u.rule.Calculates admitted judgment.leftValue) (policy : DebouncePolicy)
    (step : UInt32) :
    u.Reports admitted now
      (DebounceTable.kept policy (Engine.eventOf now u series m judgment) step) where
  strategyId := DebounceTable.kept_strategyId step
  createdAt := by rw [DebounceTable.kept_eq]; rfl
  fields entry member := mem_fields_eventOf (mem_fields_kept member)
  leftValue := by rw [DebounceTable.kept_eq]; exact calculates

/-- Monitors of one strategy report alike. -/
theorem Reports.of_strategy {v : Monitor} {now : Instant} {event : Event}
    (reports : u.Reports admitted now event) (same : v.strategy = u.strategy)
    (rule : v.rule = u.rule) : v.Reports admitted now event where
  strategyId := reports.strategyId.trans (congrArg Strategy.id same).symm
  createdAt := reports.createdAt
  fields := rule ▸ reports.fields
  leftValue := rule ▸ reports.leftValue

end Monitor

namespace Engine

variable {e : Engine} {now : Instant} {event : Event}

def Fed (admitted : Metric → Prop) (e : Engine) : Prop :=
  ∀ (id : Int64) (u : Monitor), e.monitors[id]? = some u → u.Fed admitted

def Reports (admitted : Metric → Prop) (now : Instant) (e : Engine) (event : Event) : Prop :=
  ∃ (id : Int64) (u : Monitor), e.monitors[id]? = some u ∧ u.Reports admitted now event

/-- What is reported later on is reported by the same strategies. -/
theorem Reports.of_continues {next : Engine} (reports : next.Reports admitted now event)
    (continues : Continues e next) (fed : e.Fed admitted) (fedNext : next.Fed admitted) :
    e.Reports admitted now event := by
  obtain ⟨id, u, found, reports⟩ := reports
  obtain ⟨v, earlier, same⟩ := continues.lookup found
  have compiled := (fed id v earlier).compiled
  rw [same, (fedNext id u found).compiled] at compiled
  exact ⟨id, v, earlier, reports.of_strategy same (Except.ok.inj compiled).symm⟩

theorem Fed.judgeBy (fed : e.Fed admitted) (admits : admitted m) (now : Instant) (id : Int64) :
    (e.judgeBy now m id).2.Fed admitted := by
  intro other u found
  rw [judgeBy_monitors] at found
  split at found
  · obtain ⟨v, atWork, rfl⟩ := Option.map_eq_some_iff.mp found
    exact Monitor.lasting_fed.receive admits (fed other v atWork)
  · exact fed other u found

/-- What is recorded is a judgment, and it is reported in the form that is kept. -/
theorem judged_of_record {u : Monitor} {series : String} {judgment : Judgment}
    (reported : (e.record now u series m judgment).1 = some event) :
    (judgment.status = .ok ∨ judgment.status = .problem) ∧
      ∃ step, event = DebounceTable.kept e.policy (eventOf now u series m judgment) step := by
  rw [record] at reported
  split at reported
  · rename_i judged
    exact ⟨judged, _, DebounceTable.mem_observe reported⟩
  · cases reported

theorem reports_judgeBy (fed : e.Fed admitted) (admits : admitted m) {id : Int64}
    (reported : (e.judgeBy now m id).1 = some event) : e.Reports admitted now event := by
  unfold Engine.judgeBy at reported
  cases found : e.monitors[id]? with
  | none =>
    rw [found] at reported
    cases reported
  | some u =>
    simp only [found] at reported
    split at reported
    · split at reported
      · rename_i judgment checked
        obtain ⟨judged, step, rfl⟩ := judged_of_record reported
        have calculates := (fed id u found).calculates admits checked judged
        rw [← Monitor.check_rule u m] at calculates
        exact ⟨id, u, found, (Monitor.reports_kept calculates e.policy step).of_strategy
          (Monitor.check_strategy u m).symm (Monitor.check_rule u m).symm⟩
      · cases reported
    · cases reported

theorem reports_judgeByAll (fed : e.Fed admitted) (admits : admitted m) {ids : List Int64}
    (member : event ∈ (e.judgeByAll now m ids).1) : e.Reports admitted now event := by
  induction ids generalizing e with
  | nil => cases member
  | cons id ids inductionHypothesis =>
    rw [judgeByAll_cons, List.mem_append, Option.mem_toList] at member
    rcases member with first | later
    · exact reports_judgeBy fed admits first
    · have after := fed.judgeBy admits now id
      exact (inductionHypothesis after later).of_continues (judgeBy_continues now m id) fed after

theorem Fed.judgeByAll (fed : e.Fed admitted) (admits : admitted m) (now : Instant)
    (ids : List Int64) : (e.judgeByAll now m ids).2.Fed admitted := by
  induction ids generalizing e with
  | nil => exact fed
  | cons id ids inductionHypothesis =>
    rw [judgeByAll_cons]
    exact inductionHypothesis (fed.judgeBy admits now id)

/-- Every event of a judging is reported by a monitor at work. -/
theorem reports_judge (fed : e.Fed admitted) {metrics : List Metric}
    (admits : ∀ m ∈ metrics, admitted m) (member : event ∈ (e.judge now metrics).1) :
    e.Reports admitted now event := by
  induction metrics generalizing e with
  | nil => cases member
  | cons m metrics inductionHypothesis =>
    rw [List.forall_mem_cons] at admits
    rw [judge_cons, List.mem_append] at member
    rcases member with first | later
    · exact reports_judgeByAll (e := { e with latest := max e.latest m.timestamp }) fed admits.1
        first
    · -- Later metrics meet monitors of the same strategies that the first one may have fed.
      have after : (e.judgeMetric now m).2.Fed admitted :=
        Fed.judgeByAll (e := { e with latest := max e.latest m.timestamp }) fed admits.1 now _
      exact (inductionHypothesis after admits.2 later).of_continues (judgeMetric_continues m) fed
        after

end Engine

/-! ## Reading events again -/

namespace Monitor

variable {u : Monitor} {now : Instant} {event : Event}

/-- The fields of a report come back where the threshold does, if it is among them. -/
theorem Reports.settled (reports : u.Reports admitted now event)
    (back : event.fields["threshold"]? = some (.double u.rule.threshold) →
      Json.ReadsBack u.rule.threshold) :
    ∀ entry ∈ event.fields.toList, Json.Settled Event.maxFieldDepth entry.2 := by
  intro entry member
  rcases reports.fields entry member with same | ⟨s, same⟩
  · rw [same] at member ⊢
    have found := ExtTreeMap.mem_toList_iff_getElem?_eq_some.mp member
    cases finite : u.rule.threshold.isFinite with
    | false =>
      rw [Json.ofFloat, finite]
      exact .null
    | true =>
      rw [Json.ofFloat, finite] at found ⊢
      exact .double (back found)
  · rw [same]
    exact .text s

theorem Reports.ofText?_write_iff (reports : u.Reports admitted now event)
    (regular : now.Regular) :
    Event.ofText? event.write = some event ↔
      Json.ReadsBack event.leftValue ∧
        (event.fields["threshold"]? = some (.double u.rule.threshold) →
          Json.ReadsBack u.rule.threshold) := by
  constructor
  · intro read
    obtain ⟨value, fields⟩ := Event.readsBack_of_ofText?_write read
    exact ⟨value, fields "threshold" u.rule.threshold⟩
  · rintro ⟨value, threshold⟩
    exact Event.ofText?_write value (reports.settled threshold) (reports.createdAt ▸ regular)

end Monitor

namespace Engine

/-- After any run on metrics that were decoded from JSON texts, every event of a judging is one of a
strategy at work. If its value is not finite, its lines are refused. They are decoded as the same
event just if the digits of the value are read as the same double, and those of the threshold too
where the event shows it. The value is finite if the strategy looks for a value in the window, and
also for every calculation if the magnitudes of all numbers lie between `2 ^ -480` and `2 ^ 480` or
are zero. -/
theorem judged_events_read_back (policy : DebouncePolicy) (calls : List (Instant × Call))
    (decoded : ∀ call ∈ calls, call.2.Admits fun m => ∃ t, Metric.ofTree? t = some m)
    (now : Instant) (regular : now.Regular) (metrics : List Metric)
    (decodedNow : ∀ m ∈ metrics, ∃ t, Metric.ofTree? t = some m) :
    let e := (run { policy := policy } calls).2
    ∀ event ∈ (e.judge now metrics).1, ∃ u, e.monitors[event.strategyId]? = some u ∧
      (∀ line, event.IsLine line →
        (event.leftValue.isFinite = false → Event.ofText? line = none) ∧
        (Event.ofText? line = some event ↔
          Json.ReadsBack event.leftValue ∧
            (event.fields["threshold"]? = some (.double u.rule.threshold) →
              Json.ReadsBack u.rule.threshold))) ∧
      (u.rule.function.calculation = .all ∨ u.rule.function.calculation = .atLeast →
        u.rule.transform.Has (fun x => x.isFinite) → event.leftValue.isFinite) ∧
      ((∀ call ∈ calls, call.2.Admits (Metric.Has Moderate)) →
        (∀ m ∈ metrics, m.Has Moderate) → u.rule.transform.Has Moderate →
          event.leftValue.isFinite) := by
  intro e event member
  have formed : WellFormed e := wellFormed_run (wellFormed_new policy) calls
  -- The same event is a report under any condition that all metrics meet.
  have reported {admitted : Metric → Prop} (before : ∀ call ∈ calls, call.2.Admits admitted)
      (admits : ∀ m ∈ metrics, admitted m) :
      ∃ u, e.monitors[event.strategyId]? = some u ∧ u.Reports admitted now event := by
    have fed : e.Fed admitted := (allMonitors_run Monitor.lasting_fed policy before).monitors
    obtain ⟨id, u, found, reports⟩ := reports_judge fed admits member
    rw [← formed.monitors id u found, ← reports.strategyId] at found
    exact ⟨u, found, reports⟩
  obtain ⟨u, found, reports⟩ := reported decoded decodedNow
  refine ⟨u, found, fun line isLine => ?_, fun plain own => ?_, fun before moderate own => ?_⟩
  · rw [isLine.ofText?_eq]
    exact ⟨Event.ofText?_write_of_not_isFinite, reports.ofText?_write_iff regular⟩
  · exact reports.leftValue.good_of_plain plain own fun m ⟨t, read⟩ => Metric.has_isFinite read
  · obtain ⟨v, same, reports⟩ := reported before moderate
    rw [found] at same
    cases same
    exact reports.leftValue.isFinite own fun _ has => has

/-- Two values of 95 under a strategy that looks for values above 90: the event is finite, and it is
decoded as it was. -/
theorem judged_event_of_95 :
    let s : Strategy := { id := 1, metric := "cpu", func := "all(#2)", op := ">", rightValue := 90 }
    let t : Json.Tree := .object [(some "name", .text (some "cpu")),
      (some "value", .number ⟨false, ['9', '5'], none, none⟩)]
    ∃ m, Metric.ofTree? t = some m ∧
      let e := (run {} [(.epoch, .setStrategies [s]), (.epoch, .judge [m])]).2
      ∃ event ∈ (e.judge .epoch [m]).1, event.leftValue = 95 ∧ event.leftValue.isFinite ∧
        ∀ line, event.IsLine line → Event.ofText? line = some event := by
  intro s t
  obtain ⟨m, decoded⟩ := Option.isSome_iff_exists.mp (by decide +kernel : (Metric.ofTree? t).isSome)
  have outcome : ((Metric.ofTree? t).toList.map fun m =>
      let e := (run {} [(.epoch, .setStrategies [s]), (.epoch, .judge [m])]).2
      ((e.judge .epoch [m]).1.map fun event => (event.strategyId, event.leftValue),
        (e.monitors[(1 : Int64)]?).map fun u =>
          (u.rule.threshold, u.rule.function.calculation, u.rule.transform))) =
      [([(1, 95)], some (90, .all, .select "value"))] := by
    decide +kernel
  rw [decoded, Option.toList_some, List.map_singleton, List.singleton_inj, Prod.mk.injEq,
    List.map_eq_singleton_iff] at outcome
  obtain ⟨⟨event, reported, same⟩, rules⟩ := outcome
  obtain ⟨id, value⟩ := Prod.mk.inj same
  have member : event ∈ [event] := List.mem_singleton_self event
  obtain ⟨u, found, lines, finite, -⟩ := judged_events_read_back {}
    [(.epoch, .setStrategies [s]), (.epoch, .judge [m])]
    (by simpa [Call.Admits] using ⟨t, decoded⟩) .epoch (by decide) [m]
    (by simpa using ⟨t, decoded⟩) event (reported ▸ member)
  rw [id] at found
  rw [found, Option.map_some, Option.some.injEq, Prod.mk.injEq, Prod.mk.injEq] at rules
  obtain ⟨threshold, calculation, transform⟩ := rules
  refine ⟨m, decoded, event, reported ▸ member, value,
    finite (.inl calculation) (transform ▸ trivial), fun line isLine =>
      (lines line isLine).2.mpr ⟨?_, fun _ => ?_⟩⟩
  · rw [value]
    decide +kernel
  · rw [threshold]
    decide +kernel

/-- The average of 1e308 and 1e308 is calculated from their sum, which is beyond the doubles: the
event is not finite, and no line of it is an event. -/
theorem judged_event_of_overflow :
    let s : Strategy := { id := 1, metric := "cpu", func := "avg(#2)", op := ">", rightValue := 90 }
    let t : Json.Tree := .object [(some "name", .text (some "cpu")),
      (some "value", .number ⟨false, ['1'], none, some 308⟩)]
    ∃ m, Metric.ofTree? t = some m ∧ m.value.isFinite ∧
      let e := (run {} [(.epoch, .setStrategies [s]), (.epoch, .judge [m])]).2
      ∃ event ∈ (e.judge .epoch [m]).1, event.leftValue.isFinite = false ∧
        ∀ line, event.IsLine line → Event.ofText? line = none := by
  intro s t
  obtain ⟨m, decoded⟩ := Option.isSome_iff_exists.mp (by decide +kernel : (Metric.ofTree? t).isSome)
  have values : ((Metric.ofTree? t).toList.flatMap fun m =>
      let e := (run {} [(.epoch, .setStrategies [s]), (.epoch, .judge [m])]).2
      (e.judge .epoch [m]).1.map fun event => event.leftValue.isFinite) = [false] := by
    decide +kernel
  rw [decoded, Option.toList_some, List.flatMap_singleton, List.map_eq_singleton_iff] at values
  obtain ⟨event, reported, infinite⟩ := values
  exact ⟨m, decoded, (Metric.has_isFinite decoded).value, event,
    reported ▸ List.mem_singleton_self event, infinite, fun line isLine =>
      isLine.ofText?_eq.trans (Event.ofText?_write_of_not_isFinite infinite)⟩

end Engine

end AlertEngine
