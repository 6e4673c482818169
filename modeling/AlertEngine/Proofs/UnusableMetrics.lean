import AlertEngine.Proofs.CalculationFaults
import AlertEngine.Proofs.DispatchIndex
import AlertEngine.Proofs.Isolation
import AlertEngine.Proofs.SeriesIdentity

/-! # Metrics of no use

A metric is of no use to a monitor if its value cannot be found, or if its series has a newer
sample. The first is noticed before the window of the series is looked up, the second by the window
itself. Neither leaves anything behind, however many monitors and rules of composites turn the
metric away. A fault of a calculation comes later, when the sample is in its window already, and
that window is all that it changes.

* `Monitor.TurnsAway`, `Engine.Unusable`: a metric of no use to a monitor, and to all that would
  check it.
* `Monitor.AlikeBeside`: monitors that differ in the window of one series at most.
* `judgeBy_of_turnsAway`, `feed_of_turnsAway`: nothing happens to a metric that is turned away.
* `judgeBy_of_fault`, `check_of_fault`: what is left of a check that fails.
* `judge_with_composites`: the rules of composites have no part in events and table.
* `Engine.unusable_changes_nothing`: all of this, after any run.
-/

namespace AlertEngine

open Std (ExtTreeMap)

variable {m : Metric} {fault : JudgeError}

/-! ## Monitors -/

namespace Monitor

variable {u v : Monitor} {series : String}

inductive TurnsAway (u : Monitor) (m : Metric) : Prop
  /-- The value that the rule asks for cannot be found. -/
  | valueless {fault : JudgeError} (failed : u.rule.transform.apply m = .error fault)
  /-- A newer sample of the series is in its window. -/
  | late {w : SlidingWindow} {newest : Sample} (held : u.windows[m.identity]? = some w)
      (last : w.newest? = some newest) (older : m.timestamp < newest.timestamp)

structure AlikeBeside (series : String) (u v : Monitor) : Prop where
  strategy : v.strategy = u.strategy
  rule : v.rule = u.rule
  windows : ∀ other, other ≠ series → v.windows[other]? = u.windows[other]?

theorem turnsAway_iff :
    u.TurnsAway m ↔
      (u.rule.transform.apply m).isOk = false ∨
        ((u.windows[m.identity]?).bind SlidingWindow.newest?).any
          (fun newest => decide (m.timestamp < newest.timestamp)) = true := by
  constructor
  · intro away
    cases away with
    | valueless failed => simp [failed, Except.isOk, Except.toBool]
    | late held last older => simp [held, last, older]
  · rintro (failed | older)
    · cases found : u.rule.transform.apply m with
      | error fault => exact .valueless found
      | ok value => simp [found, Except.isOk, Except.toBool] at failed
    · simp only [Option.any_eq_true, Option.bind_eq_some_iff, decide_eq_true_eq] at older
      obtain ⟨newest, ⟨w, held, last⟩, older⟩ := older
      exact .late held last older

instance : Decidable (u.TurnsAway m) := decidable_of_iff _ turnsAway_iff.symm

/-- A metric that is turned away leaves the monitor as it is, and no judgment comes of it. -/
theorem TurnsAway.check (away : u.TurnsAway m) :
    (u.check m).2 = u ∧ ∀ judgment, (u.check m).1 = .ok judgment → judgment.status = .ignored := by
  cases away with
  | valueless failed => simp [Monitor.check, checkSeries, failed]
  | @late w newest held last older =>
    cases found : u.rule.transform.apply m with
    | error fault => simp [Monitor.check, checkSeries, found]
    | ok value =>
      -- The window is there already, so that none is opened for the sample that it refuses.
      have refused : (u.window m.identity).push? ⟨value, m.timestamp⟩ = none := by
        simp [window, held, SlidingWindow.isLate, last, older]
      simp [Monitor.check, checkSeries, found, refused]

theorem alikeBeside_check (u : Monitor) (m : Metric) :
    AlikeBeside m.identity u (u.check m).2 where
  strategy := Engine.checkSeries_strategy u m.identity m
  rule := Engine.checkSeries_rule u m.identity m
  windows _ apart := windows_checkSeries_of_ne (Ne.symm apart) u m

end Monitor

/-! ## Composites -/

namespace Composite

variable {c : Composite} {place : Nat} {sub : SubRule}

/-- A rule without a judgment of a metric leaves its own windows changed at most. -/
theorem check_of_unjudged (found : c.subs[place]? = some sub)
    (unjudged : ∀ judgment, (sub.monitor.check m).1 = .ok judgment →
      judgment.status ≠ .ok ∧ judgment.status ≠ .problem) :
    c.check place m = ((sub.monitor.check m).1, c.watched place sub m) := by
  rw [Monitor.check] at unjudged ⊢
  cases outcome : (sub.monitor.checkSeries m.identity m).1 with
  | error fault => simp only [check, found, outcome, watched]
  | ok judgment =>
    obtain ⟨calm, quiet⟩ := unjudged judgment outcome
    have recorded : (c.watched place sub m).record sub m.identity m judgment =
        c.watched place sub m := record_of_not_judged calm quiet
    simp only [check, found, outcome]
    exact congrArg (Prod.mk _) recorded

theorem check_of_fault (found : c.subs[place]? = some sub)
    (failed : (sub.monitor.check m).1 = .error fault) :
    c.check place m = (.error fault, c.watched place sub m) := by
  rw [check_of_unjudged found (by simp [failed]), failed]

theorem check_of_turnsAway (found : c.subs[place]? = some sub)
    (away : sub.monitor.TurnsAway m) : (c.check place m).2 = c := by
  obtain ⟨same, ignored⟩ := away.check
  have unjudged : ∀ judgment, (sub.monitor.check m).1 = .ok judgment →
      judgment.status ≠ .ok ∧ judgment.status ≠ .problem := by
    intro judgment outcome
    simp [ignored judgment outcome]
  rw [check_of_unjudged found unjudged]
  obtain ⟨inside, rfl⟩ := List.getElem?_eq_some_iff.mp found
  rw [Monitor.check] at same
  simp only [watched, same]
  exact congrArg (fun subs => { c with subs := subs }) (List.set_getElem_self inside)

theorem feed_of_accept? {c : Composite} {place : Nat} (accepted : c.accept? m = some place) :
    c.feed m = (c.check place m).2 := by
  rw [feed, accepted]

/-- A metric that the first rule to accept it turns away changes nothing. -/
theorem feed_of_turnsAway
    (away : ∀ (place : Nat) (sub : SubRule), c.accept? m = some place →
      c.subs[place]? = some sub → sub.monitor.TurnsAway m) : c.feed m = c := by
  cases accepted : c.accept? m with
  | none => rw [feed, accepted]
  | some place =>
    rw [feed_of_accept? accepted]
    cases found : c.subs[place]? with
    | none => rw [check, found]
    | some sub => exact check_of_turnsAway found (away place sub accepted found)

end Composite

namespace Engine

variable {e : Engine} {now : Instant} {id other : Int64} {u : Monitor}

/-! ## Metrics of no use -/

/-- A metric that is of no use to any monitor that accepts it, nor to the first rule of a composite
that does. -/
structure Unusable (e : Engine) (m : Metric) : Prop where
  monitors : ∀ (id : Int64) (u : Monitor), e.monitors[id]? = some u → u.accepts m = true →
    u.TurnsAway m
  rules : ∀ (id : Int64) (c : Composite), e.composites[id]? = some c →
    ∀ (place : Nat) (sub : SubRule), c.accept? m = some place → c.subs[place]? = some sub →
      sub.monitor.TurnsAway m

theorem unusable_iff :
    Unusable e m ↔
      (∀ entry ∈ e.monitors.toList, entry.2.accepts m = true → entry.2.TurnsAway m) ∧
        ∀ entry ∈ e.composites.toList, ∀ place ∈ entry.2.accept? m, ∀ sub ∈ entry.2.subs[place]?,
          sub.monitor.TurnsAway m := by
  simp only [Prod.forall, ExtTreeMap.mem_toList_iff_getElem?_eq_some, Option.mem_def]
  constructor
  · intro unusable
    exact ⟨unusable.monitors, fun id c atWork place accepted sub found =>
      unusable.rules id c atWork place sub accepted found⟩
  · rintro ⟨monitors, rules⟩
    exact ⟨monitors, fun id c atWork place sub accepted found =>
      rules id c atWork place accepted sub found⟩

instance : Decidable (Unusable e m) := decidable_of_iff _ unusable_iff.symm

theorem judgeBy_of_turnsAway
    (away : ∀ u : Monitor, e.monitors[id]? = some u → u.accepts m = true → u.TurnsAway m) :
    e.judgeBy now m id = (none, e) := by
  unfold judgeBy
  cases found : e.monitors[id]? with
  | none => rfl
  | some u =>
    cases accepted : u.accepts m with
    | false => simp [accepted]
    | true =>
      obtain ⟨same, ignored⟩ := (away u found accepted).check
      rw [Monitor.check] at same ignored
      have monitors : e.monitors.insert id u = e.monitors := by
        apply ExtTreeMap.ext_getElem?
        intro other
        rw [ExtTreeMap.getElem?_insert]
        split
        · rename_i own
          rw [← Std.compare_eq_iff_eq.mp own, found]
        · rfl
      cases outcome : (u.checkSeries m.identity m).1 with
      | error fault => simp [accepted, same, outcome, monitors]
      | ok judgment => simp [accepted, same, outcome, monitors, record, ignored judgment outcome]

theorem judgeByAll_of_turnsAway
    (away : ∀ (id : Int64) (u : Monitor), e.monitors[id]? = some u → u.accepts m = true →
      u.TurnsAway m) (ids : List Int64) : e.judgeByAll now m ids = ([], e) := by
  induction ids with
  | nil => rfl
  | cons id ids inductionHypothesis =>
    rw [judgeByAll_cons, judgeBy_of_turnsAway (away id), inductionHypothesis]
    rfl

theorem judge_singleton (e : Engine) (now : Instant) (m : Metric) :
    e.judge now [m] = e.judgeMetric now m := by
  rw [judge_cons, judge, List.append_nil]

theorem Unusable.judge (unusable : Unusable e m) (now : Instant) :
    e.judge now [m] = ([], { e with latest := max e.latest m.timestamp }) := by
  let started : Engine := { e with latest := max e.latest m.timestamp }
  have monitors : started.judgeByAll now m (started.candidates m.name) = ([], started) :=
    judgeByAll_of_turnsAway (e := started) unusable.monitors _
  have composites : (e.composites.map fun _ c => c.feed m) = e.composites := by
    apply ExtTreeMap.ext_getElem?
    intro id
    rw [ExtTreeMap.getElem?_map]
    cases found : e.composites[id]? with
    | none => rfl
    | some c => rw [Option.map_some, Composite.feed_of_turnsAway (unusable.rules id c found)]
  rw [judge_singleton, judgeMetric, monitors]
  exact congrArg (fun composites => ([], { started with composites := composites })) composites

/-! ## Faults -/

theorem judgeBy_of_fault (found : e.monitors[id]? = some u) (accepted : u.accepts m = true)
    (failed : (u.check m).1 = .error fault) :
    e.judgeBy now m id = (none, { e with monitors := e.monitors.insert id (u.check m).2 }) := by
  rw [Monitor.check] at failed
  simp [judgeBy, found, accepted, failed, Monitor.check]

/-- After a check that fails, nothing is reported about the strategy, its last events are as they
were, and its monitor is as the check has left it. -/
theorem judge_of_fault (formed : WellFormed e) (now : Instant) (found : e.monitors[id]? = some u)
    (accepted : u.accepts m = true) (failed : (u.check m).1 = .error fault) :
    (e.judge now [m]).2.monitors[id]? = some (u.check m).2 ∧
      ∀ series, reportsOf (seriesId id series) (e.judge now [m]).1 = [] ∧
        (e.judge now [m]).2.table.lastOf (seriesId id series) =
          e.table.lastOf (seriesId id series) := by
  rw [judge_singleton]
  constructor
  · rw [judgeMetric_monitors formed, found, Option.map_some, Monitor.receive, if_pos accepted]
  · intro series
    have whole : seen id series (e.judgeMetric now m) =
        seen id series (listed (e.judgeBy now m id)) := judgeMetric_seen formed m
    rw [judgeBy_of_fault found accepted failed] at whole
    exact ⟨congrArg Prod.fst whole, congrArg (fun outcome => outcome.2.last) whole⟩

/-! ## Composites -/

theorem judgeBy_with_composites (composites : ExtTreeMap Int64 Composite) (id : Int64) :
    ({ e with composites := composites } : Engine).judgeBy now m id =
      ((e.judgeBy now m id).1, { (e.judgeBy now m id).2 with composites := composites }) := by
  unfold judgeBy
  cases e.monitors[id]? with
  | none => rfl
  | some u =>
    cases accepted : u.accepts m with
    | false => simp [accepted]
    | true =>
      cases outcome : (u.checkSeries m.identity m).1 with
      | error fault => simp [accepted, outcome]
      | ok judgment =>
        simp only [accepted, outcome, if_true, record]
        split <;> rfl

theorem judgeByAll_with_composites (composites : ExtTreeMap Int64 Composite) (ids : List Int64) :
    ({ e with composites := composites } : Engine).judgeByAll now m ids =
      ((e.judgeByAll now m ids).1,
        { (e.judgeByAll now m ids).2 with composites := composites }) := by
  induction ids generalizing e with
  | nil => rfl
  | cons id ids inductionHypothesis =>
    rw [judgeByAll_cons, judgeBy_with_composites, inductionHypothesis, judgeByAll_cons]

/-- Events and table come of the monitors alone, whatever composites there are. -/
theorem judge_with_composites (e : Engine) (now : Instant) (m : Metric)
    (composites : ExtTreeMap Int64 Composite) :
    let other : Engine := { e with composites := composites }
    (other.judge now [m]).1 = (e.judge now [m]).1 ∧
      (other.judge now [m]).2.table = (e.judge now [m]).2.table := by
  intro other
  let started : Engine := { e with latest := max e.latest m.timestamp }
  have same : ({ started with composites := composites } : Engine).judgeByAll now m
        (e.candidates m.name) =
      ((started.judgeByAll now m (e.candidates m.name)).1,
        { (started.judgeByAll now m (e.candidates m.name)).2 with composites := composites }) :=
    judgeByAll_with_composites composites (e.candidates m.name)
  have events := congrArg Prod.fst same
  have table := congrArg (fun outcome => outcome.2.table) same
  rw [judge_singleton, judge_singleton]
  exact ⟨events, table⟩

/-! ## After a run -/

/-- In every engine that calls can lead to, a metric that is of no use to any monitor and to any
first rule of a composite changes nothing at all when it is judged: nothing is reported, and the
engine is the same but for the latest time. Whatever the metric, a check that ends with a fault of
the calculation adds to the window of its own series with that monitor or rule and to nothing else:
not to the table, not to what is reported, not to a group. The table and what is reported do not
even depend on which composites there are. -/
theorem unusable_changes_nothing (policy : DebouncePolicy) (calls : List (Instant × Call))
    (now : Instant) (m : Metric) :
    let e := (run { policy := policy } calls).2
    let result := e.judge now [m]
    (Unusable e m → result = ([], { e with latest := max e.latest m.timestamp })) ∧
    (∀ (id : Int64) (u : Monitor) fault, e.monitors[id]? = some u → u.accepts m = true →
      (u.check m).1 = .error (.calculation fault) →
      let after := (u.check m).2
      u.AlikeBeside m.identity after ∧
      e.judgeBy now m id = (none, { e with monitors := e.monitors.insert id after }) ∧
      result.2.monitors[id]? = some after ∧
      ∀ series, reportsOf (seriesId id series) result.1 = [] ∧
        result.2.table.lastOf (seriesId id series) = e.table.lastOf (seriesId id series)) ∧
    (∀ (id : Int64) (c : Composite) (place : Nat) (sub : SubRule) fault,
      e.composites[id]? = some c → c.subs[place]? = some sub →
      (sub.monitor.check m).1 = .error (.calculation fault) →
      let after := (sub.monitor.check m).2
      let next := { c with subs := c.subs.set place { sub with monitor := after } }
      sub.monitor.AlikeBeside m.identity after ∧
      c.check place m = (.error (.calculation fault), next) ∧
      (c.accept? m = some place → result.2.composites[id]? = some next)) ∧
    ∀ composites,
      let other := ({ e with composites := composites } : Engine).judge now [m]
      other.1 = result.1 ∧ other.2.table = result.2.table := by
  intro e result
  have formed : WellFormed e := wellFormed_run (wellFormed_new policy) calls
  refine ⟨fun unusable => unusable.judge now, ?_, ?_, judge_with_composites e now m⟩
  · intro id u fault found accepted failed after
    exact ⟨u.alikeBeside_check m, judgeBy_of_fault found accepted failed,
      judge_of_fault formed now found accepted failed⟩
  · intro id c place sub fault atWork found failed after next
    have checked : c.check place m = (.error (.calculation fault), next) :=
      Composite.check_of_fault found failed
    refine ⟨sub.monitor.alikeBeside_check m, checked, fun accepted => ?_⟩
    rw [judge_composites, atWork, Option.map_some, List.foldl_cons, List.foldl_nil,
      Composite.feed_of_accept? accepted, checked]

/-- A load that comes late for one strategy and for a composite and that has no latency for another
strategy; and a rate behind a zero, for a strategy and for a rule of a composite. -/
theorem late_load_and_rate_behind_zero :
    let strategies : List Strategy :=
      [{ id := 1, metric := "load", func := "all(#1)", op := ">", rightValue := 90 },
       { id := 2, metric := "load", fieldTransform := "select(latency)", func := "all(#1)",
         op := ">", rightValue := 1 },
       { id := 3, metric := "rate", func := "pdiff(#1)", op := ">", rightValue := 10 }]
    let composite : CompositeStrategy :=
      { id := 9, op := ">", rightValue := 60
        rules := ["load;select(value);all(#1);>;90;70", "rate;select(value);pdiff(#1);>;10;70"] }
    let load (timestamp : Int64) : Metric :=
      { name := "load", value := 95, timestamp := timestamp }
    let rate (timestamp : Int64) (value : Float) : Metric :=
      { name := "rate", value := value, timestamp := timestamp }
    let calls : List (Instant × Call) :=
      [(.epoch, .setStrategies strategies), (.epoch, .setComposites [composite]),
       (.epoch, .judge [load 10, rate 10 0])]
    let e := (run {} calls).2
    Unusable e (load 5) ∧
      e.judge .epoch [load 5] = ([], { e with latest := max e.latest 5 }) ∧
      (∃ u, e.monitors[(3 : Int64)]? = some u ∧ u.accepts (rate 11 5) = true ∧
        (u.check (rate 11 5)).1 = .error (.calculation (.zeroDivisor 1)) ∧
        (e.judge .epoch [rate 11 5]).2.monitors[(3 : Int64)]? = some (u.check (rate 11 5)).2) ∧
      ∃ c sub, e.composites[(9 : Int64)]? = some c ∧ c.subs[1]? = some sub ∧
        (sub.monitor.check (rate 11 5)).1 = .error (.calculation (.zeroDivisor 1)) ∧
        ∃ next, (e.judge .epoch [rate 11 5]).2.composites[(9 : Int64)]? = some next ∧
          next.groupCount = c.groupCount := by
  intro strategies composite load rate calls
  dsimp only
  have unusable : Unusable (run {} calls).2 (load 5) := by decide +kernel
  have byMonitor : ((run {} calls).2.monitors[(3 : Int64)]?).any (fun u =>
      u.accepts (rate 11 5) &&
        decide ((u.check (rate 11 5)).1 = .error (.calculation (.zeroDivisor 1)))) = true := by
    decide +kernel
  have byRule : ((run {} calls).2.composites[(9 : Int64)]?).any (fun c =>
      c.accept? (rate 11 5) == some 1 && (c.subs[1]?).any fun sub =>
        decide ((sub.monitor.check (rate 11 5)).1 = .error (.calculation (.zeroDivisor 1)))) =
      true := by
    decide +kernel
  simp only [Option.any_eq_true, Bool.and_eq_true, beq_iff_eq, decide_eq_true_eq]
    at byMonitor byRule
  obtain ⟨u, atWork, accepted, failed⟩ := byMonitor
  obtain ⟨c, compositeAtWork, chosen, sub, found, ruleFailed⟩ := byRule
  obtain ⟨idle, _⟩ := unusable_changes_nothing {} calls .epoch (load 5)
  obtain ⟨_, monitors, rules, _⟩ := unusable_changes_nothing {} calls .epoch (rate 11 5)
  obtain ⟨_, _, later, _⟩ := monitors 3 u _ atWork accepted failed
  obtain ⟨_, _, fed⟩ := rules 9 c 1 sub _ compositeAtWork found ruleFailed
  exact ⟨unusable, idle unusable, ⟨u, atWork, accepted, failed, later⟩,
    c, sub, compositeAtWork, found, ruleFailed, _, fed chosen, rfl⟩

end Engine

end AlertEngine
