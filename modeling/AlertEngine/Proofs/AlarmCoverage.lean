import AlertEngine.Proofs.DispatchIndex
import AlertEngine.Proofs.Ownership

/-! # Alarms and the strategies that cover them

The alarm of a series ends by a sample that its strategy finds in order, which needs a strategy that
still accepts the samples of the series. A set of strategies that comes in closes the alarms of the
ids that it drops. It keeps the alarms of an id that stays, although the strategy under it may have
changed to one that is about other series.

* `Event.subject`: the series of an event, as a metric; `Event.Shows`: alarms carry all of it.
* `judge_alarm_cases`: a judging brings into alarm only series that are covered.
* `Uncovers`: a set changes a strategy that covers an alarm to one that does not.
* `covers_perform`, `uncovers_of_perform`: nothing else takes an alarm from what covers it.
* `Uncovers.leaves_alarm`: such a set leaves the alarm as it is, and says nothing about it.
* `alarms_after_reload`: all alarms after a set has come in; `alarm_of_renamed_metric`: one that is
  covered no more.
-/

namespace AlertEngine

open DebounceTable (Records Action kept)

/-! ## The series of an event -/

def Event.subject (entry : Event) : Metric :=
  { name := entry.metric, tags := entry.tags, endpoint := entry.endpoint }

/-- An event shows the name, the endpoint and all tags of a metric of a series. -/
def Event.Shows (entry : Event) (series : String) : Prop :=
  ∃ m : Metric, m.identity = series ∧ entry.metric = m.name ∧ entry.endpoint = m.endpoint ∧
    entry.tags = m.resolvedTags

/-- An alarm is kept as it is. -/
theorem DebounceTable.kept_of_problem {policy : DebouncePolicy} {e : Event} {step : UInt32}
    (alarm : e.status = .problem) : kept policy e step = { e with step := step } := by
  simp [kept, alarm]

/-- Monitors tell metrics apart by their names and their tags, the endpoint among them. -/
theorem Monitor.accepts_subject {u : Monitor} {m : Metric} {entry : Event}
    (name : entry.metric = m.name) (endpoint : entry.endpoint = m.endpoint)
    (tags : entry.tags = m.resolvedTags) : u.accepts entry.subject = u.accepts m := by
  have resolved : entry.subject.resolvedTags = m.resolvedTags := by
    apply Std.ExtTreeMap.ext_getElem?
    intro key
    simp only [Metric.resolvedTags, Event.subject, tags, endpoint, Std.ExtTreeMap.getElem?_insert]
    split <;> rfl
  rw [accepts, accepts, resolved, Event.subject, name]

theorem Monitor.accepts_foldl_receive (u : Monitor) (metrics : List Metric) (n : Metric) :
    (metrics.foldl receive u).accepts n = u.accepts n := by
  induction metrics generalizing u with
  | nil => rfl
  | cons m metrics inductionHypothesis =>
    rw [List.foldl_cons, inductionHypothesis, receive]
    split
    · exact u.accepts_check m n
    · rfl

namespace Engine

variable {e : Engine} {now : Instant} {call : Call} {i : Int64} {series : String} {entry : Event}
  {u : Monitor} {m : Metric} {strategies : List Strategy}

def covers (e : Engine) (i : Int64) (entry : Event) : Bool := e.acceptedBy entry.subject i

/-! ## Judging -/

theorem covers_judgeBy (id : Int64) : (e.judgeBy now m id).2.covers i entry = e.covers i entry :=
  e.acceptedBy_judgeBy now m entry.subject id i

/-- An alarm after a metric has been judged by one monitor was there before, or it is of a series
that the monitor accepts. -/
theorem judgeBy_alarm_cases (formed : WellFormed e) {id : Int64}
    (found : (e.judgeBy now m id).2.table.get? (idStart i ++ series) = some entry)
    (alarm : entry.status = .problem) :
    e.table.get? (idStart i ++ series) = some entry ∨
      e.covers i entry = true ∧ entry.Shows series := by
  cases accepted : e.acceptedBy m id with
  | false =>
    rw [judgeBy_of_not_accepted accepted] at found
    exact .inl found
  | true =>
    obtain ⟨u, atWork, accepts⟩ := acceptedBy_iff.mp accepted
    rcases judgeBy_cases e now m id with same | ⟨v, held, advanced | ⟨judgment, _, observed⟩⟩
    · rw [same] at found
      exact .inl found
    · rw [advanced] at found
      exact .inl found
    · rw [atWork, Option.some.injEq] at held
      subst held
      rw [observed] at found
      let after := (u.checkSeries m.identity m).2
      let event := eventOf now after m.identity m judgment
      by_cases own : idStart i ++ series = event.id
      · rw [own, DebounceTable.get?_observe_self, Option.some.injEq] at found
        rw [← found, DebounceTable.kept_status] at alarm
        rw [DebounceTable.kept_of_problem alarm] at found
        have afterId : after.id = id := by
          rw [← formed.monitors id u atWork, Monitor.id, Monitor.id, checkSeries_strategy]
        obtain ⟨ownId, rfl⟩ := idStart_append_inj.mp own
        obtain rfl : i = id := ownId.trans afterId
        subst found
        refine .inr ⟨acceptedBy_iff.mpr ⟨u, atWork, ?_⟩, m, rfl, rfl, rfl, rfl⟩
        rw [← accepts]
        exact Monitor.accepts_subject rfl rfl rfl
      · rw [DebounceTable.get?_observe_of_ne own] at found
        exact .inl found

theorem judgeByAll_alarm_cases (formed : WellFormed e) {ids : List Int64}
    (found : (e.judgeByAll now m ids).2.table.get? (idStart i ++ series) = some entry)
    (alarm : entry.status = .problem) :
    e.table.get? (idStart i ++ series) = some entry ∨
      e.covers i entry = true ∧ entry.Shows series := by
  induction ids generalizing e with
  | nil => exact .inl found
  | cons id ids inductionHypothesis =>
    rw [judgeByAll_cons] at found
    cases inductionHypothesis (wellFormed_judgeBy formed now m id) found with
    | inl earlier => exact judgeBy_alarm_cases formed earlier alarm
    | inr covered =>
      rw [covers_judgeBy] at covered
      exact .inr covered

theorem covers_judge (formed : WellFormed e) (metrics : List Metric) :
    (e.judge now metrics).2.covers i entry = e.covers i entry := by
  rw [covers, acceptedBy, judge_monitors formed, Option.any_map, covers, acceptedBy]
  congr 1
  funext u
  exact u.accepts_foldl_receive metrics entry.subject

/-- A judging brings into alarm only series that the monitor of their id accepts. -/
theorem judge_alarm_cases (formed : WellFormed e) {metrics : List Metric}
    (found : (e.judge now metrics).2.table.get? (idStart i ++ series) = some entry)
    (alarm : entry.status = .problem) :
    e.table.get? (idStart i ++ series) = some entry ∨
      e.covers i entry = true ∧ entry.Shows series := by
  induction metrics generalizing e with
  | nil => exact .inl found
  | cons m metrics inductionHypothesis =>
    rw [judge_cons] at found
    have after : WellFormed (e.judgeMetric now m).2 := wellFormed_perform formed (.judge [m])
    cases inductionHypothesis after found with
    | inl earlier =>
      exact judgeByAll_alarm_cases (e := { e with latest := max e.latest m.timestamp })
        (formed.of_continues ⟨fun _ => rfl, rfl⟩ formed.table) earlier alarm
    | inr covered =>
      have same : (e.judgeMetric now m).2.covers i entry = e.covers i entry :=
        covers_judge formed [m]
      rw [same] at covered
      exact .inr covered

/-! ## Calls -/

theorem covers_perform (formed : WellFormed e)
    (other : ∀ strategies, call ≠ .setStrategies strategies) :
    (e.perform now call).2.covers i entry = e.covers i entry := by
  cases call with
  | judge metrics => exact covers_judge formed metrics
  | setStrategies strategies => exact absurd rfl (other strategies)
  | setComposites strategies => rfl
  | scan => rfl
  | evictIdle cutoff =>
    rw [perform, covers, acceptedBy, evictIdle, Std.ExtTreeMap.getElem?_map, Option.any_map]
    rfl

/-- Only a judging brings a series into alarm, and only one that is covered. -/
theorem perform_alarm_cases (formed : WellFormed e)
    (found : (e.perform now call).2.table.get? (idStart i ++ series) = some entry)
    (alarm : entry.status = .problem) :
    e.table.get? (idStart i ++ series) = some entry ∨
      (∃ metrics, call = .judge metrics) ∧ e.covers i entry = true ∧ entry.Shows series := by
  cases call with
  | judge metrics =>
    exact (judge_alarm_cases formed found alarm).imp_right fun covered => ⟨⟨metrics, rfl⟩, covered⟩
  | setStrategies strategies =>
    exact .inl ((closesGone_setStrategies formed.table now strategies).earlier found)
  | setComposites strategies =>
    exact .inl ((closesGone_setComposites formed.table now strategies).earlier found)
  | scan =>
    have records : Records
        (Action.Observes fun event => ∃ j group, event.id = Composite.idStart j ++ group) e.policy
        e.table ((e.scan now).1, (e.scan now).2.table) :=
      scan_records fun _ c _ key _ _ => ⟨c.id, key, rfl⟩
    cases records.get?_cases found with
    | inl earlier => exact .inl earlier
    | inr observed =>
      obtain ⟨event, _, ⟨j, group, named⟩, own, _⟩ := observed
      exact absurd (named.symm.trans own) (composite_idStart_append_ne j i group series)
  | evictIdle cutoff => exact .inl found

/-- A set changes the strategy of an id, which covers the series of an event, to one that does
not. -/
def Uncovers (e : Engine) (strategies : List Strategy) (i : Int64) (entry : Event) : Prop :=
  e.covers i entry = true ∧
    ∃ u s fresh, e.monitors[i]? = some u ∧
      StrategyKind.plain.lastReadable? strategies i = some s ∧ (u.strategy == s) = false ∧
      Monitor.ofStrategy s = .ok fresh ∧ fresh.accepts entry.subject = false

/-- A set that comes in takes an alarm from what is covered only if it changes the strategy. -/
theorem uncovers_of_setStrategies (formed : WellFormed e) (registered : Registered e)
    (found : (e.setStrategies now strategies).2.table.get? (idStart i ++ series) = some entry)
    (covered : e.covers i entry = true)
    (uncovered : (e.setStrategies now strategies).2.covers i entry = false) :
    e.Uncovers strategies i entry := by
  obtain ⟨u, atWork, accepts⟩ := acceptedBy_iff.mp covered
  have stays : i ∈ reconcile e.monitors strategies := by
    by_contra leaves
    exact (closesGone_setStrategies formed.table now strategies).stays found
      ⟨mem_iff_exists_getElem?.mpr ⟨u, atWork⟩, leaves⟩
  obtain ⟨next, foundNext⟩ := mem_iff_exists_getElem?.mp stays
  have refuses : next.accepts entry.subject = false := by
    rw [covers, acceptedBy, setStrategies, foundNext, Option.any_some] at uncovered
    exact uncovered
  rw [reconcile_eq] at foundNext
  obtain ⟨s, last, origin⟩ :=
    StrategyKind.reconcile_cases StrategyKind.lawful_plain registered.monitors foundNext
  cases origin with
  | inl kept =>
    rw [atWork, Option.some.injEq] at kept
    rw [← kept.1, accepts] at refuses
    cases refuses
  | inr made =>
    obtain ⟨made, _, differs⟩ := made
    exact ⟨covered, u, s, next, atWork, last, differs u atWork, made, refuses⟩

/-- No other call takes an alarm from what is covered. -/
theorem uncovers_of_perform (formed : WellFormed e) (registered : Registered e)
    (alarm : entry.status = .problem)
    (held : e.table.get? (idStart i ++ series) = some entry → e.covers i entry = true)
    (found : (e.perform now call).2.table.get? (idStart i ++ series) = some entry)
    (uncovered : (e.perform now call).2.covers i entry = false) :
    ∃ strategies, call = .setStrategies strategies ∧
      e.table.get? (idStart i ++ series) = some entry ∧ e.Uncovers strategies i entry := by
  have covered : e.covers i entry = true :=
    (perform_alarm_cases formed found alarm).elim held fun judged => judged.2.1
  by_cases comes : ∃ strategies, call = .setStrategies strategies
  · obtain ⟨strategies, rfl⟩ := comes
    exact ⟨strategies, rfl, (closesGone_setStrategies formed.table now strategies).earlier found,
      uncovers_of_setStrategies formed registered found covered uncovered⟩
  · rw [not_exists] at comes
    rw [covers_perform formed comes, covered] at uncovered
    cases uncovered

/-- A set that uncovers the series of an entry leaves the entry as it is, and reports nothing under
its id. -/
theorem Uncovers.leaves_alarm (uncovers : e.Uncovers strategies i entry) (formed : WellFormed e)
    (registered : Registered e) (now : Instant)
    (found : e.table.get? (idStart i ++ series) = some entry) :
    let result := e.setStrategies now strategies
    result.2.table.get? (idStart i ++ series) = some entry ∧
      i ∈ result.2.monitors ∧ result.2.covers i entry = false ∧
        ∀ event ∈ result.1, event.id ≠ idStart i ++ series := by
  intro result
  obtain ⟨_, u, s, fresh, atWork, last, changed, made, refuses⟩ := uncovers
  have registeredNow : result.2.monitors[i]? = some fresh := by
    change (reconcile e.monitors strategies)[i]? = some fresh
    rw [reconcile_eq]
    exact StrategyKind.reconcile_of_changed StrategyKind.lawful_plain registered.monitors atWork
      last changed made
  have present : i ∈ result.2.monitors := mem_iff_exists_getElem?.mpr ⟨fresh, registeredNow⟩
  have closes := closesGone_setStrategies formed.table now strategies
  refine ⟨?_, present, ?_, ?_⟩
  · rw [← found]
    exact closes.kept i series fun goes => goes.2 present
  · rw [covers, acceptedBy, registeredNow, Option.any_some]
    exact refuses
  · intro event reported same
    obtain ⟨j, rest, closed, goes, there, _, rfl⟩ := (closes.closed event).mp reported
    have own : closed.id = idStart j ++ rest := formed.table _ _ there
    obtain ⟨rfl, _⟩ := idStart_append_inj.mp (own.symm.trans same)
    exact goes.2 present

/-! ## Runs -/

def AlarmsShown (e : Engine) : Prop :=
  ∀ i series entry, e.table.get? (idStart i ++ series) = some entry → entry.status = .problem →
    entry.Shows series

theorem alarmsShown_perform (formed : WellFormed e) (shown : AlarmsShown e) (now : Instant)
    (call : Call) : AlarmsShown (e.perform now call).2 := by
  intro i series entry found alarm
  cases perform_alarm_cases formed found alarm with
  | inl earlier => exact shown i series entry earlier alarm
  | inr judged => exact judged.2.2

theorem alarmsShown_run (policy : DebouncePolicy) (calls : List (Instant × Call)) :
    AlarmsShown (run { policy := policy } calls).2 := by
  have start : AlarmsShown { policy := policy } := by
    intro i series entry found
    rw [DebounceTable.get?_empty] at found
    cases found
  have kept := run_invariant (P := fun e => WellFormed e ∧ AlarmsShown e)
    (fun _ now call kept =>
      ⟨wellFormed_perform kept.1 call, alarmsShown_perform kept.1 kept.2 now call⟩)
    ⟨wellFormed_new policy, start⟩ calls
  exact kept.2

/-- A set of a run has uncovered the series of an entry, without a word about it. The same entry
stays since then, and no monitor covers it. -/
def UncoveredDuring (policy : DebouncePolicy) (calls : List (Instant × Call)) (i : Int64)
    (series : String) (entry : Event) : Prop :=
  ∃ before moment strategies after,
    calls = before ++ (moment, .setStrategies strategies) :: after ∧
      let earlier := (run { policy := policy } before).2
      earlier.table.get? (idStart i ++ series) = some entry ∧
      earlier.Uncovers strategies i entry ∧
      (∀ event ∈ (earlier.setStrategies moment strategies).1, event.id ≠ idStart i ++ series) ∧
      ∀ later, later <+: after →
        let since := (run { policy := policy }
          (before ++ (moment, .setStrategies strategies) :: later)).2
        since.table.get? (idStart i ++ series) = some entry ∧ since.covers i entry = false

/-- After any run, the series of an alarm is covered, unless some set of the run has uncovered
it. -/
theorem covers_or_uncovered (policy : DebouncePolicy) (calls : List (Instant × Call))
    (found : (run { policy := policy } calls).2.table.get? (idStart i ++ series) = some entry)
    (alarm : entry.status = .problem) :
    (run { policy := policy } calls).2.covers i entry = true ∨
      UncoveredDuring policy calls i series entry := by
  let Held (e : Engine) : Prop :=
    e.table.get? (idStart i ++ series) = some entry → e.covers i entry = true
  have start : Held { policy := policy } := by
    intro present
    rw [DebounceTable.get?_empty] at present
    cases present
  cases holds_or_ended start calls with
  | inl held => exact .inl (held found)
  | inr ended =>
    obtain ⟨before, ⟨moment, call⟩, after, rfl, held, since⟩ := ended
    have formed : WellFormed (run { policy := policy } before).2 :=
      wellFormed_run (wellFormed_new policy) before
    have registered : Registered (run { policy := policy } before).2 :=
      registered_run (registered_new policy) before
    have lost (later : List (Instant × Call)) (isStart : later <+: after) :
        (run { policy := policy } (before ++ (moment, call) :: later)).2.table.get?
            (idStart i ++ series) = some entry ∧
          (run { policy := policy } (before ++ (moment, call) :: later)).2.covers i entry =
            false := by
      have ended := since later isStart
      rwa [Classical.not_imp, Bool.not_eq_true] at ended
    obtain ⟨present, uncovered⟩ := lost [] List.nil_prefix
    rw [run_snoc] at present uncovered
    obtain ⟨strategies, rfl, earlier, uncovers⟩ :=
      uncovers_of_perform formed registered alarm held present uncovered
    have silent := (uncovers.leaves_alarm formed registered moment earlier).2.2.2
    exact .inr ⟨before, moment, strategies, after, rfl, earlier, uncovers, silent, lost⟩

/-- After any run and a set that comes in then, each alarm of a strategy is one from before, just as
it was. Its strategy is at work, and the alarm shows a metric of its series, name, endpoint and all
tags. The monitor at work accepts such a metric, unless a set has uncovered the series: this one or
an earlier one, and none has covered it again. A set that uncovers the series of an entry leaves the
entry and reports nothing under its id; what a set removes and reports as closed are the entries of
the ids that it drops. -/
theorem alarms_after_reload (policy : DebouncePolicy) (calls : List (Instant × Call))
    (now : Instant) (strategies : List Strategy) :
    let e := (run { policy := policy } calls).2
    let result := e.setStrategies now strategies
    (∀ i series entry, result.2.table.get? (idStart i ++ series) = some entry →
      entry.status = .problem →
        e.table.get? (idStart i ++ series) = some entry ∧ i ∈ result.2.monitors ∧
        entry.Shows series ∧
        (result.2.covers i entry = true ∨
          UncoveredDuring policy (calls ++ [(now, .setStrategies strategies)]) i series entry)) ∧
    (∀ i series entry, e.table.get? (idStart i ++ series) = some entry →
      e.Uncovers strategies i entry →
        result.2.table.get? (idStart i ++ series) = some entry ∧ i ∈ result.2.monitors ∧
        result.2.covers i entry = false ∧ ∀ event ∈ result.1, event.id ≠ idStart i ++ series) ∧
    ClosesGone idStart (fun i => i ∈ e.monitors ∧ i ∉ result.2.monitors) now e.table result.1
      result.2.table := by
  intro e result
  have formed : WellFormed e := wellFormed_run (wellFormed_new policy) calls
  have registered : Registered e := registered_run (registered_new policy) calls
  have owned : AllOwned e :=
    owned_run (wellFormed_new policy) (registered_new policy) (allOwned_new policy) calls
  have closes := closesGone_setStrategies formed.table now strategies
  have last : (run { policy := policy } (calls ++ [(now, .setStrategies strategies)])).2 =
      result.2 :=
    run_snoc calls (now, .setStrategies strategies)
  refine ⟨fun i series entry found alarm => ?_, fun i series entry found uncovers => ?_, closes⟩
  · have earlier := closes.earlier found
    have atWork : i ∈ result.2.monitors := by
      cases owned_perform formed registered owned now (.setStrategies strategies) _ _ found with
      | inl plain =>
        obtain ⟨j, rest, named, atWork, _⟩ := plain
        rw [(idStart_append_inj.mp named).1]
        exact atWork
      | inr composite =>
        obtain ⟨j, group, named, _⟩ := composite
        exact absurd named.symm (composite_idStart_append_ne j i group series)
    refine ⟨earlier, atWork, alarmsShown_run policy calls i series entry earlier alarm, ?_⟩
    rw [← last] at found ⊢
    exact covers_or_uncovered policy _ found alarm
  · exact uncovers.leaves_alarm formed registered now found

/-- The strategy of an alarm is given to another metric under its id: the set that does so reports
nothing, the alarm stays, and the monitor at work accepts no metric of its series. -/
theorem alarm_of_renamed_metric :
    let strategy (metric : String) : Strategy :=
      { id := 1, metric := metric, func := "all(#1)", op := ">", rightValue := 90 }
    let cpu : Metric := { name := "cpu", value := 95, timestamp := 1 }
    let calls : List (Instant × Call) :=
      [(.epoch, .setStrategies [strategy "cpu"]), (.epoch, .judge [cpu])]
    let result := (run {} calls).2.setStrategies .epoch [strategy "mem"]
    result.1.isEmpty = true ∧ 1 ∈ result.2.monitors ∧
      ∃ entry, result.2.table.get? (idStart 1 ++ cpu.identity) = some entry ∧
        entry.status = .problem ∧ result.2.covers 1 entry = false := by
  intro strategy cpu calls result
  have left : (result.2.table.get? (idStart 1 ++ cpu.identity)).any (fun entry =>
      entry.status = .problem ∧ result.2.covers 1 entry = false) = true := by
    decide +kernel
  obtain ⟨entry, found, lost⟩ := (Option.any_eq_true _ _).mp left
  exact ⟨by decide +kernel, by decide +kernel, entry, found, of_decide_eq_true lost⟩

/-- With another tag filter the strategy is about other hosts; the set that brings it in is what has
uncovered the alarm. -/
theorem alarm_of_other_host :
    let strategy (tags : String) : Strategy :=
      { id := 1, metric := "cpu", func := "all(#1)", tags := tags, op := ">", rightValue := 90 }
    let cpu : Metric :=
      { name := "cpu", value := 95, tags := Dictionary.ofEntries [("host", "a")], timestamp := 1 }
    let calls : List (Instant × Call) :=
      [(.epoch, .setStrategies [strategy "host=a"]), (.epoch, .judge [cpu])]
    ∃ entry : Event, entry.status = .problem ∧
      UncoveredDuring {} (calls ++ [(.epoch, .setStrategies [strategy "host=b"])]) 1 cpu.identity
        entry := by
  intro strategy cpu calls
  have left : (((run {} calls).2.setStrategies .epoch [strategy "host=b"]).2.table.get?
      (idStart 1 ++ cpu.identity)).any (fun entry => entry.status = .problem ∧
        ((run {} calls).2.setStrategies .epoch [strategy "host=b"]).2.covers 1 entry = false) =
      true := by
    decide +kernel
  obtain ⟨entry, found, lost⟩ := (Option.any_eq_true _ _).mp left
  obtain ⟨alarm, uncovered⟩ := of_decide_eq_true lost
  obtain ⟨alarms, _⟩ := alarms_after_reload {} calls .epoch [strategy "host=b"]
  obtain ⟨_, _, _, coverage⟩ := alarms 1 cpu.identity entry found alarm
  refine ⟨entry, alarm, coverage.resolve_left ?_⟩
  rw [uncovered]
  exact Bool.false_ne_true

end Engine

end AlertEngine
