import AlertEngine.Proofs.EngineRuns
import AlertEngine.Proofs.EventIds

/-! # Isolation of strategies and series

What the engine reports about a series under a strategy depends on the samples of that series and
on the entries for that strategy alone, in whatever company they come.

* `reportsOf`, `View`: the reports about one identity, and what an engine holds about one series
  under one strategy. Both leave out the times at which events were made.
* `seen`: both of these for the outcome of a call.
* The `_aside` lemmas say that work on other identities is not seen, the `_congr` lemmas that what is
  seen of the work on this one depends on the view alone.
* `Call.restrict`: the part of a call that is about a series under a strategy.
* `run_isolated`: a run and the run of the restricted calls are seen alike.
-/

namespace AlertEngine

def Event.undated (e : Event) : Event := { e with createdAt := .epoch }

def reportsOf (id : String) (events : List Event) : List Event :=
  (events.filter fun e => e.id == id).map Event.undated

theorem reportsOf_append (id : String) (events more : List Event) :
    reportsOf id (events ++ more) = reportsOf id events ++ reportsOf id more := by
  simp [reportsOf]

/-! ## The debounce table -/

namespace DebounceTable

variable {policy : DebouncePolicy} {t t₁ t₂ : DebounceTable} {id : String}

def lastOf (t : DebounceTable) (id : String) : Option Event := (t.get? id).map Event.undated

theorem stepAfter_undated (last : Option Event) (status : Status) :
    stepAfter (last.map Event.undated) status = stepAfter last status := by
  cases last <;> rfl

theorem isReported_undated (last : Option Event) (status : Status) (step : UInt32) :
    isReported policy (last.map Event.undated) status step = isReported policy last status step := by
  cases last <;> rfl

theorem kept_undated (e : Event) (step : UInt32) :
    (kept policy e step).undated = kept policy e.undated step := by
  unfold kept
  rw [apply_ite Event.undated]
  rfl

theorem stepAfter_lastOf (e : Event) :
    stepAfter (t.get? e.id) e.status = stepAfter (t.lastOf e.id) e.undated.status :=
  (stepAfter_undated _ _).symm

theorem observe_undated (e : Event) :
    (t.observe policy e).1.map Event.undated =
      let step := stepAfter (t.lastOf e.id) e.undated.status
      if isReported policy (t.lastOf e.id) e.undated.status step then
        some (kept policy e.undated step)
      else none := by
  rw [observe_fst, stepAfter_lastOf, ← isReported_undated, apply_ite (Option.map Event.undated),
    Option.map_some, kept_undated]
  rfl

theorem lastOf_observe_self (e : Event) :
    (t.observe policy e).2.lastOf e.id =
      some (kept policy e.undated (stepAfter (t.lastOf e.id) e.undated.status)) := by
  rw [lastOf, get?_observe_self, Option.map_some, kept_undated, stepAfter_lastOf]

theorem reportsOf_observe_self (e : Event) :
    reportsOf e.id (t.observe policy e).1.toList =
      ((t.observe policy e).1.map Event.undated).toList := by
  have own : (t.observe policy e).1.toList.filter (fun r => r.id == e.id) =
      (t.observe policy e).1.toList := by
    rw [List.filter_eq_self]
    intro reported member
    rw [mem_observe (Option.mem_toList.mp member), kept_id, beq_self_eq_true]
  rw [reportsOf, own, Option.toList_map]

/-- Tables with the same last event of an identity report alike on it and keep alike. -/
theorem observe_congr (policy : DebouncePolicy) {e₁ e₂ : Event} (same : e₁.undated = e₂.undated)
    (last : t₁.lastOf e₁.id = t₂.lastOf e₁.id) :
    reportsOf e₁.id (t₁.observe policy e₁).1.toList =
        reportsOf e₁.id (t₂.observe policy e₂).1.toList ∧
      (t₁.observe policy e₁).2.lastOf e₁.id = (t₂.observe policy e₂).2.lastOf e₁.id := by
  have identity : e₁.id = e₂.id := congrArg (fun e => e.id) same
  constructor
  · rw [reportsOf_observe_self, observe_undated, last, same, identity, reportsOf_observe_self,
      observe_undated]
  · rw [lastOf_observe_self, last, same, identity, lastOf_observe_self]

theorem observe_aside (t : DebounceTable) (policy : DebouncePolicy) {e : Event} (apart : e.id ≠ id) :
    reportsOf id (t.observe policy e).1.toList = [] ∧
      (t.observe policy e).2.lastOf id = t.lastOf id := by
  constructor
  · rw [reportsOf, filter_observe_of_ne apart, List.map_nil]
  · rw [lastOf, get?_observe_of_ne (Ne.symm apart), lastOf]

theorem observeAll_aside (t : DebounceTable) (policy : DebouncePolicy) {events : List Event}
    (apart : ∀ e ∈ events, e.id ≠ id) :
    reportsOf id (t.observeAll policy events).1 = [] ∧
      (t.observeAll policy events).2.lastOf id = t.lastOf id := by
  induction events generalizing t with
  | nil => exact ⟨rfl, rfl⟩
  | cons e events inductionHypothesis =>
    rw [List.forall_mem_cons] at apart
    obtain ⟨silent, kept⟩ := observe_aside t policy apart.1
    obtain ⟨restSilent, restKept⟩ := inductionHypothesis (t.observe policy e).2 apart.2
    rw [observeAll_cons, reportsOf_append, silent, restSilent]
    exact ⟨rfl, restKept.trans kept⟩

def ending (last : Option Event) : List Event :=
  (last.filter fun e => e.status.isAlarming).toList.map (closing .epoch)

theorem reportsOf_close (keyed : t.Keyed) (now : Instant) (start id : String) :
    reportsOf id (t.close now start).1 = if belongsTo start id then ending (t.lastOf id) else [] := by
  rw [reportsOf, filter_close keyed, lastOf]
  cases t.get? id with
  | none => cases belongsTo start id <;> rfl
  | some entry =>
    cases belongsTo start id with
    | false => simp
    | true =>
      cases alarming : entry.status.isAlarming with
      | false => simp [ending, Event.undated, Option.filter_some, alarming]
      | true => simp [ending, Event.undated, Option.filter_some, closing, alarming]

theorem lastOf_close (now : Instant) (start id : String) :
    (t.close now start).2.lastOf id = if belongsTo start id then none else t.lastOf id := by
  rw [lastOf, get?_close]
  split <;> rfl

end DebounceTable

namespace Engine

open DebounceTable (belongsTo ending lastOf)

/-- Of several closings, only the first that an identity belongs to is seen. -/
theorem closeAll_seen {t : DebounceTable} (keyed : t.Keyed) (now : Instant) (starts : List String)
    (id : String) :
    let closes := starts.any fun start => belongsTo start id
    reportsOf id (closeAll t now starts).1 = (if closes then ending (t.lastOf id) else []) ∧
      (closeAll t now starts).2.lastOf id = if closes then none else t.lastOf id := by
  induction starts generalizing t with
  | nil => exact ⟨rfl, rfl⟩
  | cons start starts inductionHypothesis =>
    obtain ⟨reports, last⟩ := inductionHypothesis (keyed.close now start)
    have first := DebounceTable.reportsOf_close keyed now start id
    rw [DebounceTable.lastOf_close] at reports last
    rw [closeAll_cons, reportsOf_append, first, reports, last, List.any_cons]
    cases belongsTo start id with
    | false => simp
    | true => simp [ending]

/-! ## Views -/

def seriesId (k : Int64) (series : String) : String := idStart k ++ series

def monitorView (series : String) (u : Monitor) : Strategy × Rule × Option SlidingWindow :=
  (u.strategy, u.rule, u.windows[series]?)

/-- What an engine holds about a series under a strategy. -/
@[ext] structure View where
  policy : DebouncePolicy
  monitor : Option (Strategy × Rule × Option SlidingWindow)
  /-- The last event, apart from its time. -/
  last : Option Event

def view (k : Int64) (series : String) (e : Engine) : View where
  policy := e.policy
  monitor := (e.monitors[k]?).map (monitorView series)
  last := e.table.lastOf (seriesId k series)

def seen (k : Int64) (series : String) (outcome : List Event × Engine) : List Event × View :=
  (reportsOf (seriesId k series) outcome.1, outcome.2.view k series)

variable {k : Int64} {series : String} {e e₁ e₂ : Engine} {now now₁ now₂ : Instant} {m : Metric}

def listed (outcome : Option Event × Engine) : List Event × Engine :=
  (outcome.1.toList, outcome.2)

theorem seen_append (events : List Event) (outcome : List Event × Engine) :
    seen k series (events ++ outcome.1, outcome.2) =
      (reportsOf (seriesId k series) events ++ (seen k series outcome).1,
        (seen k series outcome).2) := by
  rw [seen, reportsOf_append, seen]

/-- Outcomes that follow one another are seen alike if each of them is. -/
theorem seen_append_congr {first₁ first₂ rest₁ rest₂ : List Event × Engine}
    (first : seen k series first₁ = seen k series first₂)
    (rest : seen k series rest₁ = seen k series rest₂) :
    seen k series (first₁.1 ++ rest₁.1, rest₁.2) = seen k series (first₂.1 ++ rest₂.1, rest₂.2) := by
  rw [seen_append, seen_append, rest, show reportsOf (seriesId k series) first₁.1 = _ from
    congrArg Prod.fst first]
  rfl

/-- After an outcome that is not seen, only the rest counts. -/
theorem seen_append_aside {first rest : List Event × Engine}
    (aside : seen k series first = ([], e.view k series)) :
    seen k series (first.1 ++ rest.1, rest.2) = seen k series rest := by
  rw [seen_append, show reportsOf (seriesId k series) first.1 = [] from congrArg Prod.fst aside]
  rfl

/-! ## Judging -/

theorem monitorView_checkSeries_of_ne {u : Monitor} {other : String} (apart : other ≠ series) :
    monitorView series (u.checkSeries other m).2 = monitorView series u := by
  rcases checkSeries_cases u other m with same | ⟨w, changed⟩
  · rw [same]
  · rw [changed, monitorView, monitorView, Std.ExtTreeMap.getElem?_insert,
      if_neg (by simpa using apart)]

theorem checkSeries_congr {u v : Monitor} (alike : monitorView series u = monitorView series v) :
    (u.checkSeries series m).1 = (v.checkSeries series m).1 ∧
      monitorView series (u.checkSeries series m).2 =
        monitorView series (v.checkSeries series m).2 := by
  obtain ⟨strategy, rule, window⟩ : u.strategy = v.strategy ∧ u.rule = v.rule ∧
      u.windows[series]? = v.windows[series]? := by
    simpa only [monitorView, Prod.mk.injEq] using alike
  have windows : u.window series = v.window series := by
    rw [Monitor.window, Monitor.window, window, rule]
  unfold Monitor.checkSeries
  rw [rule, windows]
  split
  · exact ⟨rfl, alike⟩
  · split
    · exact ⟨rfl, alike⟩
    · refine ⟨rfl, ?_⟩
      simp only [monitorView, Std.ExtTreeMap.getElem?_insert_self, strategy]

theorem view_insert (id : Int64) (u : Monitor) :
    ({ e with monitors := e.monitors.insert id u } : Engine).view k series =
      { e.view k series with
        monitor := if id = k then some (monitorView series u) else (e.view k series).monitor } := by
  simp only [view, Std.ExtTreeMap.getElem?_insert, Std.compare_eq_iff_eq]
  split <;> rfl

/-- A monitor of another strategy, or a sample of another series, is not seen. -/
theorem judgeBy_aside (formed : WellFormed e) (now : Instant) {id : Int64}
    (apart : id ≠ k ∨ m.identity ≠ series) :
    seen k series (listed (e.judgeBy now m id)) = ([], e.view k series) := by
  have advanced : ∀ u : Monitor, e.monitors[id]? = some u →
      ({ e with monitors := e.monitors.insert id (u.checkSeries m.identity m).2 } : Engine).view
        k series = e.view k series := by
    intro u found
    rw [view_insert]
    split
    · rename_i own
      subst own
      rw [monitorView_checkSeries_of_ne (apart.resolve_left (by simp)), view, found]
      rfl
    · rfl
  rcases judgeBy_cases e now m id with same | ⟨u, found, changed | ⟨judgment, _, observed⟩⟩
  · rw [same]
    rfl
  · rw [changed]
    exact Prod.ext rfl (advanced u found)
  · rw [observed]
    -- The id names the strategy and the series, so that one of them tells the event apart.
    have other : (eventOf now (u.checkSeries m.identity m).2 m.identity m judgment).id ≠
        seriesId k series := by
      intro same
      obtain ⟨owner, own⟩ := idStart_append_inj.mp same
      rw [Monitor.id, checkSeries_strategy, ← Monitor.id, formed.monitors id u found] at owner
      exact apart.elim (fun differs => differs owner) (fun differs => differs own)
    obtain ⟨silent, kept⟩ := DebounceTable.observe_aside e.table e.policy other
    refine Prod.ext silent (Eq.trans ?_ (advanced u found))
    exact View.ext rfl rfl kept

theorem record_congr (alike : e₁.view k series = e₂.view k series) {u v : Monitor}
    (owner : u.id = k) (strategy : u.strategy = v.strategy) (rule : u.rule = v.rule)
    (judgment : Judgment) :
    seen k series (listed (e₁.record now₁ u series m judgment)) =
      seen k series (listed (e₂.record now₂ v series m judgment)) := by
  have policy : e₁.policy = e₂.policy := congrArg View.policy alike
  have last : e₁.table.lastOf (seriesId k series) = e₂.table.lastOf (seriesId k series) :=
    congrArg View.last alike
  have monitor : (e₁.view k series).monitor = (e₂.view k series).monitor :=
    congrArg View.monitor alike
  unfold record
  split
  · have same : (eventOf now₁ u series m judgment).undated =
        (eventOf now₂ v series m judgment).undated := by
      simp only [eventOf, Event.undated, Monitor.id, strategy, rule]
    have identity : (eventOf now₁ u series m judgment).id = seriesId k series := by
      rw [seriesId, ← owner]
      rfl
    rw [← identity] at last
    obtain ⟨reported, kept⟩ := DebounceTable.observe_congr e₁.policy same last
    rw [identity] at reported kept
    rw [← policy]
    refine Prod.ext reported ?_
    rw [seen, listed, view, seen, listed, view, View.mk.injEq]
    exact ⟨rfl, monitor, kept⟩
  · exact Prod.ext rfl alike

theorem judgeBy_congr (formed₁ : WellFormed e₁) (formed₂ : WellFormed e₂)
    (alike : e₁.view k series = e₂.view k series) (m : Metric) :
    seen k series (listed (e₁.judgeBy now₁ m k)) =
      seen k series (listed (e₂.judgeBy now₂ m k)) := by
  by_cases own : m.identity = series
  swap
  · rw [judgeBy_aside formed₁ now₁ (.inr own), judgeBy_aside formed₂ now₂ (.inr own), alike]
  have monitors : (e₁.monitors[k]?).map (monitorView series) =
      (e₂.monitors[k]?).map (monitorView series) := congrArg View.monitor alike
  unfold judgeBy
  cases found : e₁.monitors[k]? with
  | none =>
    rw [found, Option.map_none, eq_comm, Option.map_eq_none_iff] at monitors
    rw [monitors]
    exact Prod.ext rfl alike
  | some u =>
    rw [found, Option.map_some, eq_comm, Option.map_eq_some_iff] at monitors
    obtain ⟨v, foundToo, same⟩ := monitors
    obtain ⟨strategy, rule, _⟩ : v.strategy = u.strategy ∧ v.rule = u.rule ∧
        v.windows[series]? = u.windows[series]? := by
      simpa only [monitorView, Prod.mk.injEq] using same
    obtain ⟨result, after⟩ := checkSeries_congr (m := m) same.symm
    rw [foundToo]
    dsimp only
    rw [own, Monitor.accepts, Monitor.accepts, strategy, rule]
    split
    · have advanced : ({ e₁ with monitors := e₁.monitors.insert k (u.checkSeries series m).2 } :
          Engine).view k series =
          ({ e₂ with monitors := e₂.monitors.insert k (v.checkSeries series m).2 } :
            Engine).view k series := by
        rw [view_insert, view_insert, alike, after]
      rw [result]
      cases (v.checkSeries series m).1 with
      | error fault => exact Prod.ext rfl advanced
      | ok judgment =>
        apply record_congr advanced
        · rw [Monitor.id, checkSeries_strategy]
          exact formed₁.monitors k u found
        · rw [checkSeries_strategy, checkSeries_strategy, strategy]
        · rw [checkSeries_rule, checkSeries_rule, rule]
    · exact Prod.ext rfl alike

theorem judgeByAll_aside (formed : WellFormed e) (now : Instant) {ids : List Int64}
    (apart : k ∉ ids ∨ m.identity ≠ series) :
    seen k series (e.judgeByAll now m ids) = ([], e.view k series) := by
  induction ids generalizing e with
  | nil => rfl
  | cons id ids inductionHypothesis =>
    have first := judgeBy_aside formed now (apart.imp_left fun missing (same : id = k) =>
      missing (by rw [same]; exact List.mem_cons_self))
    have kept : (e.judgeBy now m id).2.view k series = e.view k series := congrArg Prod.snd first
    rw [judgeByAll_cons]
    refine (seen_append_aside first).trans ?_
    rw [inductionHypothesis (wellFormed_judgeBy formed now m id)
      (apart.imp_left fun missing member => missing (List.mem_cons_of_mem id member)), kept]

/-- Of several monitors, each at work once, only that of the strategy itself counts. -/
theorem judgeByAll_of_mem (formed : WellFormed e) {ids : List Int64} (distinct : ids.Nodup)
    (member : k ∈ ids) :
    seen k series (e.judgeByAll now m ids) = seen k series (listed (e.judgeBy now m k)) := by
  induction ids generalizing e with
  | nil => cases member
  | cons id ids inductionHypothesis =>
    rw [List.nodup_cons] at distinct
    have formedAfter := wellFormed_judgeBy formed now m id
    rw [judgeByAll_cons]
    by_cases own : id = k
    · subst own
      have rest : seen id series ((e.judgeBy now m id).2.judgeByAll now m ids) =
          ([], (e.judgeBy now m id).2.view id series) :=
        judgeByAll_aside formedAfter now (.inl distinct.1)
      rw [seen_append, rest, List.append_nil]
      rfl
    · have first : seen k series (listed (e.judgeBy now m id)) = ([], e.view k series) :=
        judgeBy_aside formed now (.inl own)
      refine (seen_append_aside first).trans ?_
      rw [inductionHypothesis formedAfter distinct.2
        ((List.mem_cons.mp member).resolve_left (Ne.symm own))]
      exact judgeBy_congr formedAfter formed (congrArg Prod.snd first) m

theorem judgeBy_of_not_mem (formed : WellFormed e) (missing : k ∉ e.candidates m.name) :
    e.judgeBy now m k = (none, e) := by
  unfold judgeBy
  cases found : e.monitors[k]? with
  | none => rfl
  | some u =>
    have other : m.name ≠ u.strategy.metric := fun same =>
      missing ((formed.candidates m.name k).mpr ⟨u, found, same.symm⟩)
    simp [Monitor.accepts, other]

/-- All that is seen of judging a metric is what the strategy itself makes of it. -/
theorem judgeMetric_seen (formed : WellFormed e) (m : Metric) :
    seen k series (e.judgeMetric now m) = seen k series (listed (e.judgeBy now m k)) := by
  let started : Engine := { e with latest := max e.latest m.timestamp }
  have startedFormed : WellFormed started :=
    formed.of_continues ⟨fun _ => rfl, rfl⟩ formed.table
  have whole : seen k series (e.judgeMetric now m) =
      seen k series (started.judgeByAll now m (e.candidates m.name)) := rfl
  rw [whole]
  by_cases member : k ∈ e.candidates m.name
  · have distinct : (e.candidates m.name).Nodup := (formed.ascending m.name).imp Int64.ne_of_lt
    rw [judgeByAll_of_mem startedFormed distinct member]
    exact judgeBy_congr startedFormed formed rfl m
  · rw [judgeByAll_aside startedFormed now (.inl member), judgeBy_of_not_mem formed member]
    rfl

theorem wellFormed_judgeMetric (formed : WellFormed e) (m : Metric) :
    WellFormed (e.judgeMetric now m).2 :=
  wellFormed_perform formed (.judge [m])

/-- The metrics of other series can be left out of a batch. -/
theorem judge_congr (formed₁ : WellFormed e₁) (formed₂ : WellFormed e₂)
    (alike : e₁.view k series = e₂.view k series) (metrics : List Metric) :
    seen k series (e₁.judge now₁ metrics) =
      seen k series (e₂.judge now₂ (metrics.filter fun m => m.identity == series)) := by
  induction metrics generalizing e₁ e₂ with
  | nil => exact Prod.ext rfl alike
  | cons m metrics inductionHypothesis =>
    by_cases own : m.identity = series
    · rw [List.filter_cons_of_pos (by simpa using own), judge_cons, judge_cons]
      have first : seen k series (e₁.judgeMetric now₁ m) = seen k series (e₂.judgeMetric now₂ m) := by
        rw [judgeMetric_seen formed₁, judgeMetric_seen formed₂]
        exact judgeBy_congr formed₁ formed₂ alike m
      exact seen_append_congr first (inductionHypothesis (wellFormed_judgeMetric formed₁ m)
        (wellFormed_judgeMetric formed₂ m) (congrArg Prod.snd first))
    · rw [List.filter_cons_of_neg (by simpa using own), judge_cons]
      have first : seen k series (e₁.judgeMetric now₁ m) = ([], e₁.view k series) := by
        rw [judgeMetric_seen formed₁, judgeBy_aside formed₁ now₁ (.inr own)]
      refine (seen_append_aside first).trans ?_
      exact inductionHypothesis (wellFormed_judgeMetric formed₁ m) formed₂
        ((congrArg Prod.snd first).trans alike)

/-! ## Strategies -/

theorem any_belongsTo_idStart (ids : List Int64) :
    (ids.map idStart).any (fun start => belongsTo start (seriesId k series)) = ids.contains k := by
  rw [Bool.eq_iff_iff]
  simp [seriesId, belongsTo_idStart_iff]

theorem placed_congr {old₁ old₂ current₁ current₂ : Option Monitor}
    (old : old₁.map (monitorView series) = old₂.map (monitorView series))
    (current : current₁.map (monitorView series) = current₂.map (monitorView series))
    (s : Strategy) :
    (placed old₁ current₁ s).map (monitorView series) =
      (placed old₂ current₂ s).map (monitorView series) := by
  -- Without a monitor to keep, both make the same fresh one or go on with what they have.
  have unkept : (placed none current₁ s).map (monitorView series) =
      (placed none current₂ s).map (monitorView series) := by
    unfold placed
    cases Monitor.ofStrategy s with
    | ok fresh => rfl
    | error fault => exact current
  cases old₁ with
  | none =>
    rw [Option.map_none, eq_comm, Option.map_eq_none_iff] at old
    rw [old]
    exact unkept
  | some u =>
    rw [Option.map_some, eq_comm, Option.map_eq_some_iff] at old
    obtain ⟨v, rfl, same⟩ := old
    have strategy : v.strategy = u.strategy := congrArg Prod.fst same
    by_cases unchanged : u.strategy == s
    · simp only [placed, Option.filter_some, strategy, unchanged, if_true, Option.map_some, same]
    · simpa only [placed, Option.filter_some, Option.filter_none, strategy, unchanged, if_false,
        Bool.false_eq_true] using unkept

theorem foldl_placed_congr {old₁ old₂ current₁ current₂ : Option Monitor}
    (old : old₁.map (monitorView series) = old₂.map (monitorView series))
    (current : current₁.map (monitorView series) = current₂.map (monitorView series))
    (strategies : List Strategy) :
    (strategies.foldl (placed old₁) current₁).map (monitorView series) =
      (strategies.foldl (placed old₂) current₂).map (monitorView series) := by
  induction strategies generalizing current₁ current₂ with
  | nil => exact current
  | cons s strategies inductionHypothesis =>
    exact inductionHypothesis (placed_congr old current s)

/-- What is seen of a set of strategies: the monitor from the strategies of the id, and the end of
an alarm if there was a monitor and is none any more. -/
theorem setStrategies_seen (formed : WellFormed e) (strategies : List Strategy) :
    let old := e.monitors[k]?
    let next := (strategies.filter fun s => s.id == k).foldl (placed old) none
    let closes := old.isSome && next.isNone
    seen k series (e.setStrategies now strategies) =
      (if closes then ending (e.view k series).last else [],
        { policy := e.policy
          monitor := next.map (monitorView series)
          last := if closes then none else (e.view k series).last }) := by
  intro old next closes
  let monitors := reconcile e.monitors strategies
  let gone := e.monitors.keys.filter fun id => !monitors.contains id
  have nextMonitor : monitors[k]? = next := reconcile_getElem? e.monitors strategies k
  -- Of the starts that are closed, the identity belongs to the own one at most.
  have isGone : (gone.map idStart).any (fun start => belongsTo start (seriesId k series)) =
      closes := by
    rw [any_belongsTo_idStart, Bool.eq_iff_iff]
    simp only [gone, closes, old, ← nextMonitor, List.contains_iff_mem, List.mem_filter,
      Std.ExtTreeMap.mem_keys, Std.ExtTreeMap.mem_iff_isSome_getElem?,
      Std.ExtTreeMap.contains_eq_isSome_getElem?, Bool.and_eq_true, Option.not_isSome]
  obtain ⟨reports, last⟩ := closeAll_seen formed.table now (gone.map idStart) (seriesId k series)
  rw [isGone] at reports last
  exact Prod.ext reports
    (View.ext rfl (congrArg (Option.map (monitorView series)) nextMonitor) last)

/-- The strategies of other ids can be left out of a set. -/
theorem setStrategies_congr (formed₁ : WellFormed e₁) (formed₂ : WellFormed e₂)
    (alike : e₁.view k series = e₂.view k series) (strategies : List Strategy) :
    seen k series (e₁.setStrategies now₁ strategies) =
      seen k series (e₂.setStrategies now₂ (strategies.filter fun s => s.id == k)) := by
  have old : (e₁.monitors[k]?).map (monitorView series) =
      (e₂.monitors[k]?).map (monitorView series) := congrArg View.monitor alike
  have next : ∀ own : List Strategy,
      (own.foldl (placed e₁.monitors[k]?) none).map (monitorView series) =
        (own.foldl (placed e₂.monitors[k]?) none).map (monitorView series) :=
    foldl_placed_congr old rfl
  have policy : e₁.policy = e₂.policy := congrArg View.policy alike
  have oldSome : (e₁.monitors[k]?).isSome = (e₂.monitors[k]?).isSome := by
    simpa only [Option.isSome_map] using congrArg Option.isSome old
  have nextNone : ∀ own : List Strategy, (own.foldl (placed e₁.monitors[k]?) none).isNone =
      (own.foldl (placed e₂.monitors[k]?) none).isNone := fun own => by
    simpa only [Option.isNone_map] using congrArg Option.isNone (next own)
  rw [setStrategies_seen formed₁, setStrategies_seen formed₂, List.filter_filter]
  simp only [Bool.and_self, oldSome, nextNone, next, policy, alike]

/-! ## Other calls -/

theorem setComposites_seen (formed : WellFormed e) (strategies : List CompositeStrategy) :
    seen k series (e.setComposites now strategies) = ([], e.view k series) := by
  let composites := reconcileComposites e.composites strategies
  let gone := e.composites.keys.filter fun id => !composites.contains id
  have apart : (gone.map Composite.idStart).any
      (fun start => belongsTo start (seriesId k series)) = false := by
    rw [List.any_eq_false]
    intro start member
    obtain ⟨id, _, rfl⟩ := List.mem_map.mp member
    rw [seriesId, not_belongsTo_composite]
    exact Bool.false_ne_true
  obtain ⟨reports, last⟩ := closeAll_seen formed.table now (gone.map Composite.idStart)
    (seriesId k series)
  rw [apart] at reports last
  exact Prod.ext reports (View.ext rfl rfl last)

theorem scan_seen : seen k series (e.scan now) = ([], e.view k series) := by
  have apart : ∀ event ∈ e.composites.toList.flatMap fun entry => (entry.2.scan now).1,
      event.id ≠ seriesId k series := by
    intro event member
    obtain ⟨entry, _, reported⟩ := List.mem_flatMap.mp member
    obtain ⟨group, _, rfl⟩ := List.mem_map.mp reported
    exact composite_idStart_append_ne _ k _ series
  obtain ⟨silent, kept⟩ := DebounceTable.observeAll_aside e.table e.policy apart
  exact Prod.ext silent (View.ext rfl rfl kept)

theorem evictIdle_view (cutoff : Int64) :
    (e.evictIdle cutoff).view k series =
      { e.view k series with
        monitor := (e.view k series).monitor.map fun held =>
          (held.1, held.2.1, held.2.2.filter fun w => w.isActiveSince cutoff) } := by
  simp only [view, evictIdle, Std.ExtTreeMap.getElem?_map, Option.map_map]
  refine View.ext rfl (congrArg (Option.map · _) (funext fun u => ?_)) rfl
  simp only [Function.comp_apply, monitorView, Monitor.evictIdle, Std.ExtTreeMap.getElem?_filter']

/-! ## Runs -/

/-- The part of a call that is about a series under a strategy. -/
def Call.restrict (k : Int64) (series : String) : Call → Call
  | .judge metrics => .judge (metrics.filter fun m => m.identity == series)
  | .setStrategies strategies => .setStrategies (strategies.filter fun s => s.id == k)
  | .setComposites strategies => .setComposites strategies
  | .scan => .scan
  | .evictIdle cutoff => .evictIdle cutoff

/-- What is seen of a call is what is seen of its part about the series under the strategy. -/
theorem perform_congr (formed₁ : WellFormed e₁) (formed₂ : WellFormed e₂)
    (alike : e₁.view k series = e₂.view k series) (call : Call) :
    seen k series (e₁.perform now₁ call) =
      seen k series (e₂.perform now₂ (call.restrict k series)) := by
  cases call with
  | judge metrics => exact judge_congr formed₁ formed₂ alike metrics
  | setStrategies strategies => exact setStrategies_congr formed₁ formed₂ alike strategies
  | setComposites strategies =>
    refine (setComposites_seen formed₁ strategies).trans ?_
    rw [alike]
    exact (setComposites_seen formed₂ strategies).symm
  | scan =>
    refine scan_seen.trans ?_
    rw [alike]
    exact scan_seen.symm
  | evictIdle cutoff =>
    refine Prod.ext rfl ((evictIdle_view cutoff).trans ?_)
    rw [alike]
    exact (evictIdle_view cutoff).symm

theorem run_congr (formed₁ : WellFormed e₁) (formed₂ : WellFormed e₂)
    (alike : e₁.view k series = e₂.view k series) {calls alone : List (Instant × Call)}
    (same : alone.map Prod.snd = calls.map fun call => call.2.restrict k series) :
    seen k series (e₁.run calls) = seen k series (e₂.run alone) := by
  induction calls generalizing e₁ e₂ alone with
  | nil =>
    rw [List.map_nil, List.map_eq_nil_iff] at same
    subst same
    exact Prod.ext rfl alike
  | cons call calls inductionHypothesis =>
    -- The runs go on call by call; equal views before a call give equal views after it.
    obtain ⟨own, rest, rfl, head, tail⟩ := List.map_eq_cons_iff.mp same
    have first : seen k series (e₁.perform call.1 call.2) =
        seen k series (e₂.perform own.1 own.2) := by
      rw [show own.2 = call.2.restrict k series from head]
      exact perform_congr formed₁ formed₂ alike call.2
    exact seen_append_congr first (inductionHypothesis (wellFormed_perform formed₁ call.2)
      (wellFormed_perform formed₂ own.2) (congrArg Prod.snd first) tail)

/-- The reports on a series under a strategy, its last event and its window come out the same, apart
from the times of the events, when every set of strategies keeps only the entries of the strategy
and every batch only the samples of the series. -/
theorem run_isolated (policy : DebouncePolicy) (k : Int64) (series : String)
    (calls alone : List (Instant × Call))
    (same : alone.map Prod.snd = calls.map fun call => call.2.restrict k series) :
    let whole := run { policy := policy } calls
    let part := run { policy := policy } alone
    reportsOf (seriesId k series) whole.1 = reportsOf (seriesId k series) part.1 ∧
    (whole.2.table.get? (seriesId k series)).map Event.undated =
      (part.2.table.get? (seriesId k series)).map Event.undated ∧
    (whole.2.monitors[k]?).bind (fun u => u.windows[series]?) =
      (part.2.monitors[k]?).bind fun u => u.windows[series]? := by
  intro whole part
  have alike : seen k series whole = seen k series part :=
    run_congr (wellFormed_new policy) (wellFormed_new policy) rfl same
  have views : whole.2.view k series = part.2.view k series := congrArg Prod.snd alike
  have windows : ∀ e : Engine, (e.monitors[k]?).bind (fun u => u.windows[series]?) =
      (e.view k series).monitor.bind fun held => held.2.2 := by
    intro e
    rw [view, Option.bind_map]
    rfl
  refine ⟨congrArg Prod.fst alike, congrArg View.last views, ?_⟩
  rw [windows, windows, views]

/-- Two series go into alarm under two strategies; the events of one pair are those of its own
run. -/
theorem run_isolated_alarms :
    let sample (endpoint : String) : Metric :=
      { name := "cpu", value := 5, endpoint := endpoint, timestamp := 10 }
    let strategy (id : Int64) : Strategy :=
      { id := id, metric := "cpu", func := "all(#1)", op := ">", rightValue := 1 }
    let series := (sample "a").identity
    let calls : List (Instant × Call) :=
      [(.epoch, .setStrategies [strategy 2, strategy 1]),
       (.epoch, .judge [sample "b", sample "a"]),
       (.epoch, .setStrategies [strategy 2])]
    let alone : List (Instant × Call) :=
      [(.epoch, .setStrategies [strategy 1]),
       (.epoch, .judge [sample "a"]),
       (.epoch, .setStrategies [])]
    (run {} calls).1.length = 6 ∧
      reportsOf (seriesId 1 series) (run {} calls).1 =
        reportsOf (seriesId 1 series) (run {} alone).1 ∧
      (reportsOf (seriesId 1 series) (run {} alone).1).map Event.status = [.problem, .closed] := by
  intro sample strategy series calls alone
  have other : (sample "b").identity ≠ series := by decide +kernel
  have batch : [sample "b", sample "a"].filter (fun m => m.identity == series) = [sample "a"] := by
    simp [series, other]
  have entries : [strategy 2, strategy 1].filter (fun s => s.id == 1) = [strategy 1] := rfl
  have removed : [strategy 2].filter (fun s => s.id == 1) = [] := rfl
  have same : alone.map Prod.snd = calls.map fun call => call.2.restrict 1 series := by
    simp only [alone, calls, List.map_cons, List.map_nil, Call.restrict, batch, entries, removed]
  refine ⟨by decide +kernel, (run_isolated {} 1 series calls alone same).1, by decide +kernel⟩

end Engine

end AlertEngine
