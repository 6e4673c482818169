import AlertEngine.Proofs.DebounceRuns
import AlertEngine.Proofs.Reconciliation

/-! # Runs of the engine

A run is a list of calls, each with the time at which it is made. This module holds what every
property of runs starts from.

* `Call`, `perform`, `run`: the calls, and what they report one after the other.
* `judgeBy_cases`: everything that judging one metric by one monitor can do.
* `Continues`: judging and forgetting leave the strategies that are at work as they are.
* `Records`: a call changes the debounce table only by observing and closing, and it reports
  exactly what these report; `judge_records`, `scan_records`, `perform_records`.
* `WellFormed`: monitors and table entries stand under their own ids, and the dispatch lists the
  monitors of a metric name in ascending order; `wellFormed_run`.
-/

namespace AlertEngine

namespace DebounceTable

variable {allowed : Action → Prop} {policy : DebouncePolicy} {t : DebounceTable} {e : Event}

/-! ## Changes of the table -/

/-- Reported events and a table that come about by allowed actions. -/
def Records (allowed : Action → Prop) (policy : DebouncePolicy) (t : DebounceTable)
    (result : List Event × DebounceTable) : Prop :=
  ∃ actions, (∀ a ∈ actions, allowed a) ∧ t.actAll policy actions = result

theorem Records.refl : Records allowed policy t ([], t) := ⟨[], by simp, rfl⟩

theorem Records.append {next : DebounceTable} {events : List Event}
    {result : List Event × DebounceTable} (first : Records allowed policy t (events, next))
    (second : Records allowed policy next result) :
    Records allowed policy t (events ++ result.1, result.2) := by
  obtain ⟨before, beforeAllowed, beforeResult⟩ := first
  obtain ⟨after, afterAllowed, afterResult⟩ := second
  refine ⟨before ++ after, ?_, ?_⟩
  · intro a member
    exact (List.mem_append.mp member).elim (beforeAllowed a) (afterAllowed a)
  · rw [actAll_append, beforeResult, afterResult]

theorem Records.act {a : Action} (permitted : allowed a) :
    Records allowed policy t (t.act policy a) := by
  refine ⟨[a], ?_, ?_⟩
  · intro b member
    rw [List.mem_singleton.mp member]
    exact permitted
  · simp [actAll]

theorem observeAll_cons (e : Event) (events : List Event) :
    t.observeAll policy (e :: events) =
      ((t.observe policy e).1.toList ++ ((t.observe policy e).2.observeAll policy events).1,
        ((t.observe policy e).2.observeAll policy events).2) := rfl

theorem Records.observeAll {events : List Event} (permitted : ∀ e ∈ events, allowed (.observe e)) :
    Records allowed policy t (t.observeAll policy events) := by
  induction events generalizing t with
  | nil => exact .refl
  | cons e events inductionHypothesis =>
    rw [List.forall_mem_cons] at permitted
    rw [observeAll_cons]
    exact (Records.act permitted.1).append (inductionHypothesis permitted.2)

theorem exists_get?_observeAll {events : List Event} (member : e ∈ events) :
    ∃ entry, (t.observeAll policy events).2.get? e.id = some entry := by
  have general : ∀ t : DebounceTable, ((∃ entry, t.get? e.id = some entry) ∨ e ∈ events) →
      ∃ entry, (t.observeAll policy events).2.get? e.id = some entry := by
    clear member
    induction events with
    | nil => exact fun t present => present.resolve_right (by simp)
    | cons first events inductionHypothesis =>
      intro t present
      rw [observeAll_cons]
      apply inductionHypothesis
      by_cases own : e.id = first.id
      · rw [own]
        exact .inl ⟨_, get?_observe_self⟩
      · rw [get?_observe_of_ne own]
        refine present.imp_right fun member => (List.mem_cons.mp member).resolve_left ?_
        rintro rfl
        exact own rfl
  exact general t (.inr member)

/-- After some observations an entry has the status of one of its own, or there was none of its own
and it is as before. -/
theorem get?_observeAll_cases {events : List Event} {id : String} {entry : Event}
    (found : (t.observeAll policy events).2.get? id = some entry) :
    (∃ e ∈ events, e.id = id ∧ e.status = entry.status) ∨
      t.get? id = some entry ∧ ∀ e ∈ events, e.id ≠ id := by
  induction events generalizing t with
  | nil => exact .inr ⟨found, by simp⟩
  | cons e events inductionHypothesis =>
    rw [observeAll_cons] at found
    rcases inductionHypothesis found with ⟨later, member, own, same⟩ | ⟨first, others⟩
    · exact .inl ⟨later, List.mem_cons_of_mem e member, own, same⟩
    · by_cases own : e.id = id
      · subst own
        rw [get?_observe_self, Option.some.injEq] at first
        exact .inl ⟨e, List.mem_cons_self, rfl, by rw [← first, kept_status]⟩
      · rw [get?_observe_of_ne (Ne.symm own)] at first
        refine .inr ⟨first, ?_⟩
        rw [List.forall_mem_cons]
        exact ⟨own, others⟩

theorem Records.keyed {result : List Event × DebounceTable}
    (records : Records allowed policy t result) (keyed : t.Keyed) : result.2.Keyed := by
  obtain ⟨actions, permitted, rfl⟩ := records
  clear permitted
  induction actions generalizing t with
  | nil => exact keyed
  | cons a actions inductionHypothesis =>
    apply inductionHypothesis
    cases a with
    | observe e => exact keyed.observe policy e
    | close now start => exact keyed.close now start

/-- An entry was there before the actions, or one of them has observed it. -/
theorem Records.get?_cases {result : List Event × DebounceTable}
    (records : Records allowed policy t result) {id : String} {entry : Event}
    (found : result.2.get? id = some entry) :
    t.get? id = some entry ∨
      ∃ e step, allowed (.observe e) ∧ e.id = id ∧ entry = kept policy e step := by
  obtain ⟨actions, permitted, rfl⟩ := records
  induction actions generalizing t with
  | nil => exact .inl found
  | cons a actions inductionHypothesis =>
    rw [List.forall_mem_cons] at permitted
    rcases inductionHypothesis permitted.2 found with earlier | observed
    · cases a with
      | observe e =>
        by_cases own : id = e.id
        · subst own
          have last : (t.observe policy e).2.get? e.id = some entry := earlier
          rw [get?_observe_self, Option.some.injEq] at last
          exact .inr ⟨e, _, permitted.1, rfl, last.symm⟩
        · have last : (t.observe policy e).2.get? id = some entry := earlier
          rw [get?_observe_of_ne own] at last
          exact .inl last
      | close now start =>
        have last : (t.close now start).2.get? id = some entry := earlier
        rw [get?_close] at last
        split at last
        · cases last
        · exact .inl last
    · exact .inr observed

def Action.Judged : Action → Prop
  | .observe e => e.status = .ok ∨ e.status = .problem
  | .close .. => True

def Action.Observes (p : Event → Prop) : Action → Prop
  | .observe e => p e
  | .close .. => False

end DebounceTable

namespace Engine

open DebounceTable (Records Action)

/-! ## Calls -/

inductive Call where
  | judge (metrics : List Metric)
  | setStrategies (strategies : List Strategy)
  | setComposites (strategies : List CompositeStrategy)
  | scan
  | evictIdle (cutoff : Int64)

def perform (e : Engine) (now : Instant) : Call → List Event × Engine
  | .judge metrics => e.judge now metrics
  | .setStrategies strategies => e.setStrategies now strategies
  | .setComposites strategies => e.setComposites now strategies
  | .scan => e.scan now
  | .evictIdle cutoff => ([], e.evictIdle cutoff)

def run (e : Engine) : List (Instant × Call) → List Event × Engine
  | [] => ([], e)
  | call :: calls =>
    ((e.perform call.1 call.2).1 ++ ((e.perform call.1 call.2).2.run calls).1,
      ((e.perform call.1 call.2).2.run calls).2)

variable {e : Engine} {now : Instant}

theorem run_snoc (calls : List (Instant × Call)) (call : Instant × Call) :
    (e.run (calls ++ [call])).2 = ((e.run calls).2.perform call.1 call.2).2 := by
  induction calls generalizing e with
  | nil => rfl
  | cons first calls inductionHypothesis => exact inductionHypothesis

/-- What every call keeps, a run keeps. -/
theorem run_invariant {P : Engine → Prop} (keeps : ∀ e now call, P e → P (e.perform now call).2)
    (start : P e) (calls : List (Instant × Call)) : P (e.run calls).2 := by
  induction calls generalizing e with
  | nil => exact start
  | cons call calls inductionHypothesis =>
    exact inductionHypothesis (keeps e call.1 call.2 start)

/-- What holds at the start holds after a run as well, or a call of the run has ended it for
good. -/
theorem holds_or_ended {P : Engine → Prop} (start : P e) (calls : List (Instant × Call)) :
    P (e.run calls).2 ∨
      ∃ before call after, calls = before ++ call :: after ∧ P (e.run before).2 ∧
        ∀ later, later <+: after → ¬ P (e.run (before ++ call :: later)).2 := by
  induction calls using List.reverseRecOn with
  | nil => exact .inl start
  | append_singleton calls last inductionHypothesis =>
    by_cases holds : P (e.run (calls ++ [last])).2
    · exact .inl holds
    · right
      cases inductionHypothesis with
      | inl before =>
        refine ⟨calls, last, [], rfl, before, fun later isStart => ?_⟩
        rw [List.prefix_nil.mp isStart]
        exact holds
      | inr ended =>
        obtain ⟨before, call, after, rfl, held, since⟩ := ended
        refine ⟨before, call, after ++ [last], by simp, held, fun later isStart => ?_⟩
        cases List.prefix_concat_iff.mp isStart with
        | inl whole =>
          subst whole
          simpa using holds
        | inr isStart => exact since later isStart

/-! ## Judging -/

theorem judgeByAll_cons (m : Metric) (id : Int64) (ids : List Int64) :
    e.judgeByAll now m (id :: ids) =
      ((e.judgeBy now m id).1.toList ++ ((e.judgeBy now m id).2.judgeByAll now m ids).1,
        ((e.judgeBy now m id).2.judgeByAll now m ids).2) := rfl

theorem judge_cons (m : Metric) (metrics : List Metric) :
    e.judge now (m :: metrics) =
      ((e.judgeMetric now m).1 ++ ((e.judgeMetric now m).2.judge now metrics).1,
        ((e.judgeMetric now m).2.judge now metrics).2) := rfl

/-- Judging a metric by the monitor of an id does nothing, or it advances the monitor, and then a
judgment `ok` or `problem` may be observed in the table. -/
theorem judgeBy_cases (e : Engine) (now : Instant) (m : Metric) (id : Int64) :
    e.judgeBy now m id = (none, e) ∨
      ∃ u, e.monitors[id]? = some u ∧
        let after := (u.checkSeries m.identity m).2
        let advanced := { e with monitors := e.monitors.insert id after }
        e.judgeBy now m id = (none, advanced) ∨
          ∃ judgment, (judgment.status = .ok ∨ judgment.status = .problem) ∧
            let observed := e.table.observe e.policy (eventOf now after m.identity m judgment)
            e.judgeBy now m id = (observed.1, { advanced with table := observed.2 }) := by
  unfold judgeBy
  cases found : e.monitors[id]? with
  | none => exact .inl rfl
  | some u =>
    cases accepted : u.accepts m with
    | false => exact .inl (by simp [accepted])
    | true =>
      refine .inr ⟨u, rfl, ?_⟩
      cases outcome : (u.checkSeries m.identity m).1 with
      | error fault => exact .inl (by simp [accepted, outcome])
      | ok judgment =>
        by_cases judged : judgment.status = .ok ∨ judgment.status = .problem
        · refine .inr ⟨judgment, judged, ?_⟩
          simp [accepted, outcome, record, judged]
        · exact .inl (by simp [accepted, outcome, record, judged])

@[simp] theorem judgeBy_policy (m : Metric) (id : Int64) :
    (e.judgeBy now m id).2.policy = e.policy := by
  rcases judgeBy_cases e now m id with same | ⟨u, _, advanced | ⟨judgment, _, observed⟩⟩
  · rw [same]
  · rw [advanced]
  · rw [observed]

@[simp] theorem judgeByAll_policy (m : Metric) (ids : List Int64) :
    (e.judgeByAll now m ids).2.policy = e.policy := by
  induction ids generalizing e with
  | nil => rfl
  | cons id ids inductionHypothesis => rw [judgeByAll_cons, inductionHypothesis, judgeBy_policy]

@[simp] theorem judgeMetric_policy (m : Metric) : (e.judgeMetric now m).2.policy = e.policy := by
  simp [judgeMetric]

/-! ## Strategies at work -/

/-- A check leaves a monitor as it is, or it changes the window of its own series. -/
theorem checkSeries_cases (u : Monitor) (series : String) (m : Metric) :
    (u.checkSeries series m).2 = u ∨
      ∃ w, (u.checkSeries series m).2 = { u with windows := u.windows.insert series w } := by
  unfold Monitor.checkSeries
  split
  · exact .inl rfl
  · split
    · exact .inl rfl
    · exact .inr ⟨_, rfl⟩

@[simp] theorem checkSeries_strategy (u : Monitor) (series : String) (m : Metric) :
    (u.checkSeries series m).2.strategy = u.strategy := by
  rcases checkSeries_cases u series m with same | ⟨w, changed⟩
  · rw [same]
  · rw [changed]

@[simp] theorem checkSeries_rule (u : Monitor) (series : String) (m : Metric) :
    (u.checkSeries series m).2.rule = u.rule := by
  rcases checkSeries_cases u series m with same | ⟨w, changed⟩
  · rw [same]
  · rw [changed]

/-- An engine in which the same strategies are at work as in another one. -/
structure Continues (e next : Engine) : Prop where
  strategies : ∀ id : Int64,
    (next.monitors[id]?).map Monitor.strategy = (e.monitors[id]?).map Monitor.strategy
  dispatch : next.dispatch = e.dispatch

theorem Continues.refl (e : Engine) : Continues e e := ⟨fun _ => rfl, rfl⟩

theorem Continues.trans {next last : Engine} (first : Continues e next)
    (second : Continues next last) : Continues e last :=
  ⟨fun id => (second.strategies id).trans (first.strategies id),
    second.dispatch.trans first.dispatch⟩

theorem Continues.lookup {next : Engine} (continues : Continues e next) {id : Int64} {u : Monitor}
    (found : next.monitors[id]? = some u) :
    ∃ v, e.monitors[id]? = some v ∧ v.strategy = u.strategy :=
  exists_of_map_eq (continues.strategies id) found

theorem Continues.symm {next : Engine} (continues : Continues e next) : Continues next e :=
  ⟨fun id => (continues.strategies id).symm, continues.dispatch.symm⟩

theorem judgeBy_continues (now : Instant) (m : Metric) (id : Int64) :
    Continues e (e.judgeBy now m id).2 := by
  have advanced : ∀ {u : Monitor}, e.monitors[id]? = some u → ∀ other : Int64,
      ((e.monitors.insert id (u.checkSeries m.identity m).2)[other]?).map Monitor.strategy =
        (e.monitors[other]?).map Monitor.strategy := by
    intro u found other
    rw [Std.ExtTreeMap.getElem?_insert]
    split
    · rename_i equal
      rw [← Std.LawfulEqCmp.eq_of_compare equal, found, Option.map_some, Option.map_some,
        checkSeries_strategy]
    · rfl
  rcases judgeBy_cases e now m id with same | ⟨u, found, changed | ⟨judgment, _, changed⟩⟩
  · rw [same]
    exact .refl e
  · rw [changed]
    exact ⟨advanced found, rfl⟩
  · rw [changed]
    exact ⟨advanced found, rfl⟩

theorem judgeByAll_continues (now : Instant) (m : Metric) (ids : List Int64) :
    Continues e (e.judgeByAll now m ids).2 := by
  induction ids generalizing e with
  | nil => exact .refl e
  | cons id ids inductionHypothesis =>
    rw [judgeByAll_cons]
    exact (judgeBy_continues now m id).trans inductionHypothesis

theorem judgeMetric_continues (m : Metric) : Continues e (e.judgeMetric now m).2 :=
  have judged := judgeByAll_continues (e := { e with latest := max e.latest m.timestamp }) now m
    (e.candidates m.name)
  ⟨judged.strategies, judged.dispatch⟩

theorem judge_continues (metrics : List Metric) : Continues e (e.judge now metrics).2 := by
  induction metrics generalizing e with
  | nil => exact .refl e
  | cons m metrics inductionHypothesis =>
    rw [judge_cons]
    exact (judgeMetric_continues m).trans inductionHypothesis

theorem evictIdle_continues (cutoff : Int64) : Continues e (e.evictIdle cutoff) where
  strategies id := by
    rw [evictIdle, Std.ExtTreeMap.getElem?_map, Option.map_map]
    rfl
  dispatch := rfl

/-! ## What happens to the table -/

variable {allowed : Action → Prop}

def PermitsJudgments (allowed : Action → Prop) (e : Engine) : Prop :=
  ∀ (id : Int64) (u : Monitor), (e.monitors[id]?).map Monitor.strategy = some u.strategy →
    ∀ now m judgment, (judgment.status = .ok ∨ judgment.status = .problem) →
      allowed (.observe (eventOf now u m.identity m judgment))

theorem PermitsJudgments.of_continues {next : Engine} (permits : PermitsJudgments allowed e)
    (continues : Continues e next) : PermitsJudgments allowed next := by
  intro id u atWork
  rw [continues.strategies] at atWork
  exact permits id u atWork

theorem judgeBy_records (permits : PermitsJudgments allowed e) (m : Metric) (id : Int64) :
    Records allowed e.policy e.table
      ((e.judgeBy now m id).1.toList, (e.judgeBy now m id).2.table) := by
  rcases judgeBy_cases e now m id with same | ⟨u, found, advanced | ⟨judgment, judged, observed⟩⟩
  · rw [same]
    exact .refl
  · rw [advanced]
    exact .refl
  · rw [observed]
    refine .act (a := .observe _) (permits id _ ?_ now m judgment judged)
    rw [found, Option.map_some, checkSeries_strategy]

theorem judgeByAll_records (permits : PermitsJudgments allowed e) (m : Metric)
    (ids : List Int64) :
    Records allowed e.policy e.table
      ((e.judgeByAll now m ids).1, (e.judgeByAll now m ids).2.table) := by
  induction ids generalizing e with
  | nil => exact .refl
  | cons id ids inductionHypothesis =>
    have rest := inductionHypothesis (permits.of_continues (judgeBy_continues now m id))
    rw [judgeBy_policy] at rest
    exact (judgeBy_records permits m id).append rest

theorem judge_records (permits : PermitsJudgments allowed e) (metrics : List Metric) :
    Records allowed e.policy e.table
      ((e.judge now metrics).1, (e.judge now metrics).2.table) := by
  induction metrics generalizing e with
  | nil => exact .refl
  | cons m metrics inductionHypothesis =>
    have first : Records allowed e.policy e.table
        ((e.judgeMetric now m).1, (e.judgeMetric now m).2.table) :=
      judgeByAll_records (e := { e with latest := max e.latest m.timestamp }) permits m _
    have continues : Continues e (e.judgeMetric now m).2 := judgeMetric_continues m
    have rest := inductionHypothesis (permits.of_continues continues)
    rw [judgeMetric_policy] at rest
    exact first.append rest

theorem closeAll_cons (t : DebounceTable) (start : String) (starts : List String) :
    closeAll t now (start :: starts) =
      ((t.close now start).1 ++ (closeAll (t.close now start).2 now starts).1,
        (closeAll (t.close now start).2 now starts).2) := rfl

theorem closeAll_records (policy : DebouncePolicy) (t : DebounceTable) (starts : List String) :
    Records Action.Judged policy t (closeAll t now starts) := by
  induction starts generalizing t with
  | nil => exact .refl
  | cons start starts inductionHypothesis =>
    rw [closeAll_cons]
    exact (Records.act (a := .close now start) trivial).append (inductionHypothesis _)

theorem report_judged (c : Composite) (key : String) (g : ScoreGroup) :
    (c.report now key g).status = .ok ∨ (c.report now key g).status = .problem := by
  unfold Composite.report
  dsimp only
  split
  · exact .inr rfl
  · exact .inl rfl

/-- A scan reports on every group of every composite. -/
theorem mem_scanReports_iff {event : Event} :
    event ∈ (e.composites.toList.flatMap fun entry => (entry.2.scan now).1) ↔
      ∃ (id : Int64) (c : Composite) (key : String) (g : ScoreGroup),
        e.composites[id]? = some c ∧ c.groups[key]? = some g ∧ event = c.report now key g := by
  simp only [Composite.scan, List.mem_flatMap, List.mem_map, Prod.exists,
    Std.ExtTreeMap.mem_toList_iff_getElem?_eq_some]
  constructor
  · rintro ⟨id, c, atWork, key, g, inGroup, rfl⟩
    exact ⟨id, c, key, g, atWork, inGroup, rfl⟩
  · rintro ⟨id, c, key, g, atWork, inGroup, rfl⟩
    exact ⟨id, c, atWork, key, g, inGroup, rfl⟩

theorem scan_records
    (permits : ∀ (id : Int64) (c : Composite), e.composites[id]? = some c →
      ∀ (key : String) (g : ScoreGroup), c.groups[key]? = some g →
        allowed (.observe (c.report now key g))) :
    Records allowed e.policy e.table ((e.scan now).1, (e.scan now).2.table) := by
  apply Records.observeAll
  intro event member
  obtain ⟨id, c, key, g, atWork, inGroup, rfl⟩ := mem_scanReports_iff.mp member
  exact permits id c atWork key g inGroup

/-- A call changes the table by observing judgments and closing, and it reports what these do. -/
theorem perform_records (e : Engine) (now : Instant) (call : Call) :
    Records Action.Judged e.policy e.table
      ((e.perform now call).1, (e.perform now call).2.table) := by
  cases call with
  | judge metrics => exact judge_records (fun _ _ _ _ _ _ judged => judged) metrics
  | setStrategies strategies => exact closeAll_records e.policy e.table _
  | setComposites strategies => exact closeAll_records e.policy e.table _
  | scan => exact scan_records fun _ c _ key g _ => report_judged c key g
  | evictIdle cutoff => exact .refl

/-! ## Registered monitors -/

def placed (old current : Option Monitor) (s : Strategy) : Option Monitor :=
  match old.filter fun u => u.strategy == s with
  | some kept => some kept
  | none =>
    match Monitor.ofStrategy s with
    | .ok fresh => some fresh
    | .error _ => current

theorem placed_eq_settle : placed = StrategyKind.plain.settle := by
  funext old current s
  simp only [placed, StrategyKind.settle, StrategyKind.plain]
  cases old.filter fun u => u.strategy == s with
  | some kept => rfl
  | none => cases Monitor.ofStrategy s <;> rfl

/-- The monitor under an id comes from the strategies of that id alone, in their order. -/
theorem reconcile_getElem? (old : Std.ExtTreeMap Int64 Monitor) (strategies : List Strategy)
    (id : Int64) :
    (reconcile old strategies)[id]? =
      (strategies.filter fun s => s.id == id).foldl (placed old[id]?) none := by
  rw [reconcile_eq, StrategyKind.reconcile_getElem?_eq_foldl, placed_eq_settle]
  rfl

theorem placed_id {old current : Option Monitor} {s : Strategy} {u : Monitor}
    (oldKeyed : ∀ u : Monitor, old = some u → u.id = s.id)
    (currentKeyed : ∀ u : Monitor, current = some u → u.id = s.id)
    (result : placed old current s = some u) : u.id = s.id := by
  unfold placed at result
  split at result
  · rename_i found
    cases result
    exact oldKeyed u (Option.eq_some_of_filter_eq_some found)
  · split at result
    · rename_i fresh accepted
      cases result
      obtain ⟨r, _, rfl⟩ := Monitor.eq_of_ofStrategy accepted
      rfl
    · exact currentKeyed u result

theorem reconcile_keyed {old : Std.ExtTreeMap Int64 Monitor}
    (keyed : ∀ (id : Int64) (u : Monitor), old[id]? = some u → u.id = id)
    (strategies : List Strategy) (id : Int64) (u : Monitor)
    (found : (reconcile old strategies)[id]? = some u) : u.id = id := by
  rw [reconcile_getElem?] at found
  have owned : ∀ s ∈ strategies.filter (fun s => s.id == id), s.id = id := fun s member =>
    beq_iff_eq.mp (List.mem_filter.mp member).2
  have general : ∀ (own : List Strategy) (current : Option Monitor), (∀ s ∈ own, s.id = id) →
      (∀ u : Monitor, current = some u → u.id = id) →
      own.foldl (placed old[id]?) current = some u → u.id = id := by
    intro own
    induction own with
    | nil => intro current _ currentKeyed result; exact currentKeyed u result
    | cons s own inductionHypothesis =>
      intro current owned currentKeyed result
      rw [List.forall_mem_cons] at owned
      obtain ⟨rfl, owned⟩ := owned
      exact inductionHypothesis _ owned
        (fun u placed => placed_id (keyed s.id) currentKeyed placed) result
  exact general _ none owned (by simp) found

/-- The index of a metric name lists the monitors of that name. -/
theorem dispatchOf_getD (monitors : Std.ExtTreeMap Int64 Monitor) (name : String) :
    ((dispatchOf monitors)[name]?).getD [] =
      (monitors.toList.filter fun entry => entry.2.strategy.metric == name).map Prod.fst := by
  -- The ids are added at the end, so that they stay in the order of the monitors.
  have general : ∀ (entries : List (Int64 × Monitor)) (index : Dictionary (List Int64)),
      ((entries.foldl (fun index entry =>
          dispatchOf.add index entry.1 entry.2.strategy.metric) index)[name]?).getD [] =
        (index[name]?).getD [] ++
          (entries.filter fun entry => entry.2.strategy.metric == name).map Prod.fst := by
    intro entries
    induction entries with
    | nil => intro index; simp
    | cons entry entries inductionHypothesis =>
      intro index
      rw [List.foldl_cons, inductionHypothesis, dispatchOf.add, List.filter_cons]
      by_cases own : entry.2.strategy.metric = name
      · simp [own]
      · simp [own, Std.ExtTreeMap.getElem?_insert]
  rw [dispatchOf, general, Std.ExtTreeMap.getElem?_empty]
  rfl

/-! ## Well-formed engines -/

/-- Monitors and table entries stand under their own ids, and the candidates for a metric name are
the monitors of that name in ascending order. -/
structure WellFormed (e : Engine) : Prop where
  monitors : ∀ (id : Int64) (u : Monitor), e.monitors[id]? = some u → u.id = id
  candidates : ∀ (name : String) (id : Int64),
    id ∈ e.candidates name ↔ ∃ u, e.monitors[id]? = some u ∧ u.strategy.metric = name
  ascending : ∀ name, (e.candidates name).Pairwise (· < ·)
  table : e.table.Keyed

theorem wellFormed_new (policy : DebouncePolicy) : WellFormed { policy := policy } where
  monitors id u found := by simp at found
  candidates name id := by simp [Engine.candidates]
  ascending name := by simp [Engine.candidates]
  table := DebounceTable.keyed_empty

/-- What is required of monitors and dispatch speaks of the strategies alone. -/
theorem WellFormed.of_continues {next : Engine} (formed : WellFormed e)
    (continues : Continues e next) (table : next.table.Keyed) : WellFormed next where
  monitors id u found := by
    obtain ⟨v, earlier, same⟩ := continues.lookup found
    rw [← formed.monitors id v earlier, Monitor.id, Monitor.id, same]
  candidates name id := by
    rw [Engine.candidates, continues.dispatch]
    refine (formed.candidates name id).trans ⟨?_, ?_⟩
    · rintro ⟨u, found, metric⟩
      obtain ⟨v, later, same⟩ := continues.symm.lookup found
      exact ⟨v, later, by rw [same, metric]⟩
    · rintro ⟨u, found, metric⟩
      obtain ⟨v, earlier, same⟩ := continues.lookup found
      exact ⟨v, earlier, by rw [same, metric]⟩
  ascending name := by
    rw [Engine.candidates, continues.dispatch]
    exact formed.ascending name
  table := table

/-! ## What a call keeps -/

theorem wellFormed_judgeBy (formed : WellFormed e) (now : Instant) (m : Metric) (id : Int64) :
    WellFormed (e.judgeBy now m id).2 :=
  have records : Records Action.Judged e.policy e.table
      ((e.judgeBy now m id).1.toList, (e.judgeBy now m id).2.table) :=
    judgeBy_records (fun _ _ _ _ _ _ judged => judged) m id
  formed.of_continues (judgeBy_continues now m id) (records.keyed formed.table)

theorem wellFormed_setStrategies (formed : WellFormed e) (strategies : List Strategy) :
    WellFormed (e.setStrategies now strategies).2 where
  monitors := reconcile_keyed formed.monitors strategies
  candidates name id := by
    have listed : (e.setStrategies now strategies).2.candidates name = _ :=
      dispatchOf_getD (reconcile e.monitors strategies) name
    rw [listed]
    simp only [List.mem_map, List.mem_filter, beq_iff_eq, Prod.exists, exists_and_right,
      exists_eq_right, Std.ExtTreeMap.mem_toList_iff_getElem?_eq_some]
    rfl
  ascending name := by
    have listed : (e.setStrategies now strategies).2.candidates name = _ :=
      dispatchOf_getD (reconcile e.monitors strategies) name
    rw [listed, List.pairwise_map]
    exact ((reconcile e.monitors strategies).ordered_keys_toList.imp
      Std.compare_eq_lt.mp).filter _
  table := (perform_records e now (.setStrategies strategies)).keyed formed.table

theorem wellFormed_perform (formed : WellFormed e) (call : Call) :
    WellFormed (e.perform now call).2 := by
  cases call with
  | judge metrics =>
    exact formed.of_continues (judge_continues metrics)
      ((perform_records e now (.judge metrics)).keyed formed.table)
  | setStrategies strategies => exact wellFormed_setStrategies formed strategies
  | setComposites strategies =>
    exact formed.of_continues ⟨fun _ => rfl, rfl⟩
      ((perform_records e now (.setComposites strategies)).keyed formed.table)
  | scan =>
    exact formed.of_continues ⟨fun _ => rfl, rfl⟩
      ((perform_records e now .scan).keyed formed.table)
  | evictIdle cutoff => exact formed.of_continues (evictIdle_continues cutoff) formed.table

theorem wellFormed_run (formed : WellFormed e) (calls : List (Instant × Call)) :
    WellFormed (e.run calls).2 :=
  run_invariant (P := WellFormed) (fun _ _ call formed => wellFormed_perform formed call) formed
    calls

end Engine

end AlertEngine
