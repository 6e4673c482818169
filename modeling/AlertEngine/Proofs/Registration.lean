import AlertEngine.Proofs.CompositeHistory

/-! # What is at work during a run

Strategies come in and go by two calls alone. Every other call leaves the strategies at work as they
are, and moves each composite by calls of its own.

* `Composite.feed_cases`, `Composite.feed_run`: judging metrics is a run of checks of a composite.
* `Call.Asks`, `perform_composites`: what a call of the engine asks of every composite.
* `Registered`: monitors and composites stand under the ids of strategies that can be read;
  `registered_run`.
* `mem_setStrategies_iff`, `mem_setComposites_iff`: the ids at work after a set has come in.
-/

namespace AlertEngine

namespace Composite

/-! ## Feeding -/

theorem feed_cases (c : Composite) (m : Metric) :
    c.feed m = c ∨ ∃ place, c.feed m = c.perform (.check place m) := by
  unfold feed
  cases c.accept? m with
  | none => exact .inl rfl
  | some place => exact .inr ⟨place, rfl⟩

theorem feed_run (c : Composite) (metrics : List Metric) :
    ∃ calls : List Call, (∀ call ∈ calls, ∃ place m, call = .check place m) ∧
      metrics.foldl feed c = c.run calls := by
  induction metrics generalizing c with
  | nil => exact ⟨[], by simp, rfl⟩
  | cons m metrics inductionHypothesis =>
    obtain ⟨calls, checks, same⟩ := inductionHypothesis (c.feed m)
    rw [List.foldl_cons, same]
    rcases feed_cases c m with idle | ⟨place, checked⟩
    · exact ⟨calls, checks, by rw [idle]⟩
    · refine ⟨.check place m :: calls, ?_, by rw [checked]; rfl⟩
      rw [List.forall_mem_cons]
      exact ⟨⟨place, m, rfl⟩, checks⟩

theorem strategy_run (c : Composite) (calls : List Call) : (c.run calls).strategy = c.strategy :=
  congrArg Prod.fst (definition_run c calls)

/-- A group outlives everything but a scan. -/
theorem mem_groups_run {c : Composite} {calls : List Call} {group : String}
    (unscanned : ∀ call ∈ calls, ∀ now, call ≠ .scan now) (present : group ∈ c.groups) :
    group ∈ (c.run calls).groups := by
  induction calls generalizing c with
  | nil => exact present
  | cons call calls inductionHypothesis =>
    rw [List.forall_mem_cons] at unscanned
    apply inductionHypothesis unscanned.2
    by_contra gone
    obtain ⟨⟨now, scanned⟩, _⟩ := groups_perform present gone
    exact unscanned.1 now scanned

end Composite

namespace Engine

variable {e : Engine} {now : Instant} {call : Call} {id : Int64}

/-! ## Composites during a call -/

@[simp] theorem judgeBy_composites (m : Metric) (id : Int64) :
    (e.judgeBy now m id).2.composites = e.composites := by
  rcases judgeBy_cases e now m id with same | ⟨u, _, advanced | ⟨judgment, _, observed⟩⟩
  · rw [same]
  · rw [advanced]
  · rw [observed]

@[simp] theorem judgeByAll_composites (m : Metric) (ids : List Int64) :
    (e.judgeByAll now m ids).2.composites = e.composites := by
  induction ids generalizing e with
  | nil => rfl
  | cons id ids inductionHypothesis =>
    rw [judgeByAll_cons, inductionHypothesis, judgeBy_composites]

theorem judgeMetric_composites (m : Metric) :
    (e.judgeMetric now m).2.composites = e.composites.map fun _ c => c.feed m := by
  simp [judgeMetric]

theorem judge_composites (metrics : List Metric) (id : Int64) :
    (e.judge now metrics).2.composites[id]? =
      (e.composites[id]?).map fun c => metrics.foldl Composite.feed c := by
  induction metrics generalizing e with
  | nil => exact Option.map_id'.symm
  | cons m metrics inductionHypothesis =>
    rw [judge_cons, inductionHypothesis, judgeMetric_composites, Std.ExtTreeMap.getElem?_map,
      Option.map_map]
    rfl

/-- What a call of the engine may ask of every composite. -/
def Call.Asks (now : Instant) : Call → List Composite.Call → Prop
  | .judge _, asked => ∀ call ∈ asked, ∃ place m, call = .check place m
  | .setStrategies _, asked => asked = []
  | .setComposites _, _ => False
  | .scan, asked => asked = [.scan now]
  | .evictIdle cutoff, asked => asked = [.evictIdle cutoff]

theorem perform_composites (e : Engine) (now : Instant) (call : Call)
    (other : ∀ strategies, call ≠ .setComposites strategies) (id : Int64) :
    ∃ asked, call.Asks now asked ∧
      (e.perform now call).2.composites[id]? = (e.composites[id]?).map fun c => c.run asked := by
  cases call with
  | judge metrics =>
    -- Which rule judges a metric depends on the composite, so the checks are chosen for it.
    rw [perform, judge_composites]
    cases e.composites[id]? with
    | none => exact ⟨[], by simp [Call.Asks], rfl⟩
    | some c =>
      obtain ⟨asked, checks, same⟩ := c.feed_run metrics
      exact ⟨asked, checks, congrArg some same⟩
  | setStrategies strategies => exact ⟨[], rfl, Option.map_id'.symm⟩
  | setComposites strategies => exact absurd rfl (other strategies)
  | scan => exact ⟨[.scan now], rfl, by rw [perform, scan, Std.ExtTreeMap.getElem?_map]; rfl⟩
  | evictIdle cutoff =>
    exact ⟨[.evictIdle cutoff], rfl, by rw [perform, evictIdle, Std.ExtTreeMap.getElem?_map]; rfl⟩

/-! ## Strategies at work -/

theorem perform_monitorStrategies (e : Engine) (now : Instant) (call : Call)
    (other : ∀ strategies, call ≠ .setStrategies strategies) (id : Int64) :
    ((e.perform now call).2.monitors[id]?).map Monitor.strategy =
      (e.monitors[id]?).map Monitor.strategy := by
  cases call with
  | judge metrics => exact (judge_continues metrics).strategies id
  | setStrategies strategies => exact absurd rfl (other strategies)
  | setComposites strategies => rfl
  | scan => rfl
  | evictIdle cutoff => exact (evictIdle_continues cutoff).strategies id

theorem perform_compositeStrategies (e : Engine) (now : Instant) (call : Call)
    (other : ∀ strategies, call ≠ .setComposites strategies) (id : Int64) :
    ((e.perform now call).2.composites[id]?).map Composite.strategy =
      (e.composites[id]?).map Composite.strategy := by
  obtain ⟨asked, _, same⟩ := perform_composites e now call other id
  rw [same, Option.map_map]
  exact congrArg (Option.map · _) (funext fun c => c.strategy_run asked)

theorem mem_perform_monitors (e : Engine) (now : Instant) (call : Call)
    (other : ∀ strategies, call ≠ .setStrategies strategies) (id : Int64) :
    id ∈ (e.perform now call).2.monitors ↔ id ∈ e.monitors :=
  mem_congr (perform_monitorStrategies e now call other id)

theorem mem_perform_composites (e : Engine) (now : Instant) (call : Call)
    (other : ∀ strategies, call ≠ .setComposites strategies) (id : Int64) :
    id ∈ (e.perform now call).2.composites ↔ id ∈ e.composites :=
  mem_congr (perform_compositeStrategies e now call other id)

structure Registered (e : Engine) : Prop where
  monitors : StrategyKind.plain.Sound e.monitors
  composites : StrategyKind.composite.Sound e.composites

theorem registered_new (policy : DebouncePolicy) : Registered { policy := policy } where
  monitors := StrategyKind.sound_empty
  composites := StrategyKind.sound_empty

theorem registered_perform (registered : Registered e) (now : Instant) (call : Call) :
    Registered (e.perform now call).2 where
  monitors := by
    by_cases comes : ∃ strategies, call = .setStrategies strategies
    · obtain ⟨strategies, rfl⟩ := comes
      rw [perform, setStrategies, reconcile_eq]
      exact registered.monitors.reconcile StrategyKind.lawful_plain strategies
    · rw [not_exists] at comes
      exact registered.monitors.of_strategies (perform_monitorStrategies e now call comes)
  composites := by
    by_cases comes : ∃ strategies, call = .setComposites strategies
    · obtain ⟨strategies, rfl⟩ := comes
      rw [perform, setComposites, reconcileComposites_eq]
      exact registered.composites.reconcile StrategyKind.lawful_composite strategies
    · rw [not_exists] at comes
      exact registered.composites.of_strategies (perform_compositeStrategies e now call comes)

theorem registered_run (registered : Registered e) (calls : List (Instant × Call)) :
    Registered (e.run calls).2 :=
  run_invariant (P := Registered)
    (fun _ now call registered => registered_perform registered now call) registered calls

/-! ## Ids at work -/

theorem mem_setStrategies_iff (registered : Registered e) (now : Instant)
    (strategies : List Strategy) (id : Int64) :
    id ∈ (e.setStrategies now strategies).2.monitors ↔
      ∃ s ∈ strategies, s.id = id ∧ (Monitor.ofStrategy s).isOk = true := by
  rw [setStrategies, reconcile_eq,
    StrategyKind.mem_reconcile_iff StrategyKind.lawful_plain registered.monitors]
  simp only [StrategyKind.plain_reads]
  rfl

theorem mem_setComposites_iff (registered : Registered e) (now : Instant)
    (strategies : List CompositeStrategy) (id : Int64) :
    id ∈ (e.setComposites now strategies).2.composites ↔
      ∃ s ∈ strategies, s.id = id ∧ (Composite.ofStrategy s).isOk = true := by
  rw [setComposites, reconcileComposites_eq,
    StrategyKind.mem_reconcile_iff StrategyKind.lawful_composite registered.composites]
  simp only [StrategyKind.composite_reads]
  rfl

end Engine

end AlertEngine
