import AlertEngine.Proofs.DispatchIndex
import AlertEngine.Proofs.SeriesIdentity

/-! # Invariants of all monitors

An engine has monitors in two places: under the ids of strategies, and as the rules of composites.
Both are made from strategies, check the metrics that they accept, and forget silent series. What
these three leave true holds of every monitor after every run.

* `Monitor.Lasting`: what is true of new monitors and is kept by checks and evictions.
* `Engine.AllMonitors`: what holds of every monitor in both places.
* `Engine.allMonitors_run`: what lasts holds of every monitor after a run.
-/

namespace AlertEngine

open Std (ExtTreeMap)

variable {admitted : Metric → Prop} {P : Monitor → Prop}

namespace Monitor

/-- What is true of every new monitor and stays true when it checks a metric of some sort or forgets
silent series. -/
structure Lasting (admitted : Metric → Prop) (P : Monitor → Prop) : Prop where
  fresh : ∀ {s : Strategy} {u : Monitor}, ofStrategy s = .ok u → P u
  check : ∀ {u : Monitor} {m : Metric}, admitted m → P u → P (u.check m).2
  evictIdle : ∀ {u : Monitor} (cutoff : Int64), P u → P (u.evictIdle cutoff)

theorem Lasting.receive (lasting : Lasting admitted P) {u : Monitor} {m : Metric}
    (admits : admitted m) (holds : P u) : P (u.receive m) := by
  rw [Monitor.receive]
  split
  · exact lasting.check admits holds
  · exact holds

theorem Lasting.foldl_receive (lasting : Lasting admitted P) {u : Monitor} {metrics : List Metric}
    (admits : ∀ m ∈ metrics, admitted m) (holds : P u) : P (metrics.foldl Monitor.receive u) := by
  induction metrics generalizing u with
  | nil => exact holds
  | cons m metrics inductionHypothesis =>
    rw [List.forall_mem_cons] at admits
    exact inductionHypothesis admits.2 (lasting.receive admits.1 holds)

end Monitor

namespace Composite

def AllRules (P : Monitor → Prop) (c : Composite) : Prop := ∀ sub ∈ c.subs, P sub.monitor

variable {c : Composite}

theorem allRules_of_subRules (lasting : Monitor.Lasting admitted P) {id : Int64} {place : Nat}
    {strategies : List Strategy} {subs : List SubRule}
    (read : subRules id place strategies = .ok subs) : ∀ sub ∈ subs, P sub.monitor := by
  induction strategies generalizing place subs with
  | nil =>
    cases read
    simp
  | cons s strategies inductionHypothesis =>
    obtain ⟨monitor, made, read⟩ := bind_eq_ok_iff.mp read
    obtain ⟨rest, readRest, read⟩ := bind_eq_ok_iff.mp read
    rw [← pure_eq_ok_iff.mp read, List.forall_mem_cons]
    exact ⟨lasting.fresh made, inductionHypothesis readRest⟩

theorem allRules_of_ofStrategy (lasting : Monitor.Lasting admitted P) {s : CompositeStrategy}
    (accepted : ofStrategy s = .ok c) : c.AllRules P := by
  obtain ⟨-, -, definitions, -, read⟩ := fresh_of_ofStrategy accepted
  exact allRules_of_subRules lasting read

theorem AllRules.feed (lasting : Monitor.Lasting admitted P) {m : Metric} (admits : admitted m)
    (holds : c.AllRules P) : (c.feed m).AllRules P := by
  rcases feed_cases c m with idle | ⟨place, fed⟩
  · rw [idle]
    exact holds
  · rw [fed, perform]
    cases found : c.subs[place]? with
    | none =>
      rw [check, found]
      exact holds
    | some sub =>
      intro other member
      rw [subs_check found, watched] at member
      rcases List.mem_or_eq_of_mem_set member with present | changed
      · exact holds other present
      · rw [changed]
        exact lasting.check admits (holds sub (List.mem_of_getElem? found))

theorem AllRules.foldl_feed (lasting : Monitor.Lasting admitted P) {metrics : List Metric}
    (admits : ∀ m ∈ metrics, admitted m) (holds : c.AllRules P) :
    (metrics.foldl Composite.feed c).AllRules P := by
  induction metrics generalizing c with
  | nil => exact holds
  | cons m metrics inductionHypothesis =>
    rw [List.forall_mem_cons] at admits
    exact inductionHypothesis admits.2 (AllRules.feed lasting admits.1 holds)

theorem AllRules.evictIdle (lasting : Monitor.Lasting admitted P) (cutoff : Int64)
    (holds : c.AllRules P) : (c.evictIdle cutoff).AllRules P := by
  intro sub member
  obtain ⟨earlier, present, rfl⟩ := List.mem_map.mp member
  exact lasting.evictIdle cutoff (holds earlier present)

end Composite

namespace Engine

structure AllMonitors (P : Monitor → Prop) (e : Engine) : Prop where
  monitors : ∀ (id : Int64) (u : Monitor), e.monitors[id]? = some u → P u
  rules : ∀ (id : Int64) (c : Composite), e.composites[id]? = some c → c.AllRules P

def Call.Admits (admitted : Metric → Prop) : Call → Prop
  | .judge metrics => ∀ m ∈ metrics, admitted m
  | _ => True

variable {e : Engine}

theorem allMonitors_new (policy : DebouncePolicy) : AllMonitors P { policy := policy } where
  monitors id u found := by simp at found
  rules id c found := by simp at found

theorem AllMonitors.judge (lasting : Monitor.Lasting admitted P) (formed : WellFormed e)
    (now : Instant) {metrics : List Metric} (admits : ∀ m ∈ metrics, admitted m)
    (holds : e.AllMonitors P) : (e.judge now metrics).2.AllMonitors P where
  monitors id u found := by
    rw [judge_monitors formed, Option.map_eq_some_iff] at found
    obtain ⟨earlier, atWork, rfl⟩ := found
    exact lasting.foldl_receive admits (holds.monitors id earlier atWork)
  rules id c found := by
    rw [judge_composites, Option.map_eq_some_iff] at found
    obtain ⟨earlier, atWork, rfl⟩ := found
    exact Composite.AllRules.foldl_feed lasting admits (holds.rules id earlier atWork)

theorem AllMonitors.setStrategies (lasting : Monitor.Lasting admitted P)
    (registered : Registered e) (now : Instant) (strategies : List Strategy)
    (holds : e.AllMonitors P) : (e.setStrategies now strategies).2.AllMonitors P where
  monitors id u found := by
    rw [Engine.setStrategies, reconcile_eq] at found
    obtain ⟨s, -, ⟨kept, -⟩ | ⟨made, -⟩⟩ :=
      StrategyKind.reconcile_cases StrategyKind.lawful_plain registered.monitors found
    · exact holds.monitors id u kept
    · exact lasting.fresh made
  rules := holds.rules

theorem AllMonitors.setComposites (lasting : Monitor.Lasting admitted P)
    (registered : Registered e) (now : Instant) (strategies : List CompositeStrategy)
    (holds : e.AllMonitors P) : (e.setComposites now strategies).2.AllMonitors P where
  monitors := holds.monitors
  rules id c found := by
    rw [Engine.setComposites, reconcileComposites_eq] at found
    obtain ⟨s, -, ⟨kept, -⟩ | ⟨made, -⟩⟩ :=
      StrategyKind.reconcile_cases StrategyKind.lawful_composite registered.composites found
    · exact holds.rules id c kept
    · exact Composite.allRules_of_ofStrategy lasting made

theorem AllMonitors.scan (now : Instant) (holds : e.AllMonitors P) :
    (e.scan now).2.AllMonitors P where
  monitors := holds.monitors
  rules id c found := by
    rw [Engine.scan, ExtTreeMap.getElem?_map, Option.map_eq_some_iff] at found
    obtain ⟨earlier, atWork, rfl⟩ := found
    exact holds.rules id earlier atWork

theorem AllMonitors.evictIdle (lasting : Monitor.Lasting admitted P) (cutoff : Int64)
    (holds : e.AllMonitors P) : (e.evictIdle cutoff).AllMonitors P where
  monitors id u found := by
    rw [Engine.evictIdle, ExtTreeMap.getElem?_map, Option.map_eq_some_iff] at found
    obtain ⟨earlier, atWork, rfl⟩ := found
    exact lasting.evictIdle cutoff (holds.monitors id earlier atWork)
  rules id c found := by
    rw [Engine.evictIdle, ExtTreeMap.getElem?_map, Option.map_eq_some_iff] at found
    obtain ⟨earlier, atWork, rfl⟩ := found
    exact Composite.AllRules.evictIdle lasting cutoff (holds.rules id earlier atWork)

theorem allMonitors_perform (lasting : Monitor.Lasting admitted P) (formed : WellFormed e)
    (registered : Registered e) (now : Instant) {call : Call} (admits : call.Admits admitted)
    (holds : e.AllMonitors P) : (e.perform now call).2.AllMonitors P := by
  cases call with
  | judge metrics => exact holds.judge lasting formed now admits
  | setStrategies strategies => exact holds.setStrategies lasting registered now strategies
  | setComposites strategies => exact holds.setComposites lasting registered now strategies
  | scan => exact holds.scan now
  | evictIdle cutoff => exact holds.evictIdle lasting cutoff

/-- What lasts holds of every monitor after a run whose metrics are all of the sort. -/
theorem allMonitors_run (lasting : Monitor.Lasting admitted P) (policy : DebouncePolicy)
    {calls : List (Instant × Call)} (admits : ∀ call ∈ calls, call.2.Admits admitted) :
    (run { policy := policy } calls).2.AllMonitors P := by
  induction calls using List.reverseRecOn with
  | nil => exact allMonitors_new policy
  | append_singleton calls call inductionHypothesis =>
    rw [List.forall_mem_append, List.forall_mem_singleton] at admits
    rw [run_snoc]
    exact allMonitors_perform lasting (wellFormed_run (wellFormed_new policy) calls)
      (registered_run (registered_new policy) calls) call.1 admits.2
      (inductionHypothesis admits.1)

end Engine

end AlertEngine
