import AlertEngine.CommandLine
import AlertEngine.Proofs.Isolation

/-! # Times of events

The time at which an event is made is written into the event and decides nothing else. Apart from
these times, what the service reports and what it becomes are the same at every clock.

* `DebounceTable.undated`, `Engine.undated`, `Service.undated`: states apart from the times of
  events.
* `Engine.judge_undated`, `Engine.scan_undated`: a call commutes with leaving out the times.
* `Service.replayAt`: lines with the time at which each is read; `Service.replayAt_undated`.
-/

namespace AlertEngine

open Std (ExtTreeMap)

variable {now : Instant}

namespace DebounceTable

def undated (t : DebounceTable) : DebounceTable := ⟨t.events.map fun _ e => e.undated⟩

theorem get?_undated (t : DebounceTable) (id : String) :
    t.undated.get? id = (t.get? id).map Event.undated :=
  ExtTreeMap.getElem?_map

theorem observe_undated_eq (t : DebounceTable) (policy : DebouncePolicy) (e : Event) :
    t.undated.observe policy e.undated =
      ((t.observe policy e).1.map Event.undated, (t.observe policy e).2.undated) := by
  have step : stepAfter (t.undated.get? e.id) e.status = stepAfter (t.get? e.id) e.status := by
    rw [get?_undated, stepAfter_undated]
  apply Prod.ext
  · rw [observe_undated, lastOf, ← get?_undated, observe_fst]
    rfl
  · refine congrArg DebounceTable.mk (ExtTreeMap.ext_getElem? fun id => ?_)
    show (t.undated.observe policy e.undated).2.get? id = (t.observe policy e).2.undated.get? id
    rw [get?_undated]
    by_cases own : id = e.id
    · subst own
      rw [get?_observe_self, Option.map_some, kept_undated, ← step]
      exact get?_observe_self
    · rw [get?_observe_of_ne own, ← get?_undated]
      exact get?_observe_of_ne own

theorem observeAll_undated (t : DebounceTable) (policy : DebouncePolicy) (events : List Event) :
    t.undated.observeAll policy (events.map Event.undated) =
      ((t.observeAll policy events).1.map Event.undated,
        (t.observeAll policy events).2.undated) := by
  induction events generalizing t with
  | nil => rfl
  | cons e events inductionHypothesis =>
    rw [List.map_cons, observeAll_cons, observe_undated_eq, inductionHypothesis, observeAll_cons,
      List.map_append, Option.toList_map]

end DebounceTable

namespace Engine

def undated (e : Engine) : Engine := { e with table := e.table.undated }

def untimed (outcome : List Event × Engine) : List Event × Engine :=
  (outcome.1.map Event.undated, outcome.2.undated)

variable {e : Engine}

theorem judgeBy_undated (e : Engine) (now : Instant) (m : Metric) (id : Int64) :
    e.undated.judgeBy .epoch m id =
      ((e.judgeBy now m id).1.map Event.undated, (e.judgeBy now m id).2.undated) := by
  have same : e.undated.monitors = e.monitors := rfl
  unfold judgeBy
  rw [same]
  cases e.monitors[id]? with
  | none => rfl
  | some u =>
    dsimp only
    split
    · cases (u.checkSeries m.identity m).1 with
      | error fault => rfl
      | ok judgment =>
        simp only [record]
        split
        · have observed := DebounceTable.observe_undated_eq e.table e.policy
            (eventOf now (u.checkSeries m.identity m).2 m.identity m judgment)
          exact congrArg (fun outcome : Option Event × DebounceTable => (outcome.1,
            { e with
              monitors := e.monitors.insert id (u.checkSeries m.identity m).2
              table := outcome.2 })) observed
        · rfl
    · rfl

theorem judgeByAll_undated (e : Engine) (now : Instant) (m : Metric) (ids : List Int64) :
    e.undated.judgeByAll .epoch m ids = untimed (e.judgeByAll now m ids) := by
  induction ids generalizing e with
  | nil => rfl
  | cons id ids inductionHypothesis =>
    rw [judgeByAll_cons, judgeBy_undated e now, inductionHypothesis, judgeByAll_cons, untimed,
      untimed, List.map_append, Option.toList_map]

theorem judgeMetric_undated (e : Engine) (now : Instant) (m : Metric) :
    e.undated.judgeMetric .epoch m = untimed (e.judgeMetric now m) := by
  have judged := judgeByAll_undated { e with latest := max e.latest m.timestamp } now m
    (e.candidates m.name)
  exact congrArg (fun outcome : List Event × Engine => (outcome.1,
    { outcome.2 with composites := outcome.2.composites.map fun _ (c : Composite) => c.feed m }))
    judged

theorem judge_undated (e : Engine) (now : Instant) (metrics : List Metric) :
    e.undated.judge .epoch metrics = untimed (e.judge now metrics) := by
  induction metrics generalizing e with
  | nil => rfl
  | cons m metrics inductionHypothesis =>
    rw [judge_cons, judgeMetric_undated e now]
    show (_ ++ ((e.judgeMetric now m).2.undated.judge .epoch metrics).1,
      ((e.judgeMetric now m).2.undated.judge .epoch metrics).2) = _
    rw [inductionHypothesis, judge_cons, untimed, untimed, untimed, List.map_append]

theorem scan_undated (e : Engine) (now : Instant) :
    e.undated.scan .epoch = untimed (e.scan now) := by
  have reports : (e.composites.toList.flatMap fun entry => (entry.2.scan .epoch).1) =
      (e.composites.toList.flatMap fun entry => (entry.2.scan now).1).map Event.undated := by
    rw [List.map_flatMap]
    congr 1
    funext entry
    simp only [Composite.scan, List.map_map]
    rfl
  have observed := e.table.observeAll_undated e.policy
    (e.composites.toList.flatMap fun entry => (entry.2.scan now).1)
  rw [← reports] at observed
  exact congrArg (fun outcome : List Event × DebounceTable => (outcome.1,
    { e with
      composites := e.composites.map fun _ (c : Composite) => (c.scan now).2
      table := outcome.2 })) observed

end Engine

namespace Service

def undated (s : Service) : Service := { s with engine := s.engine.undated }

def untimed (outcome : List Event × Service) : List Event × Service :=
  (outcome.1.map Event.undated, outcome.2.undated)

theorem lineOrSkip_undated (s : Service) (now : Instant) (text : String) :
    s.undated.lineOrSkip .epoch text = untimed (s.lineOrSkip now text) := by
  unfold lineOrSkip line
  cases readBatch text with
  | error fault => rfl
  | ok metrics =>
    exact congrArg
      (fun outcome : List Event × Engine => (outcome.1, { s with engine := outcome.2 }))
      (s.engine.judge_undated now metrics)

theorem tick_undated (s : Service) (now : Instant) :
    s.undated.tick .epoch = untimed (s.tick now) := by
  have scanned := s.engine.scan_undated now
  -- Forgetting looks at windows and the clock alone.
  have after (e : Engine) :
      (if s.settings.windowIdle = 0 then e.undated
        else e.undated.evictIdle (cutoff e.undated.latest s.settings.windowIdle)) =
      (if s.settings.windowIdle = 0 then e
        else e.evictIdle (cutoff e.latest s.settings.windowIdle)).undated := by
    split
    · rfl
    · rfl
  refine (congrArg (fun outcome : List Event × Engine => (outcome.1,
    { s with engine :=
        if s.settings.windowIdle = 0 then outcome.2
        else outcome.2.evictIdle (cutoff outcome.2.latest s.settings.windowIdle) }))
    scanned).trans ?_
  exact congrArg (fun e => ((s.engine.scan now).1.map Event.undated, { s with engine := e }))
    (after (s.engine.scan now).2)

def replayAt (s : Service) : List (Instant × String) → List Event × Service
  | [] => ([], s)
  | line :: lines =>
    let (reported, s) := s.lineOrSkip line.1 line.2
    let (rest, s) := s.replayAt lines
    (reported ++ rest, s)

theorem replayAt_undated (s : Service) (lines : List (Instant × String)) :
    s.undated.replay .epoch (lines.map Prod.snd) = untimed (s.replayAt lines) := by
  induction lines generalizing s with
  | nil => rfl
  | cons line lines inductionHypothesis =>
    have first := s.lineOrSkip_undated line.1 line.2
    show ((s.undated.lineOrSkip .epoch line.2).1 ++
        ((s.undated.lineOrSkip .epoch line.2).2.replay .epoch (lines.map Prod.snd)).1,
      ((s.undated.lineOrSkip .epoch line.2).2.replay .epoch (lines.map Prod.snd)).2) = _
    rw [first, untimed, inductionHypothesis, untimed, untimed, replayAt, List.map_append]

end Service

end AlertEngine
