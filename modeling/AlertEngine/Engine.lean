import AlertEngine.Composite.Basic
import AlertEngine.Debounce

/-!
# The engine

All monitors and composites at work, with the table that debounces their events.

* `Engine.setStrategies`, `Engine.setComposites`: bring in a full set of strategies. A strategy
  that has not changed keeps its state; the events of one that is gone are closed.
* `Engine.judge`: judges metrics and gives the events to report.
* `Engine.scan`: scores the composites and gives the events to report.
* `Engine.evictIdle`: forgets the series that have been silent for too long.

Every operation that makes events is given the time at which they are made.
-/

namespace AlertEngine

structure Engine where
  policy : DebouncePolicy := {}
  /-- The monitors, by the id of their strategy. -/
  monitors : Std.ExtTreeMap Int64 Monitor := ∅
  /-- The ids of the monitors of each metric name, in ascending order. -/
  dispatch : Dictionary (List Int64) := ∅
  /-- The composites, by the id of their strategy. -/
  composites : Std.ExtTreeMap Int64 Composite := ∅
  table : DebounceTable := {}
  /-- The latest time of a metric that was judged. -/
  latest : Int64 := 0

namespace Engine

/-! ## Strategies -/

/-- The monitors for a set of strategies. A strategy equal to the one that is at work under its id
keeps its monitor. One that cannot be read is passed over. Of several under one id the last that can
be read counts. -/
def reconcile (old : Std.ExtTreeMap Int64 Monitor) (strategies : List Strategy) :
    Std.ExtTreeMap Int64 Monitor :=
  strategies.foldl (fun next s => place next s) ∅
where
  place (next : Std.ExtTreeMap Int64 Monitor) (s : Strategy) : Std.ExtTreeMap Int64 Monitor :=
    match (old[s.id]?).filter fun u => u.strategy == s with
    | some kept => next.insert s.id kept
    | none =>
      match Monitor.ofStrategy s with
      | .ok fresh => next.insert s.id fresh
      | .error _ => next

def reconcileComposites (old : Std.ExtTreeMap Int64 Composite)
    (strategies : List CompositeStrategy) : Std.ExtTreeMap Int64 Composite :=
  strategies.foldl (fun next s => place next s) ∅
where
  place (next : Std.ExtTreeMap Int64 Composite) (s : CompositeStrategy) :
      Std.ExtTreeMap Int64 Composite :=
    match (old[s.id]?).filter fun c => c.strategy == s with
    | some kept => next.insert s.id kept
    | none =>
      match Composite.ofStrategy s with
      | .ok fresh => next.insert s.id fresh
      | .error _ => next

def dispatchOf (monitors : Std.ExtTreeMap Int64 Monitor) : Dictionary (List Int64) :=
  monitors.toList.foldl (fun index entry => add index entry.1 entry.2.strategy.metric) ∅
where
  add (index : Dictionary (List Int64)) (id : Int64) (metric : String) :
      Dictionary (List Int64) :=
    index.insert metric ((index[metric]?).getD [] ++ [id])

def idStart (id : Int64) : String := String.ofList ("s_".toList ++ writeInteger id.toInt ++ ['_'])

def closeAll (table : DebounceTable) (now : Instant) : List String → List Event × DebounceTable
  | [] => ([], table)
  | start :: starts =>
    let (closed, table) := table.close now start
    let (rest, table) := closeAll table now starts
    (closed ++ rest, table)

def setStrategies (e : Engine) (now : Instant) (strategies : List Strategy) :
    List Event × Engine :=
  let monitors := reconcile e.monitors strategies
  let gone := e.monitors.keys.filter fun id => !monitors.contains id
  let (closed, table) := closeAll e.table now (gone.map idStart)
  (closed, { e with monitors := monitors, dispatch := dispatchOf monitors, table := table })

def setComposites (e : Engine) (now : Instant) (strategies : List CompositeStrategy) :
    List Event × Engine :=
  let composites := reconcileComposites e.composites strategies
  let gone := e.composites.keys.filter fun id => !composites.contains id
  let (closed, table) := closeAll e.table now (gone.map Composite.idStart)
  (closed, { e with composites := composites, table := table })

/-! ## Judging -/

def eventOf (now : Instant) (u : Monitor) (identity : String) (m : Metric) (judgment : Judgment) :
    Event where
  id := idStart u.id ++ identity
  status := judgment.status
  leftValue := judgment.leftValue
  step := 0
  strategyId := u.id
  metric := m.name
  endpoint := m.endpoint
  timestamp := m.timestamp
  tags := m.resolvedTags
  fields := Dictionary.ofEntries
    [("threshold", .ofFloat u.rule.threshold),
     ("op", .text u.rule.comparison.symbol),
     ("func", .text u.strategy.func)]
  createdAt := now

/-- Records a judgment by a monitor. Only `ok` and `problem` leave a trace. -/
def record (e : Engine) (now : Instant) (u : Monitor) (identity : String) (m : Metric)
    (judgment : Judgment) : Option Event × Engine :=
  if judgment.status = .ok ∨ judgment.status = .problem then
    let (reported, table) := e.table.observe e.policy (eventOf now u identity m judgment)
    (reported, { e with table := table })
  else (none, e)

def judgeBy (e : Engine) (now : Instant) (m : Metric) (id : Int64) : Option Event × Engine :=
  match e.monitors[id]? with
  | none => (none, e)
  | some u =>
    if u.accepts m then
      let identity := m.identity
      let (result, after) := u.checkSeries identity m
      let e := { e with monitors := e.monitors.insert id after }
      match result with
      | .ok judgment => e.record now after identity m judgment
      | .error _ => (none, e)
    else (none, e)

def judgeByAll (e : Engine) (now : Instant) (m : Metric) : List Int64 → List Event × Engine
  | [] => ([], e)
  | id :: ids =>
    let (reported, e) := e.judgeBy now m id
    let (rest, e) := e.judgeByAll now m ids
    (reported.toList ++ rest, e)

def candidates (e : Engine) (metric : String) : List Int64 := (e.dispatch[metric]?).getD []

/-- Judges a metric by all monitors that are about its name, then by every composite. -/
def judgeMetric (e : Engine) (now : Instant) (m : Metric) : List Event × Engine :=
  let e := { e with latest := max e.latest m.timestamp }
  let (reported, e) := e.judgeByAll now m (e.candidates m.name)
  (reported, { e with composites := e.composites.map fun _ c => c.feed m })

def judge (e : Engine) (now : Instant) : List Metric → List Event × Engine
  | [] => ([], e)
  | m :: ms =>
    let (reported, e) := e.judgeMetric now m
    let (rest, e) := e.judge now ms
    (reported ++ rest, e)

/-! ## Scanning and forgetting -/

/-- Scores every composite, in ascending order of the ids; the events to report. -/
def scan (e : Engine) (now : Instant) : List Event × Engine :=
  let reports := e.composites.toList.flatMap fun entry => (entry.2.scan now).1
  let (reported, table) := e.table.observeAll e.policy reports
  (reported, { e with composites := e.composites.map fun _ c => (c.scan now).2, table := table })

def evictIdle (e : Engine) (cutoff : Int64) : Engine :=
  { e with
    monitors := e.monitors.map fun _ u => u.evictIdle cutoff
    composites := e.composites.map fun _ c => c.evictIdle cutoff }

def idleCount (e : Engine) (cutoff : Int64) : Nat :=
  e.monitors.values.foldl (fun n u => n + u.idleCount cutoff) 0 +
    e.composites.values.foldl (fun n c => n + c.idleCount cutoff) 0

def monitorCount (e : Engine) : Nat := e.monitors.size

def compositeCount (e : Engine) : Nat := e.composites.size

end Engine

end AlertEngine
