import AlertEngine.Engine
import AlertEngine.Settings

/-!
# The service

The engine with its settings and its files.

* `Service.reload`: brings in the strategies of the seed files.
* `Service.line`: judges the metrics of one line of input.
* `Service.tick`: scans the composites and forgets the series that have been silent for too long.

Files are given as a function from paths to their contents, so that each of these is a function of
what it is given.
-/

namespace AlertEngine

structure Service where
  settings : Settings := {}
  engine : Engine := {}

inductive LineError where
  | invalidBatch
  | invalidMetric
deriving DecidableEq, Repr

/-- The metrics of a line: one metric, a list of them, or none if the line is blank. -/
def readBatch (line : String) : Except LineError (List Metric) :=
  match Text.trim line.toList with
  | [] => .ok []
  | '[' :: rest =>
    match (Json.Tree.ofText? ('[' :: rest)).bind (Json.Tree.list? Metric.ofTree?) with
    | some metrics => .ok metrics
    | none => .error .invalidBatch
  | text =>
    match (Json.Tree.ofText? text).bind Metric.ofTree? with
    | some metric => .ok [metric]
    | none => .error .invalidMetric

namespace Service

def ofSettings (settings : Settings) : Service where
  settings := settings
  engine := { policy := settings.policy }

/-- Brings in the strategies of the seed files; the events to report. The service stays as it is if
a file cannot be read. -/
def reload (s : Service) (files : Files) (now : Instant) :
    Except SetupError (List Event × Service) := do
  let strategies ← readStrategies files s.settings.strategiesPath
  let composites ← s.settings.compositesPath.mapM (readComposites files)
  let (closed, engine) := s.engine.setStrategies now strategies
  match composites with
  | none => return (closed, { s with engine := engine })
  | some composites =>
    let (more, engine) := engine.setComposites now composites
    return (closed ++ more, { s with engine := engine })

def line (s : Service) (now : Instant) (text : String) :
    Except LineError (Nat × List Event × Service) := do
  let metrics ← readBatch text
  let (reported, engine) := s.engine.judge now metrics
  return (metrics.length, reported, { s with engine := engine })

def clamp64 (n : Int) : Int64 :=
  Int64.ofInt (max Int64.minValue.toInt (min Int64.maxValue.toInt n))

/-- The time before which a series counts as silent. The idle time is taken as a number with sign,
and the difference stays within the range of 64 bits. -/
def cutoff (latest : Int64) (idle : UInt64) : Int64 :=
  clamp64 (latest.toInt - idle.toInt64.toInt)

def tick (s : Service) (now : Instant) : List Event × Service :=
  let (reported, engine) := s.engine.scan now
  let engine :=
    if s.settings.windowIdle = 0 then engine
    else engine.evictIdle (cutoff engine.latest s.settings.windowIdle)
  (reported, { s with engine := engine })

end Service

end AlertEngine
