import AlertEngine.Event
import AlertEngine.Rule
import AlertEngine.SlidingWindow

/-!
# Monitors

A monitor is a strategy at work: its rule, and one sliding window for every series that it has
seen.

* `Monitor.accepts`: whether a metric is one that the strategy is about.
* `Monitor.check`: takes a metric into its window and judges the window once it is full.
* `Monitor.evictIdle`: forgets the series that have been silent for too long.
-/

namespace AlertEngine

structure Judgment where
  status : Status
  leftValue : Float
deriving DecidableEq

structure Monitor where
  strategy : Strategy
  rule : Rule
  /-- A window for every series, by identity. -/
  windows : Dictionary SlidingWindow := ∅

namespace Monitor

def ofStrategy (s : Strategy) : Except RuleError Monitor :=
  (Rule.compile s).map fun r => { strategy := s, rule := r }

def id (u : Monitor) : Int64 := u.strategy.id

def accepts (u : Monitor) (m : Metric) : Bool :=
  m.name == u.strategy.metric && u.rule.acceptsTags m.resolvedTags

def window (u : Monitor) (identity : String) : SlidingWindow :=
  (u.windows[identity]?).getD { limit := u.rule.limit }

def judgeFull (r : Rule) (w : SlidingWindow) : Except JudgeError Judgment :=
  match r.evaluate w.values with
  | .ok outcome => .ok ⟨if outcome.triggered then .problem else .ok, outcome.value⟩
  | .error e => .error (.calculation e)

/-- Checks a metric of a given series. A metric without the value that is asked for changes
nothing; one that comes too late, or that does not fill its window, is ignored. -/
def checkSeries (u : Monitor) (identity : String) (m : Metric) :
    Except JudgeError Judgment × Monitor :=
  match u.rule.transform.apply m with
  | .error e => (.error e, u)
  | .ok value =>
    match (u.window identity).push? ⟨value, m.timestamp⟩ with
    | none => (.ok ⟨.ignored, value⟩, u)
    | some after =>
      let u := { u with windows := u.windows.insert identity after }
      (if after.isFull then judgeFull u.rule after else .ok ⟨.ignored, value⟩, u)

def check (u : Monitor) (m : Metric) : Except JudgeError Judgment × Monitor :=
  u.checkSeries m.identity m

def evictIdle (u : Monitor) (cutoff : Int64) : Monitor :=
  { u with windows := u.windows.filter fun _ w => w.isActiveSince cutoff }

def idleCount (u : Monitor) (cutoff : Int64) : Nat :=
  u.windows.size - (u.evictIdle cutoff).windows.size

def windowCount (u : Monitor) : Nat := u.windows.size

def windowLength (u : Monitor) (identity : String) : Nat :=
  match u.windows[identity]? with
  | some w => w.samples.length
  | none => 0

end Monitor

end AlertEngine
