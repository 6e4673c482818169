import AlertEngine.Composite.CompactRule
import AlertEngine.Composite.Score
import AlertEngine.Monitor

/-!
# Composite monitors

A composite strategy at work. Its rules judge metrics like monitors of their own; a rule that fails
on a series leaves an item in the group of that series, and a scan compares the score of every
group with one threshold.

* `Composite.ofStrategy`: reads all rules, the explicit ones before the compact ones.
* `Composite.accept?`, `Composite.check`: finds the rule for a metric, and judges the metric by it.
* `Composite.scan`: reports on every group, and drops the groups without items.
* `ruleText`, `groupText`: what tells rules and groups apart, before it is fingerprinted.
-/

namespace AlertEngine

/-! ## Rules -/

/-- Thresholds stand in rule texts positionally, with the fewest digits that identify them. -/
def thresholdLayout : Decimal.Layout where
  tie := .upward
  positional _ := true
  wholeSuffix := ""
  exponentMark := ""
  negativeExponentMark := ""
  nan := "NaN"
  infinity := "inf"
  negInfinity := "-inf"

/-- The text that tells rules apart: all that decides when a rule fails, with bars between. -/
def ruleText (s : Strategy) : String :=
  s.metric ++ "|" ++ s.fieldTransform ++ "|" ++ s.func ++ "|" ++ s.op ++ "|" ++
    String.ofList (thresholdLayout.write s.rightValue) ++ "|" ++ s.tags

structure SubRule where
  /-- `{composite}_{index}`. -/
  key : String
  /-- The fingerprint of the rule's text. -/
  hash : String
  weight : Float
  monitor : Monitor

/-! ## Groups -/

abbrev ScoreItems := Std.ExtTreeMap (String × String) ScoreItem lexOrd.compare

/-- Series that are scored together. -/
structure ScoreGroup where
  tags : Dictionary String := ∅
  /-- The endpoint of the metric that failed last. -/
  endpoint : String := ""
  /-- The name of the metric that failed last. -/
  metric : String := ""
  /-- The latest time of a metric that was judged in this group. -/
  timestamp : Int64 := 0
  items : ScoreItems := ∅

def groupOfAll : String := "all"

def groupText (tags : Dictionary String) : String :=
  if tags.isEmpty then groupOfAll
  else ",".intercalate (tags.toList.map fun t => t.1 ++ "=" ++ t.2)

def groupKey (tags : Dictionary String) : String :=
  if tags.isEmpty then groupOfAll else Digest.fingerprint (groupText tags)

namespace ScoreGroup

def score (g : ScoreGroup) : Float := ScoreItem.score (g.items.toList.map Prod.snd)

/-- A group after a rule has failed on a series. The tags are those of the first metric. -/
def fail (g : ScoreGroup) (tags : Dictionary String) (m : Metric) (item : ScoreItem) :
    ScoreGroup where
  tags := if g.tags.isEmpty then tags else g.tags
  endpoint := m.endpoint
  metric := m.name
  timestamp := max g.timestamp m.timestamp
  items := g.items.insert (item.ruleKey, item.identity) item

def clear (g : ScoreGroup) (ruleKey identity : String) (m : Metric) : ScoreGroup :=
  { g with
    timestamp := max g.timestamp m.timestamp
    items := g.items.erase (ruleKey, identity) }

end ScoreGroup

/-! ## The monitor -/

structure Composite where
  strategy : CompositeStrategy
  comparison : Comparison
  subs : List SubRule
  groups : Dictionary ScoreGroup := ∅

namespace Composite

def id (c : Composite) : Int64 := c.strategy.id

/-- The compact rules as strategies; the id of each is its place among all rules. -/
def compactRules (place : Nat) : List String → Except RuleError (List Strategy)
  | [] => .ok []
  | text :: texts => do
    let s ← CompactRule.parse (Int64.ofNat place) text
    return s :: (← compactRules (place + 1) texts)

def definitions (s : CompositeStrategy) : Except RuleError (List Strategy) := do
  return s.strategies ++ (← compactRules s.strategies.length s.rules)

def subKey (id : Int64) (place : Nat) : String :=
  String.ofList (writeInteger id.toInt ++ '_' :: writeInteger place)

def subRules (id : Int64) (place : Nat) : List Strategy → Except RuleError (List SubRule)
  | [] => .ok []
  | s :: rest => do
    let monitor ← Monitor.ofStrategy s
    let sub : SubRule := {
      key := subKey id place
      hash := Digest.fingerprint (ruleText s)
      weight := s.weight
      monitor := monitor }
    return sub :: (← subRules id (place + 1) rest)

def ofStrategy (s : CompositeStrategy) : Except RuleError Composite := do
  let comparison ← Comparison.ofText s.op
  let subs ← subRules s.id 0 (← definitions s)
  return { strategy := s, comparison := comparison, subs := subs }

def accept? (c : Composite) (m : Metric) : Option Nat :=
  c.subs.findIdx? fun sub => sub.monitor.accepts m

def subCount (c : Composite) : Nat := c.subs.length

def subKey? (c : Composite) (place : Nat) : Option String := (c.subs[place]?).map SubRule.key

/-- The tags by which a metric is grouped; one that it has not is empty. -/
def groupTags (c : Composite) (m : Metric) : Dictionary String :=
  Dictionary.ofEntries
    (c.strategy.groupBy.map fun key => (key, (m.resolvedTags[key]?).getD ""))

/-- The groups after one rule has judged a metric. Only a failure makes a group. -/
def record (c : Composite) (sub : SubRule) (identity : String) (m : Metric)
    (judgment : Judgment) : Composite :=
  let tags := c.groupTags m
  let key := groupKey tags
  match judgment.status with
  | .problem =>
    let item : ScoreItem := {
      ruleKey := sub.key
      ruleHash := sub.hash
      weight := sub.weight
      value := judgment.leftValue
      identity := identity
      timestamp := m.timestamp }
    let group := (c.groups[key]?).getD {}
    { c with groups := c.groups.insert key (group.fail tags m item) }
  | .ok =>
    match c.groups[key]? with
    | some group => { c with groups := c.groups.insert key (group.clear sub.key identity m) }
    | none => c
  | _ => c

def check (c : Composite) (place : Nat) (m : Metric) :
    Except JudgeError Judgment × Composite :=
  match c.subs[place]? with
  | none => (.ok ⟨.ignored, m.value⟩, c)
  | some sub =>
    let identity := m.identity
    let (result, monitor) := sub.monitor.checkSeries identity m
    let c := { c with subs := c.subs.set place { sub with monitor := monitor } }
    match result with
    | .error e => (.error e, c)
    | .ok judgment => (.ok judgment, c.record sub identity m judgment)

def feed (c : Composite) (m : Metric) : Composite :=
  match c.accept? m with
  | some place => (c.check place m).2
  | none => c

/-! ## Scanning -/

def idStart (id : Int64) : String := String.ofList ("m_".toList ++ writeInteger id.toInt ++ ['_'])

def itemField (item : ScoreItem) : String × Json :=
  (item.ruleKey ++ ":" ++ item.identity,
    .object [("value", .ofFloat item.value), ("weight", .ofFloat item.weight)])

def report (c : Composite) (now : Instant) (key : String) (g : ScoreGroup) : Event :=
  let score := g.score
  { id := idStart c.id ++ key
    status := if c.comparison.holds score c.strategy.rightValue then .problem else .ok
    leftValue := score
    step := 0
    strategyId := c.id
    metric := g.metric
    endpoint := g.endpoint
    timestamp := g.timestamp
    tags := g.tags
    fields := Dictionary.ofEntries
      [("scores", .ofMembers (g.items.toList.map fun entry => itemField entry.2)),
       ("threshold", .ofFloat c.strategy.rightValue)]
    createdAt := now }

/-- Reports on every group, in ascending order of the keys. Groups without items are dropped once
they have been reported. -/
def scan (c : Composite) (now : Instant) : List Event × Composite :=
  (c.groups.toList.map fun entry => c.report now entry.1 entry.2,
    { c with groups := c.groups.filter fun _ g => !g.items.isEmpty })

def evictIdle (c : Composite) (cutoff : Int64) : Composite :=
  { c with
    subs := c.subs.map fun sub => { sub with monitor := sub.monitor.evictIdle cutoff } }

def idleCount (c : Composite) (cutoff : Int64) : Nat :=
  c.subs.foldl (fun n sub => n + sub.monitor.idleCount cutoff) 0

def groupCount (c : Composite) : Nat := c.groups.size

end Composite

end AlertEngine
