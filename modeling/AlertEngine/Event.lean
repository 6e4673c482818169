import AlertEngine.Instant
import AlertEngine.Json.Record
import AlertEngine.Text.LowerCase

/-!
# Events

What the engine reports: the status of one series under one strategy, or of one group of series
under a composite strategy.

* `Status`: the outcome of a judgment, with its name.
* `Event`: the report itself; `Event.simplified` drops its bulky parts.
* `Event.write`, `Event.ofText?`: its JSON text.
-/

namespace AlertEngine

inductive Status where
  | ok
  | problem
  | ignored
  | badSyntax
  | notEnough
  | fieldMissing
  | outTime
  | outdated
  | noData
  | closed
deriving DecidableEq, Repr

namespace Status

def all : List Status :=
  [ok, problem, ignored, badSyntax, notEnough, fieldMissing, outTime, outdated, noData, closed]

def name : Status → String
  | ok => "ok"
  | problem => "problem"
  | ignored => "ignore"
  | badSyntax => "syntax"
  | notEnough => "notenough"
  | fieldMissing => "fieldmissing"
  | outTime => "outtime"
  | outdated => "outdated"
  | noData => "nodata"
  | closed => "closed"

def ofName? (name : String) : Option Status := all.find? fun s => s.name == name

def ofText? (text : String) : Option Status := ofName? (Text.lowered text)

def unknownMessage (text : String) : String := "unknown event status: " ++ text

def isAlarming (s : Status) : Bool := s == problem

/-- A status from its JSON: its name, alone or as the only key of an object with the value
`null`. -/
def ofTree? : Json.Tree → Option Status
  | .text (some name) => ofName? name
  | .object [(some name, .null)] => ofName? name
  | _ => none

end Status

structure Event where
  /-- `s_{strategy}_{series}` or `m_{strategy}_{group}`. -/
  id : String
  status : Status
  leftValue : Float
  /-- How many judgments with the same status came just before this one. -/
  step : UInt32
  strategyId : Int64
  metric : String
  endpoint : String
  /-- The time of the sample, in Unix seconds. -/
  timestamp : Int64
  tags : Dictionary String := ∅
  fields : Dictionary Json := ∅
  createdAt : Instant

namespace Event

def simplified (e : Event) : Event := { e with tags := ∅, fields := ∅ }

def isSimple (e : Event) : Bool := e.tags.isEmpty && e.fields.isEmpty

/-! ## JSON -/

/-- The members of an event in the order in which they are written; empty tags and empty fields
are left out. -/
def members (e : Event) : List (String × Json) :=
  [("id", .text e.id),
   ("status", .text e.status.name),
   ("left_value", .ofFloat e.leftValue),
   ("step", .whole e.step.toNat),
   ("strategy_id", .whole e.strategyId.toInt),
   ("metric", .text e.metric),
   ("endpoint", .text e.endpoint),
   ("timestamp", .whole e.timestamp.toInt)] ++
  (if e.tags.isEmpty then []
    else [("tags", .object (e.tags.toList.map fun t => (t.1, .text t.2)))]) ++
  (if e.fields.isEmpty then [] else [("fields", .object e.fields.toList)]) ++
  [("created_at", .text (String.ofList e.createdAt.write))]

def write (e : Event) : String := String.ofList (Json.object e.members).write

def maxFieldDepth : Nat := 125

def ofTree? (t : Json.Tree) : Option Event := do
  let r ← t.record? ["id", "status", "left_value", "step", "strategy_id", "metric", "endpoint",
    "timestamp", "tags", "fields", "created_at"]
  return {
    id := ← r.required? "id" Json.Tree.text?
    status := ← r.required? "status" Status.ofTree?
    leftValue := ← r.required? "left_value" Json.Tree.float?
    step := ← r.required? "step" Json.Tree.uint32?
    strategyId := ← r.required? "strategy_id" Json.Tree.int64?
    metric := ← r.required? "metric" Json.Tree.text?
    endpoint := ← r.required? "endpoint" Json.Tree.text?
    timestamp := ← r.required? "timestamp" Json.Tree.int64?
    tags := ← r.withDefault? "tags" ∅ (Json.Tree.dictionary? Json.Tree.text?)
    fields := ← r.withDefault? "fields" ∅
      (Json.Tree.dictionary? (Json.Tree.json? maxFieldDepth))
    createdAt := ← r.required? "created_at" fun t => do Instant.read? (← t.text?).toList }

def ofText? (text : String) : Option Event := do ofTree? (← Json.Tree.ofText? text.toList)

end Event

end AlertEngine
