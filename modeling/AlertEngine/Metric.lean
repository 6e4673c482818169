import AlertEngine.Digest
import AlertEngine.Json.Record

/-!
# Metrics

A sample of a time series: a value and further fields, measured under a name, with tags, at an
endpoint.

* `Metric.field?`: a number of the sample by name.
* `Metric.resolvedTags`: the tags with the endpoint among them.
* `Metric.identityText`, `Metric.identity`: what tells the series of samples apart, and its
  fingerprint.
-/

namespace AlertEngine

structure Metric where
  name : String
  value : Float := 0
  fields : Dictionary Float := ∅
  tags : Dictionary String := ∅
  endpoint : String := ""
  /-- Unix seconds. -/
  timestamp : Int64 := 0
  step : Int64 := 0

def endpointTag : String := "endpoint"

def tagText (tags : Dictionary String) : String :=
  ", ".intercalate
    ((tags.toList.map fun t => t.1 ++ "=" ++ t.2).mergeSort fun a b => (compare a b).isLE)

namespace Metric

/-- The field of a name; the name `value` means the value of the sample itself. -/
def field? (m : Metric) (name : String) : Option Float :=
  if name = "value" then some m.value else m.fields[name]?

/-- The tags of a metric, where its endpoint takes the place of a tag of that name. -/
def resolvedTags (m : Metric) : Dictionary String := m.tags.insert endpointTag m.endpoint

/-- The text that tells the series of metrics apart: the name, the tags in ascending order of their
keys and the endpoint, each after a unit separator. -/
def identityText (m : Metric) : String :=
  m.name ++ String.join (m.tags.toList.map fun t => "\x1f" ++ t.1 ++ "=" ++ t.2) ++
    "\x1f" ++ m.endpoint

def identity (m : Metric) : String := Digest.fingerprint m.identityText

def ofTree? (t : Json.Tree) : Option Metric := do
  let r ← t.record? ["name", "value", "fields", "tags", "endpoint", "timestamp", "step"]
  return {
    name := ← r.required? "name" Json.Tree.text?
    value := ← r.withDefault? "value" 0 Json.Tree.float?
    fields := ← r.withDefault? "fields" ∅ (Json.Tree.dictionary? Json.Tree.float?)
    tags := ← r.withDefault? "tags" ∅ (Json.Tree.dictionary? Json.Tree.text?)
    endpoint := ← r.withDefault? "endpoint" "" Json.Tree.text?
    timestamp := ← r.withDefault? "timestamp" 0 Json.Tree.int64?
    step := ← r.withDefault? "step" 0 Json.Tree.int64? }

end Metric

end AlertEngine
