import AlertEngine.Json.Record

/-!
# Strategies

The declarative form of alerting rules, as they are delivered.

* `Strategy`: one metric judged by one calculation against one threshold.
* `CompositeStrategy`: several strategies whose weights are summed per group of series.

Their equality compares numbers as numbers: `0.0` equals `-0.0`, and NaN equals nothing.
-/

namespace AlertEngine

structure Strategy where
  id : Int64
  name : String := ""
  metric : String
  /-- Which value of a sample is judged, such as `select(value)`. -/
  fieldTransform : String := "select(value)"
  /-- The calculation and its window, such as `have(#5,2)`. -/
  func : String
  /-- Tag filters with commas between them, such as `host^=web,idc=[bj|sh]`. -/
  tags : String := ""
  op : String
  rightValue : Float
  /-- What the rule contributes to the score of a composite strategy. -/
  weight : Float := 0
  groupBy : List String := []
deriving BEq

structure CompositeStrategy where
  id : Int64
  name : String := ""
  strategies : List Strategy := []
  /-- Further strategies in compact form: `metric;transform;func;op;threshold;weight[;tags]`. -/
  rules : List String := []
  op : String
  rightValue : Float
  groupBy : List String := []
deriving BEq

def Strategy.ofTree? (t : Json.Tree) : Option Strategy := do
  let r ← t.record? ["id", "name", "metric", "field_transform", "func", "tags", "op", "right_value",
    "weight", "group_by"]
  return {
    id := ← r.required? "id" Json.Tree.int64?
    name := ← r.withDefault? "name" "" Json.Tree.text?
    metric := ← r.required? "metric" Json.Tree.text?
    fieldTransform := ← r.withDefault? "field_transform" "select(value)" Json.Tree.text?
    func := ← r.required? "func" Json.Tree.text?
    tags := ← r.withDefault? "tags" "" Json.Tree.text?
    op := ← r.required? "op" Json.Tree.text?
    rightValue := ← r.required? "right_value" Json.Tree.float?
    weight := ← r.withDefault? "weight" 0 Json.Tree.float?
    groupBy := ← r.withDefault? "group_by" [] (Json.Tree.list? Json.Tree.text?) }

def CompositeStrategy.ofTree? (t : Json.Tree) : Option CompositeStrategy := do
  let r ← t.record? ["id", "name", "strategies", "rules", "op", "right_value", "group_by"]
  return {
    id := ← r.required? "id" Json.Tree.int64?
    name := ← r.withDefault? "name" "" Json.Tree.text?
    strategies := ← r.withDefault? "strategies" [] (Json.Tree.list? Strategy.ofTree?)
    rules := ← r.withDefault? "rules" [] (Json.Tree.list? Json.Tree.text?)
    op := ← r.required? "op" Json.Tree.text?
    rightValue := ← r.required? "right_value" Json.Tree.float?
    groupBy := ← r.withDefault? "group_by" [] (Json.Tree.list? Json.Tree.text?) }

end AlertEngine
