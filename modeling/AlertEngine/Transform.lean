import AlertEngine.Metric
import AlertEngine.RuleText
import AlertEngine.Text.LowerCase

/-!
# Field transforms

Which value of a metric is judged, as a call with arguments:

* `select(field)`: the field.
* `rangeselect(field,min,max,other,default)`: if the field is in the range, the other field, else
  the default.
* `rangeand(f,min,max,...,field)`: the field, if every range holds.
* `rangeor(f,min,max,...,field)`: the field, if some range holds.

`Transform.parse` reads the text, `Transform.apply` finds the value.
-/

namespace AlertEngine

structure FieldRange where
  field : String
  min : Float
  max : Float
deriving DecidableEq

inductive Transform where
  | select (field : String)
  | rangeSelect (field : String) (min max : Float) (other : String) (default : Float)
  | rangeAnd (ranges : List FieldRange) (field : String)
  | rangeOr (ranges : List FieldRange) (field : String)
deriving DecidableEq

/-- Whether a value lies within bounds; NaN never does. -/
def isWithin (min max value : Float) : Bool := min ≤ value && value ≤ max

def FieldRange.contains (r : FieldRange) (value : Float) : Bool := isWithin r.min r.max value

namespace Transform

/-! ## Text -/

/-- A call as its name in lower case and its arguments. The arguments stand between the first
opening bracket and a closing one at the end. -/
def splitCall (text : List Char) : Except RuleError (List Char × List (List Char)) :=
  let text := Text.trim text
  let malformed : RuleError := .malformed (String.ofList text)
  match Text.cutAt? '(' text with
  | none => .error malformed
  | some (name, rest) =>
    match Text.stripLast? ')' rest with
    | none => .error malformed
    | some inner =>
      let name := Text.lower (Text.trim name)
      if name.isEmpty then .error malformed
      else if (Text.trim inner).isEmpty then .ok (name, [])
      else .ok (name, (Text.splitOn ',' inner).map Text.trim)

/-- Ranges and the field behind them, from arguments that come in threes with one more at the
end. -/
def rangesAndField : List (List Char) → Option (Except RuleError (List FieldRange) × String)
  | [field] => some (.ok [], String.ofList field)
  | field :: min :: max :: rest => do
    let (ranges, result) ← rangesAndField rest
    let range : Except RuleError FieldRange := do
      return ⟨String.ofList field, ← RuleText.number min, ← RuleText.number max⟩
    return (do return (← range) :: (← ranges), result)
  | _ => none

def ofCall (name : List Char) (arguments : List (List Char)) : Except RuleError Transform :=
  let arity (expected : String) : RuleError :=
    .arity (String.ofList name) expected arguments.length
  match String.ofList name with
  | "select" =>
    match arguments with
    | [field] => if field.isEmpty then .error (arity "1") else .ok (.select (String.ofList field))
    | _ => .error (arity "1")
  | "rangeselect" =>
    match arguments with
    | [field, min, max, other, default] => do
      return .rangeSelect (String.ofList field) (← RuleText.number min) (← RuleText.number max)
        (String.ofList other) (← RuleText.number default)
    | _ => .error (arity "5")
  | "rangeand" =>
    match arguments.length, rangesAndField arguments with
    | _ + 4, some (ranges, field) => ranges.map fun rs => .rangeAnd rs field
    | _, _ => .error (arity "3k+1")
  | "rangeor" =>
    match arguments.length, rangesAndField arguments with
    | _ + 4, some (ranges, field) => ranges.map fun rs => .rangeOr rs field
    | _, _ => .error (arity "3k+1")
  | other => .error (.unknownTransform other)

def parse (text : String) : Except RuleError Transform := do
  let (name, arguments) ← splitCall text.toList
  ofCall name arguments

/-! ## Value -/

def readField (m : Metric) (field : String) : Except JudgeError Float :=
  match m.field? field with
  | some x => .ok x
  | none => .error (.fieldMissing field)

def checkRanges (m : Metric) : List FieldRange → Except JudgeError Unit
  | [] => .ok ()
  | r :: rs =>
    match m.field? r.field with
    | none => .error (.fieldMissing r.field)
    | some x => if r.contains x then checkRanges m rs else .error (.outOfRange r.field)

def rangeHolds (m : Metric) (r : FieldRange) : Bool :=
  match m.field? r.field with
  | some x => r.contains x
  | none => false

def apply (t : Transform) (m : Metric) : Except JudgeError Float :=
  match t with
  | select field => readField m field
  | rangeSelect field min max other default => do
    let x ← readField m field
    if isWithin min max x then readField m other else .ok default
  | rangeAnd ranges field => do
    checkRanges m ranges
    readField m field
  | rangeOr ranges field =>
    if ranges.any (rangeHolds m) then readField m field else .error (.outOfRange field)

end Transform

end AlertEngine
