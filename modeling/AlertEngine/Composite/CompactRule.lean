import AlertEngine.RuleText
import AlertEngine.Strategy
import AlertEngine.Text.Basic

/-!
# Compact rules

A strategy on one line, as part of a composite strategy:
`metric;transform;func;op;threshold;weight[;tags]`.
-/

namespace AlertEngine

namespace CompactRule

/-- The strategy of six or seven parts; the seventh holds the tag filters. -/
def ofParts (id : Int64) (parts : List (List Char)) : Except RuleError Strategy :=
  let arity : RuleError := .arity "rule" "6 or 7" parts.length
  match parts with
  | metric :: transform :: func :: op :: threshold :: weight :: tags =>
    if 1 < tags.length then .error arity
    else do
      return {
        id := id
        metric := String.ofList metric
        fieldTransform := String.ofList transform
        func := String.ofList func
        tags := String.ofList (tags.headD [])
        op := String.ofList op
        rightValue := ← RuleText.number threshold
        weight := ← RuleText.number weight }
  | _ => .error arity

def parse (id : Int64) (text : String) : Except RuleError Strategy :=
  ofParts id ((Text.splitOn ';' text.toList).map Text.trim)

end CompactRule

end AlertEngine
