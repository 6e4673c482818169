import AlertEngine.Error
import AlertEngine.Text.Basic

/-!
# Comparisons

The six comparisons of a value with a threshold. Equality is within a tolerance, the order is
exact; with a NaN no comparison holds, not even `!=`.
-/

namespace AlertEngine

inductive Comparison where
  | equal
  | notEqual
  | less
  | lessEqual
  | greater
  | greaterEqual
deriving DecidableEq, Repr

namespace Comparison

def tolerance : Float := 1e-5

def ofText (text : String) : Except RuleError Comparison :=
  match Text.trimmed text with
  | "=" => .ok equal
  | "==" => .ok equal
  | "eq" => .ok equal
  | "!=" => .ok notEqual
  | "<>" => .ok notEqual
  | "ne" => .ok notEqual
  | "<" => .ok less
  | "lt" => .ok less
  | "<=" => .ok lessEqual
  | "lte" => .ok lessEqual
  | "le" => .ok lessEqual
  | ">" => .ok greater
  | "gt" => .ok greater
  | ">=" => .ok greaterEqual
  | "gte" => .ok greaterEqual
  | "ge" => .ok greaterEqual
  | other => .error (.unknownComparison other)

def symbol : Comparison → String
  | equal => "="
  | notEqual => "!="
  | less => "<"
  | lessEqual => "<="
  | greater => ">"
  | greaterEqual => ">="

def holds (c : Comparison) (left right : Float) : Bool :=
  match c with
  | equal => (left - right).abs < tolerance
  | notEqual => tolerance ≤ (left - right).abs
  | less => left < right
  | lessEqual => left ≤ right
  | greater => right < left
  | greaterEqual => right ≤ left

end Comparison

end AlertEngine
