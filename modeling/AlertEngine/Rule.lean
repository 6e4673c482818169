import AlertEngine.Strategy
import AlertEngine.TagFilter
import AlertEngine.Transform
import AlertEngine.WindowFunction

/-!
# Rules

A rule is a strategy whose texts have been read: what it takes from a metric, how many samples it
looks at, what it calculates from them, and which metrics it is about.
-/

namespace AlertEngine

structure Rule where
  transform : Transform
  function : WindowFunction
  comparison : Comparison
  threshold : Float
  filters : List TagFilter

namespace Rule

/-- The rule of a strategy. Of several faults the first one counts, in the order transform,
function, comparison, tag filters. -/
def compile (s : Strategy) : Except RuleError Rule := do
  return {
    transform := ← Transform.parse s.fieldTransform
    function := ← WindowFunction.parse s.func
    comparison := ← Comparison.ofText s.op
    threshold := s.rightValue
    filters := ← TagFilter.parse s.tags }

def limit (r : Rule) : Nat := r.function.samples

def acceptsTags (r : Rule) (tags : Dictionary String) : Bool :=
  r.filters.all fun f => f.accepts tags

def evaluate (r : Rule) (window : List Float) : Except CalculationError Outcome :=
  r.function.calculation.run window r.threshold r.comparison r.function.need

end Rule

end AlertEngine
