import AlertEngine.Decimal.Basic

/-!
# Errors

What can be wrong with the text of a rule, with a calculation on a window, and with a sample that
is to be judged. Each error is a cause; `message` puts it into words.
-/

namespace AlertEngine

inductive RuleError where
  | malformed (text : String)
  | unknownTransform (name : String)
  | unknownCalculation (name : String)
  | unknownComparison (text : String)
  | arity (name expected : String) (got : Nat)
  | invalidNumber (text : String)
  | missingArgument (name : String)
  | windowOutOfRange (size : Int)
  | malformedTagFilter (text : String)
deriving DecidableEq, Repr

inductive CalculationError where
  | emptyWindow
  | tooFewSamples (name : String)
  | missingArgument (name : String)
  | zeroDivisor (index : Nat)
deriving DecidableEq, Repr

inductive JudgeError where
  | fieldMissing (field : String)
  | outOfRange (field : String)
  | calculation (error : CalculationError)
deriving DecidableEq, Repr

def RuleError.message : RuleError → String
  | .malformed text => "Parse: malformed expression '" ++ text ++ "'"
  | .unknownTransform name => "Parse: unknown field transform '" ++ name ++ "'"
  | .unknownCalculation name => "Parse: unknown calculation '" ++ name ++ "'"
  | .unknownComparison text => "Parse: unknown compare operator '" ++ text ++ "'"
  | .arity name expected got =>
    "Parse: " ++ name ++ " expects " ++ expected ++ " arguments, got " ++
      String.ofList (writeInteger got)
  | .invalidNumber text => "Parse: invalid number '" ++ text ++ "'"
  | .missingArgument name => "Parse: " ++ name ++ " requires an integer argument"
  | .windowOutOfRange size =>
    "Parse: window size out of range, got " ++ String.ofList (writeInteger size)
  | .malformedTagFilter text => "Parse: malformed tag filter '" ++ text ++ "'"

def CalculationError.message : CalculationError → String
  | .emptyWindow => "Calc: empty window"
  | .tooFewSamples name => "Calc: " ++ name ++ " needs at least two samples"
  | .missingArgument name => "Calc: " ++ name ++ " requires an integer argument"
  | .zeroDivisor index =>
    "Calc: zero divisor at window index " ++ String.ofList (writeInteger index)

def JudgeError.message : JudgeError → String
  | .fieldMissing field => "Judge: field '" ++ field ++ "' missing"
  | .outOfRange field => "Judge: field '" ++ field ++ "' out of range"
  | .calculation error => "Judge: " ++ error.message

end AlertEngine
