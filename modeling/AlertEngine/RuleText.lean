import AlertEngine.Error

/-!
# Numbers in rule text

A word of a rule that has to be a number either is one or is named in the error.
-/

namespace AlertEngine.RuleText

def number (word : List Char) : Except RuleError Float :=
  match Decimal.readFloat? word with
  | some x => .ok x
  | none => .error (.invalidNumber (String.ofList word))

def integer (word : List Char) : Except RuleError Int :=
  match readInteger? word with
  | some n => .ok n
  | none => .error (.invalidNumber (String.ofList word))

end AlertEngine.RuleText
