import AlertEngine.Calculation
import AlertEngine.RuleText
import AlertEngine.Text.LowerCase

/-!
# Window functions

The text of a calculation with its window, such as `diff(#5)` or `have(#10,3)`: a name, the size of
the window and, for `have` alone, the number of samples that must meet the condition. Brackets, the
number sign, commas and blanks only keep these words apart.
-/

namespace AlertEngine

structure WindowFunction where
  calculation : Calculation
  size : Nat
  need : Option Int
deriving DecidableEq, Repr

namespace WindowFunction

def maxSize : Int := 100000

def isSeparator (c : Char) : Bool := c = '(' || c = ')' || c = '#' || c = ',' || Text.isBlank c

def checkedSize (word : List Char) : Except RuleError Nat := do
  let n ← RuleText.integer word
  if 1 ≤ n ∧ n ≤ maxSize then .ok n.toNat else .error (.windowOutOfRange n)

def parse (text : String) : Except RuleError WindowFunction :=
  match Text.runs isSeparator text.toList with
  | [] => .error (.malformed text)
  | name :: arguments => do
    let calculation ← Calculation.ofName (String.ofList (Text.lower name))
    match arguments with
    | [size] =>
      let size ← checkedSize size
      if calculation = .atLeast then .error (.missingArgument calculation.name)
      else .ok ⟨calculation, size, none⟩
    | [size, need] =>
      let size ← checkedSize size
      if calculation = .atLeast then return ⟨calculation, size, some (← RuleText.integer need)⟩
      else .error (.arity calculation.name "1" 2)
    | _ => .error (.arity calculation.name "1 or 2" arguments.length)

def samples (f : WindowFunction) : Nat := f.calculation.samplesFor f.size

end WindowFunction

end AlertEngine
