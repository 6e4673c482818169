import AlertEngine.Binary64
import AlertEngine.Comparison
import AlertEngine.Error

/-!
# Calculations on windows

A calculation reduces a window of values, the newest first, to one value and to the answer whether
the window triggers a rule.

* `Calculation`: the twelve calculations, by name.
* `Difference`: the four series of differences that eight of them look at.
* `Calculation.run`: the calculation itself.
* `Calculation.samplesFor`: how many samples a configured window size comes to.
-/

namespace AlertEngine

inductive Calculation where
  | all
  | diff
  | diffAvg
  | adiff
  | adiffAvg
  | rdiff
  | rdiffAvg
  | pdiff
  | pdiffAvg
  | sum
  | avg
  | atLeast
deriving DecidableEq, Repr

structure Outcome where
  value : Float
  triggered : Bool
deriving DecidableEq

/-! ## Differences -/

inductive Difference where
  | fromNewest
  | distanceFromNewest
  | consecutive
  | percent
deriving DecidableEq, Repr

namespace Difference

/-- The change from each sample to the next newer one in percent of the smaller of the two. The
first argument is the index of the older one of the first pair. -/
def percentSeries (index : Nat) : List Float → Except CalculationError (List Float)
  | newer :: older :: rest =>
    let base := Binary64.smaller newer older
    if base == 0 then .error (.zeroDivisor index)
    else
      (percentSeries (index + 1) (older :: rest)).map ((newer - older) / base * 100 :: ·)
  | _ => .ok []

def series (d : Difference) (window : List Float) : Except CalculationError (List Float) :=
  match window with
  | [] => .ok []
  | newest :: older =>
    match d with
    | fromNewest => .ok (older.map fun x => newest - x)
    | distanceFromNewest => .ok (older.map fun x => (newest - x).abs)
    | consecutive => .ok (List.zipWith (· - ·) window older)
    | percent => percentSeries 1 window

end Difference

/-! ## The calculations -/

namespace Calculation

def list : List Calculation :=
  [all, diff, diffAvg, adiff, adiffAvg, rdiff, rdiffAvg, pdiff, pdiffAvg, sum, avg, atLeast]

def name : Calculation → String
  | all => "all"
  | diff => "diff"
  | diffAvg => "diffavg"
  | adiff => "adiff"
  | adiffAvg => "adiffavg"
  | rdiff => "rdiff"
  | rdiffAvg => "rdiffavg"
  | pdiff => "pdiff"
  | pdiffAvg => "pdiffavg"
  | sum => "sum"
  | avg => "avg"
  | atLeast => "have"

def ofName (text : String) : Except RuleError Calculation :=
  match list.find? fun c => c.name == text with
  | some c => .ok c
  | none => .error (.unknownCalculation text)

def isDifference : Calculation → Bool
  | all => false
  | sum => false
  | avg => false
  | atLeast => false
  | _ => true

def maxSamples : Nat := UInt64.size - 1

/-- The samples that a window of the configured size holds: differences need one more. -/
def samplesFor (c : Calculation) (size : Nat) : Nat :=
  if c.isDifference then min (size + 1) maxSamples else size

/-- All differences must meet the condition. The value is the first that does, or else the first. -/
def everyDifference (c : Calculation) (d : Difference) (meets : Float → Bool)
    (window : List Float) : Except CalculationError Outcome :=
  if window.length < 2 then .error (.tooFewSamples c.name)
  else (d.series window).map fun ds => ⟨(ds.find? meets).getD (ds.headD 0), ds.all meets⟩

def averageDifference (c : Calculation) (d : Difference) (change : Float → Float)
    (meets : Float → Bool) (window : List Float) : Except CalculationError Outcome :=
  if window.length < 2 then .error (.tooFewSamples c.name)
  else (d.series window).map fun ds =>
    let mean := change (Binary64.mean ds)
    ⟨mean, meets mean⟩

/-- The outcome of a calculation on a window that has a newest value. `need` is the number of
samples that `atLeast` asks for. -/
def runOn (c : Calculation) (newest : Float) (older : List Float) (meets : Float → Bool)
    (need : Option Int) : Except CalculationError Outcome :=
  let window := newest :: older
  match c with
  | all =>
    match window.find? fun x => !meets x with
    | some failed => .ok ⟨failed, false⟩
    | none => .ok ⟨newest, true⟩
  | sum =>
    let total := Binary64.sum window
    .ok ⟨total, meets total⟩
  | avg =>
    let mean := Binary64.mean window
    .ok ⟨mean, meets mean⟩
  | atLeast =>
    match need with
    | none => .error (.missingArgument c.name)
    | some need =>
      let triggered : Bool := need ≤ (window.countP meets : Int)
      .ok ⟨(window.find? fun x => meets x == triggered).getD newest, triggered⟩
  | diff => c.everyDifference .fromNewest meets window
  | adiff => c.everyDifference .distanceFromNewest meets window
  | rdiff => c.everyDifference .consecutive meets window
  | pdiff => c.everyDifference .percent meets window
  | diffAvg => c.averageDifference .fromNewest id meets window
  | adiffAvg => c.averageDifference .fromNewest Float.abs meets window
  | rdiffAvg => c.averageDifference .consecutive id meets window
  | pdiffAvg => c.averageDifference .percent id meets window

def run (c : Calculation) (window : List Float) (threshold : Float) (op : Comparison)
    (need : Option Int) : Except CalculationError Outcome :=
  match window with
  | [] => .error .emptyWindow
  | newest :: older => c.runOn newest older (fun x => op.holds x threshold) need

end Calculation

end AlertEngine
