import AlertEngine.Debounce
import AlertEngine.Files
import AlertEngine.Strategy
import AlertEngine.Toml.Reader

/-!
# Settings and seed files

* `Settings`: what a TOML file says about where the strategies are and how the engine works.
* `Settings.load`: the settings of a file.
* `readStrategies`, `readComposites`: the strategies of a seed file, which is JSON.
-/

namespace AlertEngine

inductive SetupError where
  | readConfig (path : String)
  | parseConfig (path : String)
  | readSeed (path : String)
  | parseSeed (path : String)
deriving DecidableEq, Repr

def SetupError.message : SetupError → String
  | .readConfig path => "Failed to read config file '" ++ path ++ "'"
  | .parseConfig path => "Failed to parse config file '" ++ path ++ "'"
  | .readSeed path => "Failed to read seed file '" ++ path ++ "'"
  | .parseSeed path => "Failed to parse seed file '" ++ path ++ "'"

/-! ## Settings -/

structure Settings where
  /-- The seed file of the strategies. -/
  strategiesPath : String := "config/strategies.json"
  /-- The seed file of the composite strategies, if there is one. -/
  compositesPath : Option String := none
  /-- The seconds between two scans of the composites. -/
  scanInterval : UInt64 := 10
  /-- The seconds after which a silent series is forgotten; 0 keeps all series. They are measured
  against the newest sample. -/
  windowIdle : UInt64 := 3600
  policy : DebouncePolicy := {}
deriving DecidableEq, Repr

namespace Toml

def text? : Toml → Option String
  | .text s => some s
  | _ => none

def natural? (hi : Nat) : Toml → Option Nat
  | .whole n => if 0 ≤ n ∧ n ≤ hi then some n.toNat else none
  | _ => none

def uint64? (t : Toml) : Option UInt64 := (t.natural? (UInt64.size - 1)).map UInt64.ofNat

def uint32? (t : Toml) : Option UInt32 := (t.natural? (UInt32.size - 1)).map UInt32.ofNat

def withDefault? {α : Type} (t : Option Toml) (default : α) (decode : Toml → Option α) :
    Option α :=
  match t with
  | none => some default
  | some t => decode t

end Toml

/-- A policy from a TOML table, or from a list of its two numbers by position, of which the rest is
passed over. A date says nothing of either number. -/
def DebouncePolicy.ofToml? (t : Toml) : Option DebouncePolicy :=
  match t with
  | .table _ _ => numbers (t.get? "realarm_steps") (t.get? "simplify_ok_after")
  | .list items => numbers items[0]? items[1]?
  | .moment _ => some {}
  | _ => none
where
  numbers (realarm simplify : Option Toml) : Option DebouncePolicy := do
    return {
      realarmSteps := ← Toml.withDefault? realarm 0 Toml.uint32?
      simplifyOkAfter := ← Toml.withDefault? simplify 3 Toml.uint32? }

namespace Settings

def ofToml? (t : Toml) : Option Settings := do
  return {
    strategiesPath :=
      ← Toml.withDefault? (t.get? "strategies_path") "config/strategies.json" Toml.text?
    compositesPath :=
      ← Toml.withDefault? (t.get? "multi_strategies_path") none fun t => t.text?.map some
    scanInterval := ← Toml.withDefault? (t.get? "multi_scan_interval_secs") 10 Toml.uint64?
    windowIdle := ← Toml.withDefault? (t.get? "window_idle_secs") 3600 Toml.uint64?
    policy := ← Toml.withDefault? (t.get? "judge") {} DebouncePolicy.ofToml? }

def load (files : Files) (path : String) : Except SetupError Settings :=
  match files path with
  | none => .error (.readConfig path)
  | some content =>
    match (Toml.ofText? content.toList).bind ofToml? with
    | some settings => .ok settings
    | none => .error (.parseConfig path)

end Settings

/-! ## Seed files -/

def readSeed {α : Type} (key : String) (decode : Json.Tree → Option α) (files : Files)
    (path : String) : Except SetupError (List α) :=
  match files path with
  | none => .error (.readSeed path)
  | some content =>
    let items := do
      let r ← (← Json.Tree.ofText? content.toList).record? [key]
      r.withDefault? key [] (Json.Tree.list? decode)
    match items with
    | some items => .ok items
    | none => .error (.parseSeed path)

def readStrategies : Files → String → Except SetupError (List Strategy) :=
  readSeed "strategies" Strategy.ofTree?

def readComposites : Files → String → Except SetupError (List CompositeStrategy) :=
  readSeed "multi_strategies" CompositeStrategy.ofTree?

end AlertEngine
