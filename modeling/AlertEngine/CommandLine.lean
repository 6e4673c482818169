import AlertEngine.Service

/-!
# The command line

The program is called with the path of a settings file, or with none. It reads the strategies,
judges the metrics that it is given line by line, scans the composites once more at the end, and
reports events as they are made.

* `Command.ofArguments`: what is asked for.
* `Service.start`, `Service.replay`: the two stretches of a run.
* `Run.ofInput`: a whole run on an input that is known beforehand.
-/

namespace AlertEngine

inductive Command where
  | help
  | replay (settingsPath : Option String)
deriving DecidableEq, Repr

namespace Command

/-- Only the first argument counts. -/
def ofArguments : List String → Command
  | [] => replay none
  | argument :: _ =>
    if argument = "--help" ∨ argument = "-h" then help else replay (some argument)

def usage : String :=
  "Usage:\n" ++
  "  alert-engine [settings.toml]    Judge metrics from standard input, one JSON value a line\n" ++
  "\n" ++
  "Events are written to standard output as JSON, one per line."

end Command

namespace Service

def settingsOf (files : Files) : Option String → Except SetupError Settings
  | none => .ok {}
  | some path => Settings.load files path

def start (files : Files) (now : Instant) (settingsPath : Option String) :
    Except SetupError (List Event × Service) := do
  (ofSettings (← settingsOf files settingsPath)).reload files now

/-- Judges the metrics of a line; one that cannot be read changes nothing. -/
def lineOrSkip (s : Service) (now : Instant) (text : String) : List Event × Service :=
  match s.line now text with
  | .ok (_, reported, s) => (reported, s)
  | .error _ => ([], s)

def replay (s : Service) (now : Instant) : List String → List Event × Service
  | [] => ([], s)
  | text :: texts =>
    let (reported, s) := s.lineOrSkip now text
    let (rest, s) := s.replay now texts
    (reported ++ rest, s)

def isScanDue (s : Service) (elapsed : Nat) : Bool := max 1 s.settings.scanInterval.toNat ≤ elapsed

end Service

structure Run where
  exitCode : UInt32
  events : List Event

namespace Run

/-- The run with given arguments on a given input, under a clock that stands still. -/
def ofInput (files : Files) (now : Instant) (arguments : List String) (input : String) : Run :=
  match Command.ofArguments arguments with
  | .help => ⟨0, []⟩
  | .replay settingsPath =>
    match Service.start files now settingsPath with
    | .error _ => ⟨1, []⟩
    | .ok (closed, s) =>
      let (reported, s) := s.replay now ((Text.splitOn '\n' input.toList).map String.ofList)
      ⟨0, closed ++ reported ++ (s.tick now).1⟩

end Run

end AlertEngine
