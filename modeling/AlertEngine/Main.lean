import AlertEngine.CommandLine
import Std.Time.DateTime

/-!
# The program

The outer layer: it reads files, lines and the clock, and writes events. Everything else is a
function of what is read.
-/

namespace AlertEngine

def currentInstant : IO Instant := do
  let timestamp ← Std.Time.Timestamp.now
  let time := Std.Time.PlainDateTime.ofWallTime
    (.ofNanoseconds timestamp.toNanosecondsSinceUnixEpoch)
  let date := Date.ofParts? time.date.year.toInt time.date.month.val.toNat time.date.day.val.toNat
  let instant := date.bind fun d =>
    Instant.ofLocal? d time.time.toSeconds.val.toNat time.time.nanosecond.val.toNat 0
  return instant.getD Instant.epoch

def contents? (path : String) : IO (Option String) :=
  try
    return some (← IO.FS.readFile path)
  catch _ => return none

def readFiles (paths : List String) : IO Files := do
  let entries ← paths.mapM fun path => return (path, ← contents? path)
  return fun path => (entries.lookup path).join

def filesFor (settingsPath : Option String) : IO Files := do
  let files ← readFiles settingsPath.toList
  match Service.settingsOf files settingsPath with
  | .error _ => return files
  | .ok settings =>
    readFiles (settingsPath.toList ++ settings.strategiesPath :: settings.compositesPath.toList)

def report (events : List Event) : IO Unit := do
  let out ← IO.getStdout
  events.forM fun e => out.putStrLn e.write
  out.flush

/-- Judges line after line until the input ends; whenever it is time, the composites are scanned
before the next line. -/
partial def judgeLines (input : IO.FS.Stream) (s : Service) (lastScan : Nat) : IO Service := do
  let line ← input.getLine
  if line.isEmpty then return s
  let clock ← IO.monoMsNow
  let (s, lastScan) ←
    if s.isScanDue ((clock - lastScan) / 1000) then do
      let (reported, s) := s.tick (← currentInstant)
      report reported
      pure (s, clock)
    else pure (s, lastScan)
  let (reported, s) := s.lineOrSkip (← currentInstant) line
  report reported
  judgeLines input s lastScan

end AlertEngine

open AlertEngine in
def main (arguments : List String) : IO UInt32 := do
  match Command.ofArguments arguments with
  | .help =>
    IO.eprintln Command.usage
    return 0
  | .replay settingsPath =>
    match Service.start (← filesFor settingsPath) (← currentInstant) settingsPath with
    | .error e =>
      IO.eprintln ("Error: " ++ e.message)
      return 1
    | .ok (closed, s) =>
      report closed
      let s ← judgeLines (← IO.getStdin) s (← IO.monoMsNow)
      report (s.tick (← currentInstant)).1
      return 0
