/-!
# Sliding windows

The most recent samples of one series, the newest first, never more than a limit. A sample that is
older than the newest one is refused; of equally old ones the later push counts as newer.
-/

namespace AlertEngine

structure Sample where
  value : Float
  timestamp : Int64
deriving DecidableEq

structure SlidingWindow where
  limit : Nat
  samples : List Sample := []
deriving DecidableEq

namespace SlidingWindow

def newest? (w : SlidingWindow) : Option Sample := w.samples.head?

def isLate (w : SlidingWindow) (timestamp : Int64) : Bool :=
  match w.newest? with
  | some newest => timestamp < newest.timestamp
  | none => false

def push? (w : SlidingWindow) (s : Sample) : Option SlidingWindow :=
  if w.isLate s.timestamp then none
  else some { w with samples := (s :: w.samples).take w.limit }

def isFull (w : SlidingWindow) : Bool := w.limit ≤ w.samples.length

def values (w : SlidingWindow) : List Float := w.samples.map Sample.value

/-- Whether the newest sample is no older than a given time; an empty window is idle. -/
def isActiveSince (w : SlidingWindow) (cutoff : Int64) : Bool :=
  match w.newest? with
  | some newest => cutoff ≤ newest.timestamp
  | none => false

@[simp] theorem push?_eq_none_iff {w : SlidingWindow} {s : Sample} :
    w.push? s = none ↔ w.isLate s.timestamp = true := by
  simp [push?]

end SlidingWindow

end AlertEngine
