import AlertEngine.Event

/-!
# Debouncing

The last event of every identity, and which of the events to come are reported.

* `DebouncePolicy`: when a lasting alarm is reported again, and when a lasting calm is abridged.
* `DebounceTable.observe`: records an event, and says whether it is reported.
* `DebounceTable.close`: forgets the identities that begin alike, and reports those in alarm as
  closed.
-/

namespace AlertEngine

structure DebouncePolicy where
  /-- A lasting alarm is reported every so many judgments; never again if this is 0. -/
  realarmSteps : UInt32 := 0
  /-- After so many further judgments `ok`, only an abridged event is kept. -/
  simplifyOkAfter : UInt32 := 3
deriving DecidableEq, Repr

def DebouncePolicy.ofTree? (t : Json.Tree) : Option DebouncePolicy := do
  let r ← t.record? ["realarm_steps", "simplify_ok_after"]
  return {
    realarmSteps := ← r.withDefault? "realarm_steps" 0 Json.Tree.uint32?
    simplifyOkAfter := ← r.withDefault? "simplify_ok_after" 3 Json.Tree.uint32? }

structure DebounceTable where
  events : Dictionary Event := ∅

namespace DebounceTable

/-- The step after a given one; the largest step stays what it is. -/
def nextStep (step : UInt32) : UInt32 := if step = 0xFFFFFFFF then step else step + 1

def stepAfter (last : Option Event) (status : Status) : UInt32 :=
  match last with
  | some last => if last.status = status then nextStep last.step else 0
  | none => 0

/-- Whether an event that follows the last one of its identity is reported: on first sight, on a
change of status, and every so often while an alarm lasts. -/
def isReported (policy : DebouncePolicy) (last : Option Event) (status : Status)
    (step : UInt32) : Bool :=
  match last with
  | some last =>
    last.status != status ||
      (status == .problem && policy.realarmSteps != 0 && step % policy.realarmSteps == 0)
  | none => true

def kept (policy : DebouncePolicy) (e : Event) (step : UInt32) : Event :=
  let e := { e with step := step }
  if e.status = .ok ∧ policy.simplifyOkAfter ≤ step then e.simplified else e

def observe (t : DebounceTable) (policy : DebouncePolicy) (e : Event) :
    Option Event × DebounceTable :=
  let last := t.events[e.id]?
  let step := stepAfter last e.status
  let entry := kept policy e step
  (if isReported policy last e.status step then some entry else none,
    ⟨t.events.insert e.id entry⟩)

def observeAll (t : DebounceTable) (policy : DebouncePolicy) :
    List Event → List Event × DebounceTable
  | [] => ([], t)
  | e :: es =>
    let (reported, t) := t.observe policy e
    let (rest, t) := t.observeAll policy es
    (reported.toList ++ rest, t)

def belongsTo (start id : String) : Bool := start.toList.isPrefixOf id.toList

def closing (now : Instant) (e : Event) : Event :=
  { e with status := .closed, step := 0, createdAt := now }

/-- Forgets every identity that begins with a given text; the events that close those in alarm, in
ascending order, and the table afterwards. -/
def close (t : DebounceTable) (now : Instant) (start : String) :
    List Event × DebounceTable :=
  let alarming := (t.events.filter fun id e => belongsTo start id && e.status.isAlarming).toList
  (alarming.map fun entry => closing now entry.2,
    ⟨t.events.filter fun id _ => !belongsTo start id⟩)

def get? (t : DebounceTable) (id : String) : Option Event := t.events[id]?

def toList (t : DebounceTable) : List Event := t.events.toList.map Prod.snd

def ofStrategy (t : DebounceTable) (id : Int64) : List Event :=
  t.toList.filter fun e => e.strategyId == id

def size (t : DebounceTable) : Nat := t.events.size

end DebounceTable

end AlertEngine
