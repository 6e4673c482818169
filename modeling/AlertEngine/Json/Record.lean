import AlertEngine.Json.Reader

/-!
# Decoding JSON

What a text says is decoded from its tree. Decoding fails as a whole or gives a value; nothing is
converted, so a text is never a number, and `null` is no value of a field.

* `Tree.float?`, `Tree.integer?`, `Tree.text?`, `Tree.list?`, `Tree.dictionary?`: plain values.
* `Tree.json?`: any value, nested no deeper than a limit.
* `Tree.record?`: the fields of a record, which is an object with known keys, or a list that holds
  the fields by position.
* `Record.required?`, `Record.withDefault?`: one field of a record.
-/

namespace AlertEngine.Json

namespace Tree

def float? : Tree → Option Float
  | .number n => n.toFloat?
  | _ => none

def integer? (lo hi : Int) : Tree → Option Int
  | .number n => n.integer?.filter fun i => lo ≤ i && i ≤ hi
  | _ => none

def int64? (t : Tree) : Option Int64 :=
  (t.integer? Int64.minValue.toInt Int64.maxValue.toInt).map Int64.ofInt

def uint64? (t : Tree) : Option UInt64 :=
  (t.integer? 0 (UInt64.size - 1)).map fun n => UInt64.ofNat n.toNat

def uint32? (t : Tree) : Option UInt32 :=
  (t.integer? 0 (UInt32.size - 1)).map fun n => UInt32.ofNat n.toNat

def text? : Tree → Option String
  | .text s => s
  | _ => none

def list? {α : Type} (decode : Tree → Option α) : Tree → Option (List α)
  | .list items => items.mapM decode
  | _ => none

def entries? {α : Type} (decode : Tree → Option α) : Tree → Option (List (String × α))
  | .object members => members.mapM fun m => do return (← m.1, ← decode m.2)
  | _ => none

/-- A dictionary with values of one kind; of a repeated key the last entry counts. -/
def dictionary? {α : Type} (decode : Tree → Option α) (t : Tree) : Option (Dictionary α) :=
  (t.entries? decode).map Dictionary.ofEntries

/-- A value of any kind, with lists and objects nested at most `depth` deep. Whole numbers of 64
bits stay whole, all others become doubles. -/
def json? : Nat → Tree → Option Json
  | _, .null => some .null
  | _, .bool b => some (.bool b)
  | _, .number n =>
    match integer? Int64.minValue.toInt (UInt64.size - 1) (.number n) with
    | some i => some (.whole i)
    | none => (float? (.number n)).map .double
  | _, .text s => s.map .text
  | depth + 1, .list items => (items.mapM fun t => json? depth t).map .list
  | depth + 1, .object members =>
    (members.mapM fun (m : Option String × Tree) =>
      do return (← m.1, ← json? depth m.2)).map Json.ofMembers
  | 0, _ => none

end Tree

/-! ## Records -/

abbrev Record := List (String × Tree)

/-- The fields of a record whose fields have the given names in this order. An object may hold
other keys too; a known one may not stand in it twice. A list may leave out fields at its end. -/
def Tree.record? (names : List String) : Tree → Option Record
  | .object members => do
    let fields ← members.mapM fun m => m.1.map fun name => (name, m.2)
    let known := fields.filter fun f => names.contains f.1
    if (known.map (·.1)).Nodup then some known else none
  | .list items => if items.length ≤ names.length then some (names.zip items) else none
  | _ => none

namespace Record

def required? {α : Type} (r : Record) (name : String) (decode : Tree → Option α) : Option α :=
  (r.lookup name).bind decode

def withDefault? {α : Type} (r : Record) (name : String) (default : α)
    (decode : Tree → Option α) : Option α :=
  match r.lookup name with
  | none => some default
  | some t => decode t

end Record

end AlertEngine.Json
