import AlertEngine.Decimal.Basic

/-!
# TOML documents

A document is a sequence of statements: headers of tables, headers of elements of lists of tables,
and entries. Its meaning is the table that they build up, one after the other.

* `Toml`: the values; a table remembers how it came into being.
* `Toml.define`, `Toml.openTable`, `Toml.openElement`: what an entry and the two kinds of header do
  to a table.
* `Toml.ofStatements?`: the table of a document.

A table is written in one place: a header never names one that has a header already, and a dotted
key never reaches into one that has a header or braces of its own.
-/

namespace AlertEngine

/-- How a table came into being, which decides what may still be added to it. -/
inductive Toml.Origin where
  /-- It has a header, or it is the whole document. -/
  | header
  /-- It lies on the way to the table of a header. -/
  | implicit
  /-- It lies on the way of a dotted key. -/
  | dotted
  /-- It is written in braces. -/
  | braces
deriving DecidableEq, Repr

inductive Toml where
  | text (s : String)
  | whole (n : Int)
  | double (x : Float)
  | bool (b : Bool)
  /-- A date, a time of day or both, as it is written. -/
  | moment (written : String)
  | list (items : List Toml)
  | table (origin : Toml.Origin) (entries : List (String × Toml))
  /-- The tables of a list whose elements have headers, the last one first. -/
  | tables (elements : List (List (String × Toml)))

namespace Toml

instance : Inhabited Toml := ⟨.bool false⟩

abbrev Entries := List (String × Toml)

def put (key : String) (value : Toml) : Entries → Entries
  | [] => [(key, value)]
  | (k, v) :: rest => if k = key then (key, value) :: rest else (k, v) :: put key value rest

/-! ## Statements -/

/-- Changes the table at the end of a path. The way leads through tables that are not written in
braces and through the last element of a list of tables; what is missing on it is made. -/
def change (path : List String) (f : Entries → Option Entries) (entries : Entries) :
    Option Entries :=
  match path with
  | [] => f entries
  | key :: keys =>
    match entries.lookup key with
    | none => (change keys f []).map fun sub => put key (.table .implicit sub) entries
    | some (.table .braces _) => none
    | some (.table origin sub) =>
      (change keys f sub).map fun sub => put key (.table origin sub) entries
    | some (.tables (last :: earlier)) =>
      (change keys f last).map fun last => put key (.tables (last :: earlier)) entries
    | some _ => none

/-- Makes an entry under a dotted key, whose last part is new. No table on the way has a header or
braces of its own, and the one that holds the entry is made by dotted keys. The way may lead through
the last element of a list of tables, but not end there. -/
def define (value : Toml) (path : List String) (entries : Entries) : Option Entries :=
  match path with
  | [] => none
  | [key] => if (entries.lookup key).isSome then none else some (put key value entries)
  | key :: next :: keys =>
    match entries.lookup key with
    | none =>
      (define value (next :: keys) []).map fun sub => put key (.table .dotted sub) entries
    | some (.table .dotted sub) =>
      (define value (next :: keys) sub).map fun sub => put key (.table .dotted sub) entries
    | some (.table .implicit sub) =>
      if keys.isEmpty then none
      else
        (define value (next :: keys) sub).map fun sub => put key (.table .implicit sub) entries
    | some (.tables (last :: earlier)) =>
      if keys.isEmpty then none
      else
        (define value (next :: keys) last).map fun last =>
          put key (.tables (last :: earlier)) entries
    | some _ => none

/-- Gives a table its header: it is new, or has only been passed by other headers. -/
def openTable (key : String) (entries : Entries) : Option Entries :=
  match entries.lookup key with
  | none => some (put key (.table .header []) entries)
  | some (.table .implicit sub) => some (put key (.table .header sub) entries)
  | some _ => none

def openElement (key : String) (entries : Entries) : Option Entries :=
  match entries.lookup key with
  | none => some (put key (.tables [[]]) entries)
  | some (.tables elements) => some (put key (.tables ([] :: elements)) entries)
  | some _ => none

inductive Statement where
  | table (path : List String)
  | element (path : List String)
  | entry (path : List String) (value : Toml)

structure Draft where
  entries : Entries := []
  path : List String := []

namespace Draft

def openAt (d : Draft) (path : List String) (f : String → Entries → Option Entries) :
    Option Draft := do
  let key ← path.getLast?
  return ⟨← change path.dropLast (f key) d.entries, path⟩

def add (d : Draft) : Statement → Option Draft
  | .table path => d.openAt path openTable
  | .element path => d.openAt path openElement
  | .entry path value => do
    return { d with entries := ← change d.path (define value path) d.entries }

end Draft

def ofStatements? (statements : List Statement) : Option Toml :=
  (statements.foldlM Draft.add {}).map fun d => .table .header d.entries

def ofEntries? (entries : List (List String × Toml)) : Option Toml :=
  (entries.foldlM (fun table e => define e.2 e.1 table) []).map (.table .braces)

def get? (t : Toml) (key : String) : Option Toml :=
  match t with
  | .table _ entries => entries.lookup key
  | _ => none

end Toml

end AlertEngine
