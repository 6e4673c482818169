import AlertEngine.Toml.Scalar

/-!
# Reading TOML

* `path?`: a key, which may be dotted.
* `value?`: a value; lists and tables in braces may be nested up to a limit.
* `line?`, `statements?`: a line with the statement on it, and all of them.
* `Toml.ofText?`: the table of a text.
-/

namespace AlertEngine.Toml

/-! ## Keys -/

def isBareKeyChar (c : Char) : Bool := c.isAlphanum || c = '-' || c = '_'

/-- One part of a key: quoted on one line, or letters, digits, dashes and underscores. -/
def key? (s : List Char) : Option (String × List Char) :=
  match quoted? s with
  | some (key, s) => some (String.ofList key, s)
  | none =>
    let (key, s) := s.span isBareKeyChar
    if key.isEmpty then none else some (String.ofList key, s)

def maxPathLength : Nat := 79

def parts? : Nat → List Char → Option (List String × List Char)
  | 0, _ => none
  | fuel + 1, s =>
    match key? (skipSpace s) with
    | none => none
    | some (key, s) =>
      match skipSpace s with
      | '.' :: s => (parts? fuel s).map fun p => (key :: p.1, p.2)
      | s => some ([key], s)

def path? (s : List Char) : Option (List String × List Char) := parts? maxPathLength s

/-! ## Values -/

/-- What follows blanks, line ends and comments. The flag says that a comment is going on, which
only a line end closes. -/
def skipFiller (inComment : Bool) : List Char → List Char
  | [] => []
  | '\n' :: s => skipFiller false s
  | '\r' :: '\n' :: s => skipFiller false s
  | c :: s =>
    if inComment then (if isPlain c then skipFiller true s else c :: s)
    else if c = '#' then skipFiller true s
    else if isSpace c then skipFiller false s
    else c :: s

/-- The values of a list, of which there is at least one, with the closing bracket. A comma may
stand before it. -/
def items? (item : List Char → Option (Toml × List Char)) :
    Nat → List Char → Option (List Toml × List Char)
  | 0, _ => none
  | fuel + 1, s =>
    match item s with
    | none => none
    | some (v, s) =>
      match skipFiller false s with
      | ']' :: s => some ([v], s)
      | ',' :: s =>
        match skipFiller false s with
        | ']' :: s => some ([v], s)
        | s => (items? item fuel s).map fun p => (v :: p.1, p.2)
      | _ => none

def entry? (item : List Char → Option (Toml × List Char)) (s : List Char) :
    Option ((List String × Toml) × List Char) := do
  let (path, s) ← path? s
  let (value, s) ← item (skipSpace (← Text.stripFirst? '=' s))
  return ((path, value), s)

def entries? (item : List Char → Option (Toml × List Char)) :
    Nat → List Char → Option (List (List String × Toml) × List Char)
  | 0, _ => none
  | fuel + 1, s =>
    match entry? item s with
    | none => none
    | some (e, s) =>
      match skipSpace s with
      | '}' :: s => some ([e], s)
      | ',' :: s => (entries? item fuel s).map fun p => (e :: p.1, p.2)
      | _ => none

def maxDepth : Nat := 79

def value? : Nat → List Char → Option (Toml × List Char)
  | 0, s => scalar? s
  | depth + 1, s =>
    match s with
    | '[' :: s =>
      match skipFiller false s with
      | ']' :: s => some (.list [], s)
      | s => (items? (value? depth) (s.length + 1) s).map fun p => (.list p.1, p.2)
    | '{' :: s =>
      match skipSpace s with
      | '}' :: s => some (.table .braces [], s)
      | s => do
        let (entries, s) ← entries? (value? depth) (s.length + 1) s
        return (← ofEntries? entries, s)
    | s => scalar? s

/-! ## Documents -/

/-- What follows the end of a line, with blanks and a comment before it; the end of the text ends a
line too. -/
def lineEnd? (s : List Char) : Option (List Char) :=
  let s := match skipSpace s with
    | '#' :: s => s.dropWhile isPlain
    | s => s
  match s with
  | [] => some []
  | '\n' :: s => some s
  | '\r' :: '\n' :: s => some s
  | _ => none

def statement? : List Char → Option (Option Statement × List Char)
  | [] => some (none, [])
  | '[' :: '[' :: s => do
    let (path, s) ← path? s
    return (some (.element path), ← Text.stripFirst? ']' (← Text.stripFirst? ']' s))
  | '[' :: s => do
    let (path, s) ← path? s
    return (some (.table path), ← Text.stripFirst? ']' s)
  | c :: s =>
    if c = '#' ∨ c = '\n' ∨ c = '\r' then some (none, c :: s)
    else do
      let (e, s) ← entry? (value? maxDepth) (c :: s)
      return (some (.entry e.1 e.2), s)

/-- A line, which may go on over line ends within a value. -/
def line? (s : List Char) : Option (Option Statement × List Char) := do
  let (statement, s) ← statement? (skipSpace s)
  return (statement, ← lineEnd? s)

def statements? : Nat → List Char → Option (List Statement)
  | _, [] => some []
  | 0, _ => none
  | fuel + 1, s =>
    match line? s with
    | none => none
    | some (statement, s) => (statements? fuel s).map (statement.toList ++ ·)

def ofText? (s : List Char) : Option Toml :=
  let s := (Text.stripFirst? '\uFEFF' s).getD s
  (statements? s.length s).bind ofStatements?

end AlertEngine.Toml
