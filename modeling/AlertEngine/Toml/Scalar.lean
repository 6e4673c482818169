import AlertEngine.Instant
import AlertEngine.Toml.Basic

/-!
# Plain values of TOML

Each function takes what is left of a text and gives the value that it has read with what is left
after it.

* `basic?`, `literal?`, `multiBasic?`, `multiLiteral?`: what follows the opening quote or quotes of
  a text, up to the closing ones.
* `integer?`, `float?`: numbers, with underscores between digits.
* `moment?`: dates and times of day.
* `scalar?`: any of them.
-/

namespace AlertEngine.Toml

def isPlain (c : Char) : Bool := c = '\t' || (0x20 ≤ c.toNat && c.toNat ≠ 0x7F)

def isSpace (c : Char) : Bool := c = ' ' || c = '\t'

def skipSpace (s : List Char) : List Char := s.dropWhile isSpace

/-! ## Texts -/

def unescape? : Char → Option Char
  | '"' => some '"'
  | '\\' => some '\\'
  | 'b' => some '\x08'
  | 'f' => some '\x0c'
  | 'n' => some '\n'
  | 'r' => some '\r'
  | 't' => some '\t'
  | _ => none

def codePoint? (ds : List Char) : Option Char :=
  let n := Text.ofDigits 16 ds
  if ds.all (Text.isDigitOf 16) ∧ n.isValidChar then some (Char.ofNat n) else none

def withChar (c : Char) (p : List Char × List Char) : List Char × List Char := (c :: p.1, p.2)

def basic? : List Char → Option (List Char × List Char)
  | [] => none
  | '"' :: s => some ([], s)
  | '\\' :: 'u' :: a :: b :: c :: d :: s => do
    return withChar (← codePoint? [a, b, c, d]) (← basic? s)
  | '\\' :: 'U' :: a :: b :: c :: d :: e :: f :: g :: h :: s => do
    return withChar (← codePoint? [a, b, c, d, e, f, g, h]) (← basic? s)
  | '\\' :: c :: s => do return withChar (← unescape? c) (← basic? s)
  | c :: s => if isPlain c && c != '\\' then (basic? s).map (withChar c) else none

def literal? : List Char → Option (List Char × List Char)
  | [] => none
  | '\x27' :: s => some ([], s)
  | c :: s => if isPlain c then (literal? s).map (withChar c) else none

def endsLine (s : List Char) : Bool :=
  match skipSpace s with
  | '\n' :: _ => true
  | '\r' :: '\n' :: _ => true
  | _ => false

/-- A text on several lines after its three opening double quotes. Up to two quotes may stand before
the closing ones. A backslash at the end of a line takes away all blanks and line ends that follow;
`joining` says that this is going on. -/
def multiBasic? (joining : Bool) : List Char → Option (List Char × List Char)
  | [] => none
  | '"' :: '"' :: '"' :: '"' :: '"' :: s => some (['"', '"'], s)
  | '"' :: '"' :: '"' :: '"' :: s => some (['"'], s)
  | '"' :: '"' :: '"' :: s => some ([], s)
  | '\\' :: 'u' :: a :: b :: c :: d :: s => do
    return withChar (← codePoint? [a, b, c, d]) (← multiBasic? false s)
  | '\\' :: 'U' :: a :: b :: c :: d :: e :: f :: g :: h :: s => do
    return withChar (← codePoint? [a, b, c, d, e, f, g, h]) (← multiBasic? false s)
  | '\\' :: c :: s =>
    if endsLine (c :: s) then multiBasic? true s
    else do return withChar (← unescape? c) (← multiBasic? false s)
  | '\r' :: '\n' :: s =>
    if joining then multiBasic? true s else (multiBasic? false s).map (withChar '\n')
  | c :: s =>
    if joining && (isSpace c || c = '\n') then multiBasic? true s
    else if (isPlain c && c != '\\') || c = '\n' then (multiBasic? false s).map (withChar c)
    else none

def multiLiteral? : List Char → Option (List Char × List Char)
  | [] => none
  | '\x27' :: '\x27' :: '\x27' :: '\x27' :: '\x27' :: s => some (['\x27', '\x27'], s)
  | '\x27' :: '\x27' :: '\x27' :: '\x27' :: s => some (['\x27'], s)
  | '\x27' :: '\x27' :: '\x27' :: s => some ([], s)
  | '\r' :: '\n' :: s => (multiLiteral? s).map (withChar '\n')
  | c :: s => if isPlain c || c = '\n' then (multiLiteral? s).map (withChar c) else none

def skipLineEnd : List Char → List Char
  | '\n' :: s => s
  | '\r' :: '\n' :: s => s
  | s => s

def quoted? : List Char → Option (List Char × List Char)
  | '"' :: s => basic? s
  | '\x27' :: s => literal? s
  | _ => none

/-- A text in its quotes. A line end right after three opening quotes does not count. -/
def string? : List Char → Option (List Char × List Char)
  | '"' :: '"' :: '"' :: s => multiBasic? false (skipLineEnd s)
  | '\x27' :: '\x27' :: '\x27' :: s => multiLiteral? (skipLineEnd s)
  | s => quoted? s

/-! ## Numbers -/

/-- The digits that a text goes on with; an underscore may stand before a digit. -/
def moreDigits (base : Nat) : List Char → List Char × List Char
  | [] => ([], [])
  | '_' :: d :: s =>
    if Text.isDigitOf base d then withChar d (moreDigits base s) else ([], '_' :: d :: s)
  | d :: s => if Text.isDigitOf base d then withChar d (moreDigits base s) else ([], d :: s)

def digits? (base : Nat) : List Char → Option (List Char × List Char)
  | [] => none
  | d :: s => if Text.isDigitOf base d then some (withChar d (moreDigits base s)) else none

/-- The digits of a decimal number before the point: no zero stands before other digits. -/
def wholeDigits? : List Char → Option (List Char × List Char)
  | '0' :: s => some (['0'], s)
  | s => digits? 10 s

def inRange? (n : Int) : Option Toml :=
  if Int64.minValue.toInt ≤ n ∧ n ≤ Int64.maxValue.toInt then some (.whole n) else none

/-- The digits of a number in a base that is marked, and so has no sign. -/
def marked? (base : Nat) (s : List Char) : Option (Toml × List Char) := do
  let (ds, s) ← digits? base s
  return (← inRange? (Text.ofDigits base ds), s)

def integer? : List Char → Option (Toml × List Char)
  | '0' :: 'x' :: s => marked? 16 s
  | '0' :: 'o' :: s => marked? 8 s
  | '0' :: 'b' :: s => marked? 2 s
  | s => do
    let (negative, s) := Decimal.cutSign s
    let (ds, s) ← wholeDigits? s
    let n : Int := Decimal.ofDigits ds
    return (← inRange? (if negative then -n else n), s)

def exponent? : List Char → Option (Option Int × List Char)
  | c :: s =>
    if c = 'e' ∨ c = 'E' then do
      let (negative, s) := Decimal.cutSign s
      let (ds, s) ← digits? 10 s
      let n : Int := Decimal.ofDigits ds
      return (some (if negative then -n else n), s)
    else some (none, c :: s)
  | [] => some (none, [])

def fraction? : List Char → Option (Option (List Char) × List Char)
  | '.' :: s => (digits? 10 s).map fun p => (some p.1, p.2)
  | s => some (none, s)

/-- A number with a fraction or an exponent or both, or a word for infinity or NaN. A number above
the largest double is refused. -/
def float? (s : List Char) : Option (Toml × List Char) :=
  let (negative, s) := Decimal.cutSign s
  match s with
  | 'i' :: 'n' :: 'f' :: s =>
    some (.double (if negative then Binary64.negInfinity else Binary64.infinity), s)
  | 'n' :: 'a' :: 'n' :: s => some (.double Binary64.nan, s)
  | s => do
    let (ds, s) ← wholeDigits? s
    let (fraction, s) ← fraction? s
    let (exponent, s) ← exponent? s
    if fraction.isNone && exponent.isNone then none
    else
      let d := Decimal.ofParts negative ds (fraction.getD []) (exponent.getD 0)
      if d.toFloat == Binary64.infinity then none else some (.double d.toFloat, s)

/-! ## Dates and times of day -/

def fixed? (count lo hi : Nat) (s : List Char) : Option (Nat × List Char) :=
  let ds := s.take count
  let n := Decimal.ofDigits ds
  if ds.length = count ∧ ds.all Decimal.isDigit ∧ lo ≤ n ∧ n ≤ hi then some (n, s.drop count)
  else none

def skipDate? (s : List Char) : Option (List Char) := do
  let (year, s) ← fixed? 4 0 9999 s
  let (month, s) ← fixed? 2 1 12 (← Text.stripFirst? '-' s)
  let (_, s) ← fixed? 2 1 (daysInMonth year month) (← Text.stripFirst? '-' s)
  return s

def skipFraction (s : List Char) : List Char :=
  match s with
  | '.' :: rest =>
    if (rest.head?.map Decimal.isDigit).getD false then rest.dropWhile Decimal.isDigit else s
  | _ => s

def skipTime? (s : List Char) : Option (List Char) := do
  let (_, s) ← fixed? 2 0 23 s
  let (_, s) ← fixed? 2 0 59 (← Text.stripFirst? ':' s)
  let (_, s) ← fixed? 2 0 60 (← Text.stripFirst? ':' s)
  return skipFraction s

def skipHourMinute? (s : List Char) : Option (List Char) := do
  let (_, s) ← fixed? 2 0 23 s
  let (_, s) ← fixed? 2 0 59 (← Text.stripFirst? ':' s)
  return s

def skipOffset (s : List Char) : List Char :=
  match s with
  | 'Z' :: rest => rest
  | 'z' :: rest => rest
  | '+' :: rest => (skipHourMinute? rest).getD s
  | '-' :: rest => (skipHourMinute? rest).getD s
  | _ => s

def skipDateTime? (s : List Char) : Option (List Char) :=
  (skipDate? s).map fun s =>
    match s with
    | c :: rest =>
      if c = 'T' ∨ c = 't' ∨ c = ' ' then ((skipTime? rest).map skipOffset).getD s else s
    | [] => []

def moment? (s : List Char) : Option (Toml × List Char) :=
  (skipDateTime? s <|> skipTime? s).map fun rest =>
    (.moment (String.ofList (s.take (s.length - rest.length))), rest)

/-! ## All of them -/

def word? : List Char → Option (Toml × List Char)
  | 't' :: 'r' :: 'u' :: 'e' :: s => some (.bool true, s)
  | 'f' :: 'a' :: 'l' :: 's' :: 'e' :: s => some (.bool false, s)
  | _ => none

def scalar? (s : List Char) : Option (Toml × List Char) :=
  ((string? s).map fun p => (.text (String.ofList p.1), p.2)) <|>
    word? s <|> moment? s <|> float? s <|> integer? s

end AlertEngine.Toml
