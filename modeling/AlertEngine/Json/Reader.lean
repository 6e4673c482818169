import AlertEngine.Json.Basic
import AlertEngine.Text.Basic

/-!
# Reading JSON

Strict JSON from a list of characters. Each function takes what is left of the text and gives the
part that it has read with what is left after it.

* `numeral?`: digits without superfluous zeros, a fraction, an exponent.
* `units?`, `joinUnits?`, `quoted?`: what follows an opening quote, up to the closing one, as code
  units and as a text.
* `value?`, `items?`, `members?`: values, and the insides of lists and objects.
* `Tree.ofText?`: a text that is one value with blanks around it.

Nesting is not limited here. Every call for a value takes a character off the text, so the length
of the text bounds the recursion.
-/

namespace AlertEngine.Json

def isSpace (c : Char) : Bool := c = ' ' || c = '\t' || c = '\n' || c = '\r'

def skipSpace (s : List Char) : List Char := s.dropWhile isSpace

/-! ## Numbers -/

def fraction? : List Char → Option (Option (List Char) × List Char)
  | '.' :: s =>
    let (ds, s) := s.span Decimal.isDigit
    if ds.isEmpty then none else some (some ds, s)
  | s => some (none, s)

def exponentDigits? (s : List Char) : Option (Option Int × List Char) :=
  let (negative, s) := Decimal.cutSign s
  let (ds, s) := s.span Decimal.isDigit
  if ds.isEmpty then none
  else some (some (if negative then -(Decimal.ofDigits ds : Int) else Decimal.ofDigits ds), s)

def exponent? : List Char → Option (Option Int × List Char)
  | 'e' :: s => exponentDigits? s
  | 'E' :: s => exponentDigits? s
  | s => some (none, s)

def magnitude? (negative : Bool) (s : List Char) : Option (Numeral × List Char) :=
  let (ds, s) := s.span Decimal.isDigit
  if ds.isEmpty || (ds.head? == some '0' && 1 < ds.length) then none
  else do
    let (fraction, s) ← fraction? s
    let (exponent, s) ← exponent? s
    return (⟨negative, ds, fraction, exponent⟩, s)

def numeral? : List Char → Option (Numeral × List Char)
  | '-' :: s => magnitude? true s
  | s => magnitude? false s

/-! ## Texts -/

def hex? (ds : List Char) : Option Nat :=
  if ds.all (Text.isDigitOf 16) then some (Text.ofDigits 16 ds) else none

def unescape? : Char → Option Char
  | '"' => some '"'
  | '\\' => some '\\'
  | '/' => some '/'
  | 'b' => some '\x08'
  | 'f' => some '\x0c'
  | 'n' => some '\n'
  | 'r' => some '\r'
  | 't' => some '\t'
  | _ => none

def isHighSurrogate (n : Nat) : Bool := 0xD800 ≤ n && n < 0xDC00

def isLowSurrogate (n : Nat) : Bool := 0xDC00 ≤ n && n < 0xE000

def joinSurrogates (high low : Nat) : Char :=
  Char.ofNat (0x10000 + (high - 0xD800) * 0x400 + (low - 0xDC00))

/-- What follows an opening quote as code units, up to the closing quote: a plain character and a
short escape are one code point each, an escape of four digits is the number it gives. The units
read so far stand in reverse. -/
def units? (before : List Nat) : List Char → Option (List Nat × List Char)
  | [] => none
  | '"' :: s => some (before.reverse, s)
  | '\\' :: 'u' :: a :: b :: c :: d :: s =>
    match hex? [a, b, c, d] with
    | some n => units? (n :: before) s
    | none => none
  | '\\' :: c :: s =>
    match unescape? c with
    | some c => units? (c.toNat :: before) s
    | none => none
  | c :: s => if c.toNat < 0x20 || c = '\\' then none else units? (c.toNat :: before) s

theorem units?_quote (before : List Nat) (s : List Char) :
    units? before ('"' :: s) = some (before.reverse, s) := by
  rw [units?]

/-- The characters that code units stand for, where a high surrogate may be waiting for its low
one. A surrogate alone is no character. The characters made so far stand in reverse. -/
def joinUnits? (waiting : Option Nat) (before : List Char) : List Nat → Option (List Char)
  | [] => if waiting.isNone then some before.reverse else none
  | n :: ns =>
    match waiting with
    | some high =>
      if isLowSurrogate n then joinUnits? none (joinSurrogates high n :: before) ns else none
    | none =>
      if isHighSurrogate n then joinUnits? (some n) before ns
      else if isLowSurrogate n then none
      else joinUnits? none (Char.ofNat n :: before) ns

def quoted? (s : List Char) : Option (Option String × List Char) :=
  (units? [] s).map fun p => ((joinUnits? none [] p.1).map String.ofList, p.2)

/-! ## Values -/

mutual

def value? : Nat → List Char → Option (Tree × List Char)
  | 0, _ => none
  | fuel + 1, s =>
    match skipSpace s with
    | 'n' :: 'u' :: 'l' :: 'l' :: s => some (.null, s)
    | 't' :: 'r' :: 'u' :: 'e' :: s => some (.bool true, s)
    | 'f' :: 'a' :: 'l' :: 's' :: 'e' :: s => some (.bool false, s)
    | '"' :: s => (quoted? s).map fun p => (.text p.1, p.2)
    | '[' :: s =>
      match skipSpace s with
      | ']' :: s => some (.list [], s)
      | _ => (items? fuel s).map fun p => (.list p.1, p.2)
    | '{' :: s =>
      match skipSpace s with
      | '}' :: s => some (.object [], s)
      | _ => (members? fuel s).map fun p => (.object p.1, p.2)
    | s => (numeral? s).map fun p => (.number p.1, p.2)

/-- The values of a list, of which there is at least one, with the closing bracket. -/
def items? : Nat → List Char → Option (List Tree × List Char)
  | 0, _ => none
  | fuel + 1, s =>
    match value? fuel s with
    | none => none
    | some (v, s) =>
      match skipSpace s with
      | ']' :: s => some ([v], s)
      | ',' :: s => (items? fuel s).map fun p => (v :: p.1, p.2)
      | _ => none

def members? : Nat → List Char → Option (List (Option String × Tree) × List Char)
  | 0, _ => none
  | fuel + 1, s =>
    match skipSpace s with
    | '"' :: s =>
      match quoted? s with
      | none => none
      | some (key, s) =>
        match skipSpace s with
        | ':' :: s =>
          match value? fuel s with
          | none => none
          | some (v, s) =>
            match skipSpace s with
            | '}' :: s => some ([(key, v)], s)
            | ',' :: s => (members? fuel s).map fun p => ((key, v) :: p.1, p.2)
            | _ => none
        | _ => none
    | _ => none

end

@[simp] theorem value?_zero (s : List Char) : value? 0 s = none := by rw [value?]

@[simp] theorem items?_zero (s : List Char) : items? 0 s = none := by rw [items?]

@[simp] theorem members?_zero (s : List Char) : members? 0 s = none := by rw [members?]

def Tree.ofText? (s : List Char) : Option Tree :=
  match value? (s.length + 1) s with
  | some (v, rest) => if (skipSpace rest).isEmpty then some v else none
  | none => none

end AlertEngine.Json
