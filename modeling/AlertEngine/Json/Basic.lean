import AlertEngine.Decimal.Layout
import AlertEngine.Dictionary
import AlertEngine.Json.Numeral

/-!
# JSON values and their text

* `Json`: the values, with whole numbers kept apart from doubles.
* `Json.write`: the compact text of a value.
* `Json.Tree`: a text as it is written, before numbers and characters get a value.

An object lists its members in the order in which they are written. `Json.ofMembers` makes the
object whose members stand in ascending order of their keys, each key once; every object that is
decoded is of this form.
-/

namespace AlertEngine

inductive Json where
  | null
  | bool (b : Bool)
  | whole (n : Int)
  | double (x : Float)
  | text (s : String)
  | list (items : List Json)
  | object (members : List (String × Json))

namespace Json

instance : Inhabited Json := ⟨.null⟩

/-- The object with the given members, where the last one of a key counts. -/
def ofMembers (members : List (String × Json)) : Json :=
  .object (Dictionary.ofEntries members).toList

/-- A double as a JSON value: JSON has no NaN and no infinity. -/
def ofFloat (x : Float) : Json := if x.isFinite then .double x else .null

/-! ## Text -/

/-- Numbers that are not whole are written with the fewest digits that identify them: positionally
from `1e-5` up to below `1e16`, with a fraction in any case, otherwise with a signed exponent. -/
def numberLayout : Decimal.Layout where
  tie := .toEven
  positional lead := -5 ≤ lead && lead < 16
  wholeSuffix := ".0"
  exponentMark := "e+"
  negativeExponentMark := "e-"
  nan := "null"
  infinity := "null"
  negInfinity := "null"

/-- A character inside a quoted text: only the quote, the backslash and control characters are
escaped. -/
def escape (c : Char) : List Char :=
  if c = '"' then ['\\', '"']
  else if c = '\\' then ['\\', '\\']
  else if c = '\x08' then ['\\', 'b']
  else if c = '\t' then ['\\', 't']
  else if c = '\n' then ['\\', 'n']
  else if c = '\x0c' then ['\\', 'f']
  else if c = '\r' then ['\\', 'r']
  else if c.toNat < 0x20 then
    ['\\', 'u', '0', '0', Nat.digitChar (c.toNat / 16), Nat.digitChar (c.toNat % 16)]
  else [c]

def quote (s : String) : List Char := '"' :: s.toList.flatMap escape ++ ['"']

mutual

def write : Json → List Char
  | .null => "null".toList
  | .bool true => "true".toList
  | .bool false => "false".toList
  | .whole n => writeInteger n
  | .double x => numberLayout.write x
  | .text s => quote s
  | .list items => '[' :: writeItems items ++ [']']
  | .object members => '{' :: writeMembers members ++ ['}']

def writeItems : List Json → List Char
  | [] => []
  | [v] => write v
  | v :: w :: vs => write v ++ ',' :: writeItems (w :: vs)

def writeMembers : List (String × Json) → List Char
  | [] => []
  | [(k, v)] => quote k ++ ':' :: write v
  | (k, v) :: m :: ms => quote k ++ ':' :: (write v ++ ',' :: writeMembers (m :: ms))

end

/-! ## Text as it is written -/

/-- A text as it is written. A quoted text with a lone surrogate among its escapes is well formed
and yet no sequence of characters, so it has no value here. -/
inductive Tree where
  | null
  | bool (b : Bool)
  | number (n : Numeral)
  | text (s : Option String)
  | list (items : List Tree)
  | object (members : List (Option String × Tree))

instance : Inhabited Tree := ⟨.null⟩

end Json

end AlertEngine
