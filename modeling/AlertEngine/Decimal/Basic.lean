import AlertEngine.Binary64

/-!
# Decimal numbers

* `Decimal`: a sign, a coefficient and a power of ten.
* `Decimal.toFloat`: the nearest double.
* `Decimal.readFloat?`: the numbers that rule text admits, with their words for infinity and NaN.
* `readInteger?`, `writeInteger`: whole numbers with an optional sign, and their digits.
-/

namespace AlertEngine

/-- The number `coefficient * 10 ^ exponent` with a sign; zero has a sign too. -/
structure Decimal where
  negative : Bool
  coefficient : Nat
  exponent : Int
deriving DecidableEq, Repr

namespace Decimal

/-! ## Value -/

/-- The rank of the double nearest to `coefficient * 10 ^ exponent`. Beyond the two outer bounds
the answer is known from the exponent alone, and the powers of ten are not computed. -/
def nearestRank (coefficient : Nat) (exponent : Int) : Nat :=
  if coefficient = 0 then 0
  else if 400 < exponent then Binary64.infinityRank
  else if exponent < -(400 + (coefficient.log2 : Int)) then 0
  else Binary64.nearestRank (coefficient * Nat.pow 10 exponent.toNat) (Nat.pow 10 (-exponent).toNat)

def toFloat (d : Decimal) : Float :=
  Binary64.ofRank d.negative (nearestRank d.coefficient d.exponent)

/-! ## Digits -/

def isDigit (c : Char) : Bool := '0' ≤ c && c ≤ '9'

def ofDigits (ds : List Char) : Nat := Nat.ofDigitChars 10 ds 0

def ofParts (negative : Bool) (whole fraction : List Char) (exponent : Int) : Decimal :=
  ⟨negative, ofDigits (whole ++ fraction), exponent - fraction.length⟩

def cutSign : List Char → Bool × List Char
  | '-' :: s => (true, s)
  | '+' :: s => (false, s)
  | s => (false, s)

def readExponent? (s : List Char) : Option Int :=
  let (negative, ds) := cutSign s
  if ds.isEmpty || !ds.all isDigit then none
  else some (if negative then -(ofDigits ds : Int) else ofDigits ds)

/-- Digits, a point and digits with an exponent; either run of digits may be empty, not both. -/
def readMagnitude? (negative : Bool) (s : List Char) : Option Decimal :=
  let (whole, s) := s.span isDigit
  let (fraction, s) := match s with
    | '.' :: s => s.span isDigit
    | s => ([], s)
  if whole.isEmpty && fraction.isEmpty then none
  else match s with
    | [] => some (ofParts negative whole fraction 0)
    | c :: s =>
      if c = 'e' ∨ c = 'E' then (readExponent? s).map (ofParts negative whole fraction) else none

/-- A double from text: an optional sign before a decimal number, or before `inf`, `infinity` or
`nan` in any letter case. -/
def readFloat? (s : List Char) : Option Float :=
  let (negative, s) := cutSign s
  let word := s.map Char.toLower
  if word = "inf".toList ∨ word = "infinity".toList then
    some (if negative then Binary64.negInfinity else Binary64.infinity)
  else if word = "nan".toList then some Binary64.nan
  else (readMagnitude? negative s).map toFloat

end Decimal

def readInteger? (s : List Char) : Option Int :=
  match Decimal.readExponent? s with
  | some n => if Int64.minValue.toInt ≤ n ∧ n ≤ Int64.maxValue.toInt then some n else none
  | none => none

def writeInteger (n : Int) : List Char :=
  if n < 0 then '-' :: Nat.toDigits 10 n.natAbs else Nat.toDigits 10 n.natAbs

end AlertEngine
