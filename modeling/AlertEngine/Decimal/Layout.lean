import AlertEngine.Decimal.Shortest

/-!
# Layout of decimal numbers

How the digits of a number are set out: positionally or with an exponent, with or without a
fraction that says nothing, with which exponent mark. The decisions of one output format are one
`Layout`; the formats themselves are defined where the output is written.
-/

namespace AlertEngine.Decimal

structure Layout where
  /-- Which of two equally near and equally short numbers is written. -/
  tie : Tie
  /-- Whether a number whose first digit has this place value is written positionally. -/
  positional : Int → Bool
  /-- What follows a positional number without a fraction. -/
  wholeSuffix : String
  /-- What stands before an exponent that is not negative. -/
  exponentMark : String
  /-- What stands before the digits of a negative exponent. -/
  negativeExponentMark : String
  nan : String
  infinity : String
  negInfinity : String

namespace Layout

/-- The digits of a positive number set out around the point, where the first one has place value
`10 ^ lead`. -/
def positionalText (layout : Layout) (digits : List Char) (lead : Int) : List Char :=
  if lead < 0 then
    '0' :: '.' :: (List.replicate (-lead - 1).toNat '0' ++ digits)
  else
    let places := lead.toNat + 1
    if digits.length ≤ places then
      digits ++ List.replicate (places - digits.length) '0' ++ layout.wholeSuffix.toList
    else digits.take places ++ '.' :: digits.drop places

def scientificText (layout : Layout) (digits : List Char) (lead : Int) : List Char :=
  let mantissa := match digits with
    | [] => []
    | [d] => [d]
    | d :: ds => d :: '.' :: ds
  let exponent :=
    if lead < 0 then layout.negativeExponentMark.toList ++ Nat.toDigits 10 (-lead).toNat
    else layout.exponentMark.toList ++ Nat.toDigits 10 lead.toNat
  mantissa ++ exponent

def magnitudeText (layout : Layout) (n : Nat) : List Char :=
  if n = 0 then '0' :: layout.wholeSuffix.toList
  else
    let (c, e) := shortest layout.tie n
    let digits := Nat.toDigits 10 c
    let lead : Int := e + (digits.length - 1 : Nat)
    if layout.positional lead then layout.positionalText digits lead
    else layout.scientificText digits lead

def write (layout : Layout) (x : Float) : List Char :=
  if x.isNaN then layout.nan.toList
  else if x.isInf then (if x < 0 then layout.negInfinity else layout.infinity).toList
  else
    let magnitude := layout.magnitudeText (Binary64.rank x)
    if Binary64.isNegative x then '-' :: magnitude else magnitude

end Layout

end AlertEngine.Decimal
