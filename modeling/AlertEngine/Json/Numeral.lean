import AlertEngine.Decimal.Basic

/-!
# Numbers as JSON writes them

* `Numeral`: a sign, the digits before and after the point, an exponent.
* `Numeral.value`: the decimal number that is written.
* `Numeral.integer?`: its value, where it is written as a whole number.
* `Numeral.toFloat?`: the double that it is read as.

A double is read in three steps: the leading digits, as many as fit 64 bits, make a whole number;
it is rounded to a double; that is multiplied or divided by a power of ten. Whole numbers of up to
15 digits and powers of ten up to `1e22` are doubles themselves, so that only the last step rounds
and gives the nearest double; beyond that the result may lie beside it.
-/

namespace AlertEngine.Json

structure Numeral where
  negative : Bool
  /-- The digits before the point. -/
  whole : List Char
  /-- The digits after the point, if there is a point. -/
  fraction : Option (List Char)
  exponent : Option Int
deriving DecidableEq, Repr

namespace Numeral

def isWhole (n : Numeral) : Bool := n.fraction.isNone && n.exponent.isNone

def value (n : Numeral) : Decimal :=
  Decimal.ofParts n.negative n.whole (n.fraction.getD []) (n.exponent.getD 0)

/-- The value of a number that is written as a whole one and is not minus zero. -/
def integer? (n : Numeral) : Option Int :=
  let d := n.value
  if !n.isWhole || (d.negative && d.coefficient == 0) then none
  else some (if d.negative then -(d.coefficient : Int) else d.coefficient)

/-! ## Leading digits -/

/-- A whole number with further digits put behind it, as long as it fits 64 bits, and the digits
that are left over. -/
def extend (n : Nat) : List Char → Nat × List Char
  | [] => (n, [])
  | d :: ds =>
    let m := Nat.ofDigitChars 10 [d] n
    if m < UInt64.size then extend m ds else (n, d :: ds)

/-- The leading digits as a whole number, and the power of ten that puts it in its place. Digits
left over before the point keep their places, those left over after it are dropped. -/
def leading (n : Numeral) : Nat × Int :=
  let fraction := n.fraction.getD []
  let (m, left) := extend 0 n.whole
  let (m, dropped) := extend m fraction
  (m, n.exponent.getD 0 + left.length + dropped.length - fraction.length)

/-! ## Doubles -/

def powerOfTen (k : Nat) : Float := Decimal.toFloat ⟨false, 1, k⟩

def multiplied? (x : Float) (k : Nat) : Option Float :=
  if x == 0 then some x
  else
    let y := x * powerOfTen k
    if y.isFinite then some y else none

/-- The quotient of `x` and `10 ^ k`, where `1e308`, the greatest power of ten among the doubles,
is divided off first. Twice is enough, since it leaves nothing of a number of 64 bits. -/
def divided (x : Float) (k : Nat) : Float :=
  Nat.repeat (· / powerOfTen 308) (min 2 (k / 308)) x / powerOfTen (k % 308)

def toFloat? (n : Numeral) : Option Float :=
  let (m, e) := n.leading
  let x := Decimal.toFloat ⟨false, m, 0⟩
  let y := if 0 ≤ e then multiplied? x e.toNat else some (divided x (-e).toNat)
  y.map fun y => if n.negative then -y else y

theorem extend_fst_lt {n : Nat} (h : n < UInt64.size) (ds : List Char) :
    (extend n ds).1 < UInt64.size := by
  induction ds generalizing n with
  | nil => exact h
  | cons d ds ih =>
    rw [extend]
    split
    · exact ih ‹_›
    · exact h

/-- The leading digits fit 64 bits. -/
theorem leading_fst_lt (n : Numeral) : n.leading.1 < UInt64.size :=
  extend_fst_lt (extend_fst_lt (by decide) _) _

end Numeral

end AlertEngine.Json
