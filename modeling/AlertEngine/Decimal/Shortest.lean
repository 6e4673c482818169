import AlertEngine.Decimal.Basic

/-!
# The fewest digits that identify a double

* `shortest`: of the decimal numbers nearest to a double from below and from above with one digit,
  with two digits, and so on, the first that reads back as that double.
* `exact`: the decimal expansion of a double, which ends because the scale is a power of two.

If a grid of decimal numbers has a point that reads back, one of the value's two neighbours on that
grid does, so no shorter number identifies the double.
-/

namespace AlertEngine.Decimal

inductive Tie where
  | toEven
  | upward
deriving DecidableEq, Repr

/-- A coefficient without trailing zeros, which are counted into the exponent; at most the given
number of them is removed. -/
def stripZeros : Nat → Nat → Int → Nat × Int
  | 0, c, e => (c, e)
  | n + 1, c, e => if c ≠ 0 ∧ c % 10 = 0 then stripZeros n (c / 10) (e + 1) else (c, e)

def exact (n : Nat) : Nat × Int :=
  let m := Binary64.significand n
  let q := Binary64.scale n
  if 0 ≤ q then (m * Nat.pow 2 q.toNat, 0) else (m * Nat.pow 5 (-q).toNat, q)

def ratio (n : Nat) : Nat × Nat :=
  let m := Binary64.significand n
  let q := Binary64.scale n
  (m * Nat.pow 2 q.toNat, Nat.pow 2 (-q).toNat)

/-- The greatest `k` with `10 ^ k ≤ num / den`, for positive `num` and `den`: an estimate from the
binary logarithm, off by one at most, and its correction. -/
def floorLog10 (num den : Nat) : Int :=
  let k : Int := Binary64.floorLog2 num den * 30103 / 100000
  let reaches (k : Int) : Bool := den * Nat.pow 10 k.toNat ≤ num * Nat.pow 10 (-k).toNat
  if reaches (k + 1) then k + 1 else if reaches k then k else k - 1

/-- Of the two neighbours of a value on the grid of multiples of `10 ^ k` the one that reads back
as rank `n`; where both do, the nearer one. -/
def onGrid? (tie : Tie) (n : Nat) (k : Int) : Option (Nat × Int) :=
  let (num, den) := ratio n
  let num := num * Nat.pow 10 (-k).toNat
  let den := den * Nat.pow 10 k.toNat
  let below := num / den
  let above := below + 1
  let takeAbove := match compare (2 * num) ((below + above) * den) with
    | .lt => false
    | .gt => true
    | .eq => match tie with
      | .toEven => below % 2 = 1
      | .upward => true
  match nearestRank below k == n, nearestRank above k == n with
  | true, true => some (if takeAbove then above else below, k)
  | true, false => some (below, k)
  | false, true => some (above, k)
  | false, false => none

/-- The coefficient and power of ten with the fewest digits that read back as a finite rank other
than zero, the coefficient without trailing zeros. -/
def shortest (tie : Tie) (n : Nat) : Nat × Int :=
  let lead := floorLog10 (ratio n).1 (ratio n).2
  let (c, e) := ((List.range 17).findSome? fun (i : Nat) => onGrid? tie n (lead - i)).getD (exact n)
  stripZeros 20 c e

end AlertEngine.Decimal
