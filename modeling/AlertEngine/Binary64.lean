/-!
# Doubles by rank

The doubles of one sign, zero and infinity included, lie in a row. The *rank* of a double is its
place in that row, counted from zero upward; it is the bit pattern without the sign. Rounding a
positive rational to the nearest double is then a function to ranks, in exact arithmetic.

* `rank`, `isNegative`, `ofRank`: a double as sign and rank.
* `significand`, `scale`: the value of a rank is `significand * 2 ^ scale`.
* `nearestRank`: the rank nearest to a rational; a tie goes to the even rank.
* `larger`, `smaller`: maximum and minimum that pass over a NaN.
-/

namespace AlertEngine.Binary64

def signBit : Nat := 0x8000000000000000

def binade : Nat := 0x10000000000000

/-- The place of a double among those of its sign; NaN lies above infinity. -/
def rank (x : Float) : Nat := x.toBits.toNat % signBit

def isNegative (x : Float) : Bool := signBit ≤ x.toBits.toNat

def infinityRank : Nat := 0x7FF * binade

def ofRank (negative : Bool) (n : Nat) : Float :=
  Float.ofBits (UInt64.ofNat (if negative then signBit + n else n))

def infinity : Float := ofRank false infinityRank

def negInfinity : Float := ofRank true infinityRank

def nan : Float := Float.ofBits 0x7FF8000000000000

def lowest : Float := ofRank true (infinityRank - 1)

def significand (n : Nat) : Nat := if n < binade then n else binade + n % binade

def scale (n : Nat) : Int := if n < binade then -1074 else (n / binade : Nat) - 1075

def floorLog2 (num den : Nat) : Int :=
  let k : Int := (num.log2 : Int) - den.log2
  if den * Nat.pow 2 k.toNat ≤ num * Nat.pow 2 (-k).toNat then k else k - 1

def roundHalfEven (num den : Nat) : Nat :=
  let q := num / den
  let r := num % den
  if 2 * r < den then q else if den < 2 * r then q + 1 else q + q % 2

/-- The rank of the double nearest to `num / den`; a tie goes to the even rank, and what rounds to
the next power of two beyond the largest double is infinite. A carry out of the significand moves
on to the rank that follows, so it needs no case of its own. -/
def nearestRank (num den : Nat) : Nat :=
  if num = 0 then 0
  else
    let q : Int := max (-1074) (floorLog2 num den - 52)
    let m := roundHalfEven (num * Nat.pow 2 (-q).toNat) (den * Nat.pow 2 q.toNat)
    min infinityRank ((q + 1074).toNat * binade + m)

/-- The larger of two doubles; of a NaN and a number the number, of two zeros the first. -/
def larger (x y : Float) : Float := if x.isNaN then y else if x < y then y else x

def smaller (x y : Float) : Float := if x.isNaN then y else if y < x then y else x

/-- Sum from left to right. The sum of nothing is `-0.0`, the one double that changes no other
when it is added. -/
def sum (xs : List Float) : Float := xs.foldl (· + ·) (-0.0)

def mean (xs : List Float) : Float := sum xs / Float.ofNat xs.length

theorem nearestRank_le_infinityRank (num den : Nat) : nearestRank num den ≤ infinityRank := by
  unfold nearestRank
  split
  · exact Nat.zero_le _
  · exact Nat.min_le_left ..

end AlertEngine.Binary64
