import AlertEngine.Text.Basic
import AlertEngine.Decimal.Basic

/-!
# Instants

Points in time as calendar date and time of day in UTC, read from and written as RFC 3339 text.

* `Date`: a day of the Gregorian calendar, with `Date.next?` and `Date.previous?`.
* `Instant`: a date, a second of that day and a fraction; a leap second is the second `59` with a
  fraction of at least one second.
* `Instant.read?`: the date and time of day, a separator between them, and an offset from UTC.
  Blanks may stand between the parts, and a number may have fewer digits than its place.
* `Instant.write`: the text in UTC, with as many thousands of the fraction as it needs.
-/

namespace AlertEngine

/-! ## Dates -/

def isLeapYear (year : Int) : Bool := year % 4 == 0 && (year % 100 != 0 || year % 400 == 0)

def daysInMonth (year : Int) (month : Nat) : Nat :=
  if month = 2 then (if isLeapYear year then 29 else 28)
  else if month = 4 ∨ month = 6 ∨ month = 9 ∨ month = 11 then 30
  else 31

structure Date where
  year : Int
  month : Nat
  day : Nat
  year_mem : -262143 ≤ year ∧ year ≤ 262142
  month_mem : 1 ≤ month ∧ month ≤ 12
  day_mem : 1 ≤ day ∧ day ≤ daysInMonth year month
deriving DecidableEq, Repr

namespace Date

def ofParts? (year : Int) (month day : Nat) : Option Date :=
  if hy : -262143 ≤ year ∧ year ≤ 262142 then
    if hm : 1 ≤ month ∧ month ≤ 12 then
      if hd : 1 ≤ day ∧ day ≤ daysInMonth year month then some ⟨year, month, day, hy, hm, hd⟩
      else none
    else none
  else none

def next? (d : Date) : Option Date :=
  if d.day < daysInMonth d.year d.month then ofParts? d.year d.month (d.day + 1)
  else if d.month < 12 then ofParts? d.year (d.month + 1) 1
  else ofParts? (d.year + 1) 1 1

def previous? (d : Date) : Option Date :=
  if 1 < d.day then ofParts? d.year d.month (d.day - 1)
  else if 1 < d.month then ofParts? d.year (d.month - 1) (daysInMonth d.year (d.month - 1))
  else ofParts? (d.year - 1) 12 31

end Date

/-! ## Instants -/

structure Instant where
  date : Date
  second : Nat
  nanos : Nat
  second_lt : second < 86400 := by omega
  nanos_lt : nanos < 2000000000 := by omega
deriving DecidableEq, Repr

namespace Instant

def epoch : Instant where
  date := ⟨1970, 1, 1, by omega, by omega, by decide⟩
  second := 0
  nanos := 0

instance : Inhabited Instant := ⟨epoch⟩

/-- The instant of a date and a time of day at an offset of less than a day from UTC. -/
def ofLocal? (date : Date) (second nanos : Nat) (offset : Int) : Option Instant :=
  let shifted : Int := second - offset
  if hn : nanos < 2000000000 then
    if h₁ : shifted < 0 then
      if h₂ : 0 ≤ shifted + 86400 then
        date.previous?.map fun d => ⟨d, (shifted + 86400).toNat, nanos, by omega, hn⟩
      else none
    else if h₂ : shifted < 86400 then some ⟨date, shifted.toNat, nanos, by omega, hn⟩
    else if h₃ : shifted < 172800 then
      date.next?.map fun d => ⟨d, (shifted - 86400).toNat, nanos, by omega, hn⟩
    else none
  else none

/-! ## Reading -/

/-- A number of one to `width` digits after blanks, and what follows. -/
def number? (width : Nat) (s : List Char) : Option (Nat × List Char) :=
  let s := Text.trimStart s
  let ds := (s.take width).takeWhile Decimal.isDigit
  if ds.isEmpty then none else some (Decimal.ofDigits ds, s.drop ds.length)

/-- A year: four digits at most, or any number of them after a sign. -/
def year? (s : List Char) : Option (Int × List Char) :=
  match Text.trimStart s with
  | '-' :: s => signed true s
  | '+' :: s => signed false s
  | s => (number? 4 s).map fun p => ((p.1 : Int), p.2)
where
  signed (negative : Bool) (s : List Char) : Option (Int × List Char) :=
    let (ds, s) := s.span Decimal.isDigit
    if ds.isEmpty then none
    else some (if negative then -(Decimal.ofDigits ds : Int) else Decimal.ofDigits ds, s)

def mark? (c : Char) (s : List Char) : Option (List Char) :=
  Text.stripFirst? c (Text.trimStart s)

/-- The nanoseconds of a fraction, which may be absent, and what follows. Digits beyond the ninth
are passed over. -/
def fraction? : List Char → Option (Nat × List Char)
  | '.' :: s =>
    let (ds, s) := s.span Decimal.isDigit
    if ds.isEmpty then none
    else some (Decimal.ofDigits (ds.take 9) * Nat.pow 10 (9 - ds.length), s)
  | s => some (0, s)

def twoDigits? : List Char → Option (Nat × List Char)
  | a :: b :: s =>
    if Decimal.isDigit a && Decimal.isDigit b then some (Decimal.ofDigits [a, b], s) else none
  | _ => none

/-- An offset in seconds: `Z`, `UTC`, or hours and minutes with a sign. -/
def offset? (s : List Char) : Option (Int × List Char) :=
  if (s.take 3).map Char.toUpper = ['U', 'T', 'C'] then some (0, s.drop 3)
  else match s with
    | 'Z' :: s => some (0, s)
    | 'z' :: s => some (0, s)
    | '+' :: s => hoursAndMinutes false s
    | '-' :: s => hoursAndMinutes true s
    | '−' :: s => hoursAndMinutes true s
    | _ => none
where
  hoursAndMinutes (negative : Bool) (s : List Char) : Option (Int × List Char) := do
    let (hours, s) ← twoDigits? s
    let (minutes, s) ← twoDigits? (s.dropWhile fun c => c = ':' || Text.isBlank c)
    if 60 ≤ minutes then none
    else
      let seconds : Int := (hours * 3600 + minutes * 60 : Nat)
      return (if negative then -seconds else seconds, s)

/-- A time of day as second and nanoseconds; the second `60` is a leap second. -/
def timeOfDay? (hour minute second nanos : Nat) : Option (Nat × Nat) :=
  if 24 ≤ hour || 60 ≤ minute || 61 ≤ second then none
  else if second = 60 then some (hour * 3600 + minute * 60 + 59, nanos + 1000000000)
  else some (hour * 3600 + minute * 60 + second, nanos)

def read? (s : List Char) : Option Instant := do
  let (year, s) ← year? s
  let (month, s) ← number? 2 (← mark? '-' s)
  let (day, s) ← number? 2 (← mark? '-' s)
  let date ← Date.ofParts? year month day
  let s ← match s with
    | 'T' :: s => some s
    | 't' :: s => some s
    | ' ' :: s => some s
    | _ => none
  let (hour, s) ← number? 2 s
  let (minute, s) ← number? 2 (← mark? ':' s)
  let (second, s) ← number? 2 (← mark? ':' s)
  let (nanos, s) ← fraction? s
  let (offset, s) ← offset? (Text.trimStart s)
  let (second, nanos) ← timeOfDay? hour minute second nanos
  if (Text.trimStart s).isEmpty && offset.natAbs < 86400 then ofLocal? date second nanos offset
  else none

/-! ## Writing -/

def digits : Nat → Nat → List Char
  | 0, _ => []
  | width + 1, n => digits width (n / 10) ++ [Nat.digitChar (n % 10)]

/-- A year: four digits, or a sign and at least four digits where four do not suffice. -/
def writeYear (year : Int) : List Char :=
  if 0 ≤ year ∧ year ≤ 9999 then digits 4 year.natAbs
  else
    let ds := Nat.toDigits 10 year.natAbs
    (if year < 0 then '-' else '+') :: (List.replicate (4 - ds.length) '0' ++ ds)

/-- A fraction of a second: none, three, six or nine digits, whichever suffice. -/
def writeFraction (nanos : Nat) : List Char :=
  if nanos = 0 then []
  else if nanos % 1000000 = 0 then '.' :: digits 3 (nanos / 1000000)
  else if nanos % 1000 = 0 then '.' :: digits 6 (nanos / 1000)
  else '.' :: digits 9 nanos

def write (t : Instant) : List Char :=
  let second := t.second % 60 + t.nanos / 1000000000
  writeYear t.date.year ++ '-' :: digits 2 t.date.month ++ '-' :: digits 2 t.date.day ++
    'T' :: digits 2 (t.second / 3600) ++ ':' :: digits 2 (t.second / 60 % 60) ++
    ':' :: digits 2 second ++ writeFraction (t.nanos % 1000000000) ++ ['Z']

end Instant

end AlertEngine
