import AlertEngine.Instant
import AlertEngine.Proofs.Shared
import AlertEngine.Proofs.WrittenNumbers

/-! # Instants as they are written are read

The text of an instant has its numbers in places of fixed width, so that the reader finds them one
after the other. A leap second is written as the second 60, which can be read only at the end of a
minute.

* `ofDigits_digits`, `number?_digits`, `year?_writeYear`: the numbers in their places.
* `Instant.Regular`: instants that are no leap seconds, or leap seconds at the end of a minute.
* `Instant.read?_write`: a regular instant is read back.
-/

namespace AlertEngine.Instant

variable {rest : List Char}

/-! ## Digits -/

theorem isDigit_digitChar (n : Nat) : Decimal.isDigit (Nat.digitChar (n % 10)) = true :=
  (by decide : ∀ d < 10, Decimal.isDigit (Nat.digitChar d) = true) _ (Nat.mod_lt n (by decide))

theorem length_digits (width n : Nat) : (digits width n).length = width := by
  induction width generalizing n with
  | zero => rfl
  | succ width inductionHypothesis =>
    rw [digits, List.length_append, inductionHypothesis, List.length_singleton]

theorem isDigit_of_mem_digits {width n : Nat} {c : Char} (member : c ∈ digits width n) :
    Decimal.isDigit c = true := by
  induction width generalizing n with
  | zero => cases member
  | succ width inductionHypothesis =>
    rw [digits, List.mem_append, List.mem_singleton] at member
    rcases member with before | rfl
    · exact inductionHypothesis before
    · exact isDigit_digitChar n

/-- The last digits of a number stand for its remainder. -/
theorem ofDigits_digits (width n : Nat) : Decimal.ofDigits (digits width n) = n % 10 ^ width := by
  induction width generalizing n with
  | zero => rw [pow_zero, Nat.mod_one]; rfl
  | succ width inductionHypothesis =>
    simp only [Decimal.ofDigits] at inductionHypothesis ⊢
    rw [digits, Nat.ofDigitChars_append, inductionHypothesis,
      Nat.ofDigitChars_cons_digitChar_of_lt_ten (Nat.mod_lt n (by decide)), Nat.ofDigitChars_nil,
      pow_succ', Nat.mod_mul]
    omega

theorem isBlank_of_digit {c : Char} (digit : Decimal.isDigit c = true) :
    Text.isBlank c = false := by
  simp only [Decimal.isDigit, Bool.and_eq_true, decide_eq_true_eq] at digit
  have low : 48 ≤ c.toNat := digit.1
  have high : c.toNat ≤ 57 := digit.2
  simp [Text.isBlank, Text.inRanges, Text.blankRanges]
  omega

theorem trimStart_of_first {c : Char} (visible : Text.isBlank c = false) (s : List Char) :
    Text.trimStart (c :: s) = c :: s := by
  rw [Text.trimStart, List.dropWhile_cons_of_neg (by simp [visible])]

theorem trimStart_digits {ds : List Char} (digits : ∀ c ∈ ds, Decimal.isDigit c = true)
    (present : ds ≠ []) (rest : List Char) : Text.trimStart (ds ++ rest) = ds ++ rest := by
  obtain ⟨d, ds, rfl⟩ := List.exists_cons_of_ne_nil present
  exact trimStart_of_first (isBlank_of_digit (digits d List.mem_cons_self)) _

theorem number?_digits (width : Nat) {n : Nat} (small : n < 10 ^ (width + 1)) (rest : List Char) :
    number? (width + 1) (digits (width + 1) n ++ rest) = some (n, rest) := by
  have length := length_digits (width + 1) n
  have all : ∀ c ∈ digits (width + 1) n, Decimal.isDigit c = true :=
    fun _ member => isDigit_of_mem_digits member
  have present : digits (width + 1) n ≠ [] := List.ne_nil_of_length_eq_add_one length
  have taken : (digits (width + 1) n ++ rest).take (width + 1) = digits (width + 1) n :=
    List.take_left' length
  have value := ofDigits_digits (width + 1) n
  rw [Nat.mod_eq_of_lt small] at value
  simp only [number?, trimStart_digits all present, taken, List.takeWhile_eq_self_iff.mpr all,
    List.isEmpty_eq_false_iff.mpr present, Bool.false_eq_true, if_false, value, List.drop_left]

theorem mark?_cons {c : Char} (visible : Text.isBlank c = false) (s : List Char) :
    mark? c (c :: s) = some s := by
  rw [mark?, trimStart_of_first visible, Text.stripFirst?, if_pos rfl]

/-! ## Years -/

theorem ofDigits_padded (count n : Nat) :
    Decimal.ofDigits (List.replicate count '0' ++ Nat.toDigits 10 n) = n := by
  rw [Decimal.ofDigits, Nat.ofDigitChars_append, Nat.ofDigitChars_replicate_zero, Nat.mul_zero,
    Nat.ofDigitChars_ten_toDigits]

theorem signed_padded (negative : Bool) (count n : Nat) {rest : List Char}
    (goesOn : Json.GoesOn Json.endsDigits rest) :
    year?.signed negative (List.replicate count '0' ++ Nat.toDigits 10 n ++ rest) =
      some (if negative then -(n : Int) else n, rest) := by
  have all : ∀ c ∈ List.replicate count '0' ++ Nat.toDigits 10 n, Decimal.isDigit c = true :=
    List.forall_mem_append.mpr
      ⟨isDigit_of_mem_zeros, fun _ member => isDigit_of_mem_toDigits member⟩
  have present : List.replicate count '0' ++ Nat.toDigits 10 n ≠ [] :=
    List.append_ne_nil_of_right_ne_nil _ Nat.toDigits_ne_nil
  simp only [year?.signed, Json.span_digits all goesOn, List.isEmpty_eq_false_iff.mpr present,
    Bool.false_eq_true, if_false, ofDigits_padded]

theorem year?_of_digit {c : Char} (digit : Decimal.isDigit c = true) (s : List Char) :
    year? (c :: s) = (number? 4 (c :: s)).map fun p => ((p.1 : Int), p.2) := by
  rw [year?, trimStart_of_first (isBlank_of_digit digit)]
  split
  · rename_i same
    cases same
    exact absurd digit (by decide)
  · rename_i same
    cases same
    exact absurd digit (by decide)
  · rfl

theorem year?_writeYear (year : Int) (goesOn : Json.GoesOn Json.endsDigits rest) :
    year? (writeYear year ++ rest) = some (year, rest) := by
  rw [writeYear]
  split
  · rename_i plain
    have small : year.natAbs < 10 ^ 4 := by omega
    obtain ⟨d, ds, written⟩ := List.exists_cons_of_length_eq_add_one (length_digits 4 year.natAbs)
    have digit : Decimal.isDigit d = true :=
      isDigit_of_mem_digits (written ▸ List.mem_cons_self : d ∈ digits 4 year.natAbs)
    have read := number?_digits 3 small rest
    rw [written, List.cons_append] at read ⊢
    rw [year?_of_digit digit, read, Option.map_some, Int.natAbs_of_nonneg plain.1]
  · have read (negative : Bool) := signed_padded negative
      (4 - (Nat.toDigits 10 year.natAbs).length) year.natAbs goesOn
    split
    · rename_i below
      have value : -(year.natAbs : Int) = year := by omega
      rw [List.cons_append, year?, trimStart_of_first (by decide)]
      exact (read true).trans (by rw [if_pos rfl, value])
    · rename_i above
      have value : (year.natAbs : Int) = year := by omega
      rw [List.cons_append, year?, trimStart_of_first (by decide)]
      exact (read false).trans (by rw [if_neg Bool.false_ne_true, value])

/-! ## Seconds -/

theorem fraction?_none (goesOn : Json.GoesOn Json.endsFraction rest) :
    fraction? rest = some (0, rest) := by
  unfold fraction?
  split
  · exact absurd (goesOn '.' rfl) (by decide)
  · rfl

theorem fraction?_digits {width n : Nat} (short : width + 1 ≤ 9) (small : n < 10 ^ (width + 1))
    (goesOn : Json.GoesOn Json.endsDigits rest) :
    fraction? ('.' :: (digits (width + 1) n ++ rest)) =
      some (n * 10 ^ (9 - (width + 1)), rest) := by
  have all : ∀ c ∈ digits (width + 1) n, Decimal.isDigit c = true :=
    fun _ member => isDigit_of_mem_digits member
  have length := length_digits (width + 1) n
  have present := List.isEmpty_eq_false_iff.mpr (List.ne_nil_of_length_eq_add_one length)
  have taken : (digits (width + 1) n).take 9 = digits (width + 1) n :=
    List.take_of_length_le (length.trans_le short)
  have value := ofDigits_digits (width + 1) n
  rw [Nat.mod_eq_of_lt small] at value
  simp only [fraction?, Json.span_digits all goesOn, present, length, taken, value,
    Bool.false_eq_true, if_false]
  rfl

/-- The digits that a fraction leaves out are zeros. -/
theorem fraction?_writeFraction {nanos : Nat} (small : nanos < 1000000000)
    (goesOn : Json.GoesOn Json.endsFraction rest) :
    fraction? (writeFraction nanos ++ rest) = some (nanos, rest) := by
  rw [writeFraction]
  split
  · rename_i zero
    rw [List.nil_append, fraction?_none goesOn, zero]
  split
  · rename_i millis
    rw [List.cons_append, fraction?_digits (by decide) (by omega) goesOn.endsDigits]
    congr 2
    omega
  split
  · rename_i micros
    rw [List.cons_append, fraction?_digits (by decide) (by omega) goesOn.endsDigits]
    congr 2
    omega
  · rw [List.cons_append, fraction?_digits (by decide) small goesOn.endsDigits]
    congr 2
    omega

/-- An instant that is no leap second, or a leap second at the end of a minute. -/
def Regular (t : Instant) : Prop := t.nanos < 1000000000 ∨ t.second % 60 = 59

instance (t : Instant) : Decidable t.Regular := inferInstanceAs (Decidable (_ ∨ _))

theorem timeOfDay?_written {t : Instant} (regular : t.Regular) :
    timeOfDay? (t.second / 3600) (t.second / 60 % 60)
        (t.second % 60 + t.nanos / 1000000000) (t.nanos % 1000000000) =
      some (t.second, t.nanos) := by
  have dayLong := t.second_lt
  have short := t.nanos_lt
  have inside : (decide (24 ≤ t.second / 3600) || decide (60 ≤ t.second / 60 % 60) ||
      decide (61 ≤ t.second % 60 + t.nanos / 1000000000)) = false := by
    simp only [Bool.or_eq_false_iff, decide_eq_false_iff_not]
    omega
  rw [timeOfDay?, inside]
  simp only [Bool.false_eq_true, if_false]
  rw [Regular] at regular
  split
  · congr 2 <;> omega
  · congr 2 <;> omega

/-! ## Instants -/

theorem ofParts?_self (d : Date) :
    Date.ofParts? d.year d.month d.day = some d := by
  rw [Date.ofParts?, dif_pos d.year_mem, dif_pos d.month_mem, dif_pos d.day_mem]

theorem ofLocal?_utc (t : Instant) : ofLocal? t.date t.second t.nanos 0 = some t := by
  have dayLong := t.second_lt
  simp only [ofLocal?, sub_zero]
  rw [dif_pos t.nanos_lt, dif_neg (by omega), dif_pos (by omega)]
  rfl

/-- A regular instant is read back. -/
theorem read?_write {t : Instant} (regular : t.Regular) : read? t.write = some t := by
  have dayLong := t.second_lt
  have short := t.nanos_lt
  have months := t.date.month_mem
  have days : t.date.day < 100 := by
    have last := t.date.day_mem.2
    have most : daysInMonth t.date.year t.date.month ≤ 31 := by
      unfold daysInMonth
      split
      · split <;> omega
      · split <;> omega
    omega
  have two (n : Nat) (small : n < 100) (rest : List Char) :
      number? 2 (digits 2 n ++ rest) = some (n, rest) := number?_digits 1 small rest
  have year (rest : List Char) :
      year? (writeYear t.date.year ++ '-' :: rest) = some (t.date.year, '-' :: rest) :=
    year?_writeYear t.date.year (Json.goesOn_cons rfl rest)
  have fraction : fraction? (writeFraction (t.nanos % 1000000000) ++ ['Z']) =
      some (t.nanos % 1000000000, ['Z']) :=
    fraction?_writeFraction (by omega) (Json.goesOn_cons rfl [])
  have offset : offset? (Text.trimStart ['Z']) = some (0, []) := rfl
  have hyphen := mark?_cons (c := '-') (by decide)
  have colon := mark?_cons (c := ':') (by decide)
  have parts : t.write = writeYear t.date.year ++ '-' :: (digits 2 t.date.month ++ '-' ::
      (digits 2 t.date.day ++ 'T' :: (digits 2 (t.second / 3600) ++ ':' ::
        (digits 2 (t.second / 60 % 60) ++ ':' ::
          (digits 2 (t.second % 60 + t.nanos / 1000000000) ++
            (writeFraction (t.nanos % 1000000000) ++ ['Z'])))))) := by
    simp only [write, List.append_assoc, List.cons_append]
  rw [parts, read?]
  -- Each reader takes its part off the text and leaves the rest to the next one.
  refine (bind_of_eq_some (year _) _).trans ?_
  refine (bind_of_eq_some (hyphen _) _).trans ?_
  refine (bind_of_eq_some (two t.date.month (by omega) _) _).trans ?_
  refine (bind_of_eq_some (hyphen _) _).trans ?_
  refine (bind_of_eq_some (two t.date.day days _) _).trans ?_
  refine (bind_of_eq_some (ofParts?_self t.date) _).trans ?_
  refine (bind_of_eq_some (two (t.second / 3600) (by omega) _) _).trans ?_
  refine (bind_of_eq_some (colon _) _).trans ?_
  refine (bind_of_eq_some (two (t.second / 60 % 60) (by omega) _) _).trans ?_
  refine (bind_of_eq_some (colon _) _).trans ?_
  refine (bind_of_eq_some (two (t.second % 60 + t.nanos / 1000000000) (by omega) _) _).trans ?_
  refine (bind_of_eq_some fraction _).trans ?_
  refine (bind_of_eq_some offset _).trans ?_
  refine (bind_of_eq_some (timeOfDay?_written regular) _).trans ?_
  exact ofLocal?_utc t

end AlertEngine.Instant
