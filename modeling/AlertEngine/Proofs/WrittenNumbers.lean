import AlertEngine.Proofs.DoubleValues
import AlertEngine.Proofs.JsonText

/-! # Numbers as they are written are read

Whole numbers are written as their digits, doubles with a point or an exponent. The reader of JSON
takes either text as one number, and tells the two kinds apart by that.

* `Json.Numeral.ofInt`, `Json.numeral?_writeInteger`: whole numbers, which keep their value.
* `Decimal.shortest_pos`: the digits of a double other than zero do not begin with a zero.
* `Json.numeral?_write`: the text of a finite double is a number that is not written as a whole one.
-/

namespace AlertEngine

/-! ## Digits -/

theorem isDigit_of_mem_toDigits {n : Nat} {c : Char} (member : c ∈ Nat.toDigits 10 n) :
    Decimal.isDigit c = true := by
  have digit := Nat.isDigit_of_mem_toDigits (by decide) (by decide) member
  simp only [Char.isDigit, Bool.and_eq_true, decide_eq_true_eq] at digit
  simp only [Decimal.isDigit, Bool.and_eq_true, decide_eq_true_eq]
  exact digit

/-- Zeros put before or behind digits are digits. -/
theorem isDigit_of_mem_zeros {count : Nat} : ∀ c ∈ List.replicate count '0',
    Decimal.isDigit c = true :=
  fun c member => by rw [List.eq_of_mem_replicate member]; rfl

theorem head?_toDigits_ne_zero {n : Nat} (positive : 0 < n) :
    (Nat.toDigits 10 n).head? ≠ some '0' := by
  induction n using Nat.strongRecOn with
  | ind n inductionHypothesis =>
    rcases Nat.lt_or_ge n 10 with small | large
    · rw [Nat.toDigits_of_lt_base small, List.head?_cons, Ne, Option.some.injEq]
      exact (by decide : ∀ n < 10, 0 < n → n.digitChar ≠ '0') n small positive
    · rw [Nat.toDigits_of_base_le (by decide) large,
        List.head?_append_of_ne_nil _ Nat.toDigits_ne_nil]
      exact inductionHypothesis (n / 10) (by omega) (by omega)

namespace Decimal

theorem stripZeros_pos {fuel c : Nat} {e : Int} (positive : 0 < c) :
    0 < (stripZeros fuel c e).1 := by
  induction fuel generalizing c e with
  | zero => exact positive
  | succ fuel inductionHypothesis =>
    rw [stripZeros]
    split
    · rename_i zero
      exact inductionHypothesis (by omega)
    · exact positive

theorem nearestRank_zero (e : Int) : nearestRank 0 e = 0 := if_pos rfl

theorem onGrid?_pos {tie : Tie} {n : Nat} (positive : 0 < n) {k : Int} {c : Nat} {e : Int}
    (found : onGrid? tie n k = some (c, e)) : 0 < c := by
  have reads {c : Nat} (back : (nearestRank c k == n) = true) : 0 < c := by
    rcases Nat.eq_zero_or_pos c with rfl | nonzero
    · rw [nearestRank_zero, beq_iff_eq] at back
      omega
    · exact nonzero
  have either (p : Prop) [Decidable p] {c : Nat} (below : 0 < c) : 0 < if p then c + 1 else c := by
    split
    · exact Nat.succ_pos c
    · exact below
  simp only [onGrid?] at found
  split at found
  · cases found
    exact either _ (reads ‹_›)
  · cases found
    exact reads ‹_›
  · cases found
    exact Nat.succ_pos _
  · cases found

theorem significand_pos {n : Nat} (positive : 0 < n) : 0 < Binary64.significand n := by
  rw [Binary64.significand]
  split
  · exact positive
  · rw [Binary64.binade]
    omega

theorem exact_pos {n : Nat} (positive : 0 < n) : 0 < (exact n).1 := by
  simp only [exact]
  split
  · exact Nat.mul_pos (significand_pos positive) (Nat.two_pow_pos _)
  · exact Nat.mul_pos (significand_pos positive) (Nat.pow_pos (by decide))

theorem shortest_pos (tie : Tie) {n : Nat} (positive : 0 < n) : 0 < (shortest tie n).1 := by
  simp only [shortest]
  apply stripZeros_pos
  cases found : (List.range 17).findSome? fun (i : Nat) =>
      onGrid? tie n (floorLog10 (ratio n).1 (ratio n).2 - i) with
  | none => exact exact_pos positive
  | some grid =>
    obtain ⟨i, -, onGrid⟩ := List.exists_of_findSome?_eq_some found
    exact onGrid?_pos positive onGrid

end Decimal

namespace Json

variable {negative : Bool} {ds s r t : List Char} {fraction : Option (List Char)}
  {exponent : Option Int}

/-! ## Parts of numbers -/

/-- Digits without a superfluous zero, with a fraction and an exponent behind them, are a number. -/
theorem magnitude?_parts (digits : ∀ c ∈ ds, Decimal.isDigit c = true) (present : ds ≠ [])
    (noZero : ds.head? = some '0' → ds.length = 1) (goesOn : GoesOn endsDigits s)
    (readFraction : fraction? s = some (fraction, t))
    (readExponent : exponent? t = some (exponent, r)) :
    magnitude? negative (ds ++ s) = some (⟨negative, ds, fraction, exponent⟩, r) := by
  have formed : (ds.isEmpty || (ds.head? == some '0' && decide (1 < ds.length))) = false := by
    rw [Bool.or_eq_false_iff, List.isEmpty_eq_false_iff, Bool.and_eq_false_imp, beq_iff_eq,
      decide_eq_false_iff_not]
    exact ⟨present, fun zero => by rw [noZero zero]; exact Nat.lt_irrefl 1⟩
  simp only [magnitude?, span_digits digits goesOn, formed, Bool.false_eq_true, if_false, bind,
    readFraction, readExponent, Option.bind_some, pure]

theorem fraction?_point (digits : ∀ c ∈ ds, Decimal.isDigit c = true) (present : ds ≠ [])
    (goesOn : GoesOn endsDigits s) : fraction? ('.' :: (ds ++ s)) = some (some ds, s) := by
  simp only [fraction?, span_digits digits goesOn, List.isEmpty_eq_false_iff.mpr present,
    Bool.false_eq_true, if_false]

theorem fraction?_none (goesOn : GoesOn endsFraction s) : fraction? s = some (none, s) := by
  unfold fraction?
  split
  · exact absurd (goesOn '.' rfl) (by decide)
  · rfl

theorem exponentDigits?_digits {mark : Char} (signed : mark = '+' ∨ mark = '-')
    (digits : ∀ c ∈ ds, Decimal.isDigit c = true) (present : ds ≠ []) :
    ∃ e, exponentDigits? (mark :: ds) = some (some e, []) := by
  have run := span_digits digits goesOn_nil
  rw [List.append_nil] at run
  have nonempty := List.isEmpty_eq_false_iff.mpr present
  rcases signed with rfl | rfl
  · refine ⟨Decimal.ofDigits ds, ?_⟩
    simp only [exponentDigits?, Decimal.cutSign, run, nonempty, Bool.false_eq_true, if_false]
  · refine ⟨-(Decimal.ofDigits ds : Int), ?_⟩
    simp only [exponentDigits?, Decimal.cutSign, run, nonempty, Bool.false_eq_true, if_false]
    rfl

/-- A text that is a number as a whole is that number whatever follows it. -/
theorem takes_of_numeral? {n : Numeral} (read : numeral? s = some (n, [])) :
    ∃ c t, (c = '-' ∨ Decimal.isDigit c = true) ∧ s = c :: t ∧ Takes endsNumber numeral? s n := by
  obtain ⟨c, t, first, joined, takes⟩ := numeral?_takes read
  rw [List.append_nil] at joined
  subst joined
  exact ⟨c, t, first, rfl, takes⟩

theorem numeral?_of_magnitude? {n : Numeral} (read : magnitude? false s = some (n, [])) :
    numeral? s = some (n, []) := by
  obtain ⟨d, part, digit, joined, -⟩ := magnitude?_takes read
  unfold numeral?
  split
  · cases joined
    exact absurd digit (by decide)
  · exact read

/-! ## Whole numbers -/

def Numeral.ofInt (i : Int) : Numeral where
  negative := i < 0
  whole := Nat.toDigits 10 i.natAbs
  fraction := none
  exponent := none

theorem magnitude?_toDigits (negative : Bool) (n : Nat) :
    magnitude? negative (Nat.toDigits 10 n) =
      some (⟨negative, Nat.toDigits 10 n, none, none⟩, []) := by
  have noZero : (Nat.toDigits 10 n).head? = some '0' → (Nat.toDigits 10 n).length = 1 := by
    intro zero
    rcases Nat.eq_zero_or_pos n with rfl | positive
    · rfl
    · exact absurd zero (head?_toDigits_ne_zero positive)
  have whole : magnitude? negative (Nat.toDigits 10 n ++ []) =
      some (⟨negative, Nat.toDigits 10 n, none, none⟩, []) :=
    magnitude?_parts (fun _ member => isDigit_of_mem_toDigits member) Nat.toDigits_ne_nil noZero
      goesOn_nil rfl rfl
  rwa [List.append_nil] at whole

theorem numeral?_writeInteger (i : Int) :
    numeral? (writeInteger i) = some (Numeral.ofInt i, []) := by
  rw [writeInteger, Numeral.ofInt]
  split
  · rename_i negative
    rw [decide_eq_true negative]
    exact magnitude?_toDigits true i.natAbs
  · rename_i positive
    rw [decide_eq_false positive]
    exact numeral?_of_magnitude? (magnitude?_toDigits false i.natAbs)

/-- A whole number is read as it was. -/
theorem Numeral.integer?_ofInt (i : Int) : (Numeral.ofInt i).integer? = some i := by
  have digits : Decimal.ofDigits (Nat.toDigits 10 i.natAbs ++ []) = i.natAbs := by
    rw [List.append_nil, Decimal.ofDigits, Nat.ofDigitChars_ten_toDigits]
  have value : (Numeral.ofInt i).value = ⟨decide (i < 0), i.natAbs, 0⟩ := by
    rw [Numeral.ofInt, Numeral.value, Decimal.ofParts]
    simp only [Option.getD_none, digits]
    rfl
  have whole : (Numeral.ofInt i).isWhole = true := rfl
  have signed : (if (i < 0 : Bool) = true then -(i.natAbs : Int) else i.natAbs) = i := by
    by_cases negative : i < 0
    · rw [if_pos (decide_eq_true negative)]
      omega
    · rw [if_neg (by rwa [decide_eq_true_eq])]
      omega
  have noMinusZero : ((i < 0 : Bool) && i.natAbs == 0) = false := by
    rw [Bool.and_eq_false_imp, decide_eq_true_eq, beq_eq_false_iff_ne]
    omega
  rw [Numeral.integer?]
  simp only [value, whole, noMinusZero, signed, Bool.not_true, Bool.or_self, Bool.false_eq_true,
    if_false]

/-! ## Doubles -/

structure LeadingDigits (ds : List Char) : Prop where
  digits : ∀ c ∈ ds, Decimal.isDigit c = true
  present : ds ≠ []
  noZero : ds.head? ≠ some '0'

theorem leadingDigits_toDigits {n : Nat} (positive : 0 < n) :
    LeadingDigits (Nat.toDigits 10 n) where
  digits _ member := isDigit_of_mem_toDigits member
  present := Nat.toDigits_ne_nil
  noZero := head?_toDigits_ne_zero positive

theorem LeadingDigits.append (leading : LeadingDigits ds) {zeros : List Char}
    (digits : ∀ c ∈ zeros, Decimal.isDigit c = true) : LeadingDigits (ds ++ zeros) where
  digits := List.forall_mem_append.mpr ⟨leading.digits, digits⟩
  present := List.append_ne_nil_of_left_ne_nil leading.present zeros
  noZero := by
    rw [List.head?_append_of_ne_nil _ leading.present]
    exact leading.noZero

theorem LeadingDigits.take (leading : LeadingDigits ds) (places : Nat) :
    LeadingDigits (ds.take (places + 1)) where
  digits _ member := leading.digits _ (List.mem_of_mem_take member)
  present := by
    rw [Ne, List.take_eq_nil_iff, not_or]
    exact ⟨Nat.succ_ne_zero places, leading.present⟩
  noZero := by
    rw [List.head?_take, if_neg (Nat.succ_ne_zero places)]
    exact leading.noZero

/-- Whether a text is a number that is not written as a whole one, whatever its sign. -/
def IsFractional (s : List Char) : Prop :=
  ∀ negative, ∃ n, magnitude? negative s = some (n, []) ∧ n.isWhole = false

/-- Digits with a fraction are a number that is not written as a whole one. -/
theorem isFractional_point {fraction : List Char} (digits : ∀ c ∈ ds, Decimal.isDigit c = true)
    (present : ds ≠ []) (noZero : ds.head? = some '0' → ds.length = 1)
    (fractionDigits : ∀ c ∈ fraction, Decimal.isDigit c = true) (fractionPresent : fraction ≠ []) :
    IsFractional (ds ++ '.' :: fraction) := by
  intro negative
  have point := fraction?_point fractionDigits fractionPresent goesOn_nil
  rw [List.append_nil] at point
  exact ⟨_, magnitude?_parts digits present noZero (goesOn_cons rfl _) point rfl, rfl⟩

theorem LeadingDigits.isFractional_point (leading : LeadingDigits ds) {fraction : List Char}
    (digits : ∀ c ∈ fraction, Decimal.isDigit c = true) (present : fraction ≠ []) :
    IsFractional (ds ++ '.' :: fraction) :=
  Json.isFractional_point leading.digits leading.present
    (fun zero => absurd zero leading.noZero) digits present

/-- The exponents of doubles are written as the reader expects them. -/
theorem exponent?_written (lead : Int) :
    ∃ c text e, (if lead < 0 then numberLayout.negativeExponentMark.toList ++
          Nat.toDigits 10 (-lead).toNat
        else numberLayout.exponentMark.toList ++ Nat.toDigits 10 lead.toNat) = c :: text ∧
      endsFraction c = true ∧ exponent? (c :: text) = some (some e, []) := by
  have digits (n : Nat) : ∀ c ∈ Nat.toDigits 10 n, Decimal.isDigit c = true :=
    fun _ member => isDigit_of_mem_toDigits member
  split
  · obtain ⟨e, read⟩ := exponentDigits?_digits (.inr rfl) (digits (-lead).toNat) Nat.toDigits_ne_nil
    exact ⟨'e', _, e, rfl, rfl, read⟩
  · obtain ⟨e, read⟩ := exponentDigits?_digits (.inl rfl) (digits lead.toNat) Nat.toDigits_ne_nil
    exact ⟨'e', _, e, rfl, rfl, read⟩

theorem LeadingDigits.isFractional_scientificText (leading : LeadingDigits ds) (lead : Int) :
    IsFractional (numberLayout.scientificText ds lead) := by
  intro negative
  obtain ⟨c, text, e, written, ends, read⟩ := exponent?_written lead
  have goesOn : GoesOn endsFraction (c :: text) := goesOn_cons ends text
  match ds, leading with
  | [], leading => exact absurd rfl leading.present
  | [d], leading =>
    simp only [Decimal.Layout.scientificText, written]
    exact ⟨_, magnitude?_parts leading.digits leading.present (fun _ => rfl) goesOn.endsDigits
      (fraction?_none goesOn) read, rfl⟩
  | d :: d' :: ds, leading =>
    have first : ∀ c ∈ [d], Decimal.isDigit c = true :=
      List.forall_mem_singleton.mpr (leading.digits d List.mem_cons_self)
    have others : ∀ c ∈ d' :: ds, Decimal.isDigit c = true :=
      fun c member => leading.digits c (List.mem_cons_of_mem d member)
    have point := fraction?_point others (List.cons_ne_nil d' ds) goesOn.endsDigits
    have number : magnitude? negative ([d] ++ '.' :: (d' :: ds ++ c :: text)) =
        some (⟨negative, [d], some (d' :: ds), some e⟩, []) :=
      magnitude?_parts first (List.cons_ne_nil d []) (fun _ => rfl) (goesOn_cons rfl _) point read
    simp only [Decimal.Layout.scientificText, written]
    exact ⟨_, number, rfl⟩

theorem LeadingDigits.isFractional_positionalText (leading : LeadingDigits ds) (lead : Int) :
    IsFractional (numberLayout.positionalText ds lead) := by
  simp only [Decimal.Layout.positionalText]
  split
  · exact Json.isFractional_point (List.forall_mem_singleton.mpr rfl) (List.cons_ne_nil '0' [])
      (fun _ => rfl) (List.forall_mem_append.mpr ⟨isDigit_of_mem_zeros, leading.digits⟩)
      (List.append_ne_nil_of_right_ne_nil _ leading.present)
  · split
    · exact (leading.append isDigit_of_mem_zeros).isFractional_point
        (List.forall_mem_singleton.mpr rfl) (List.cons_ne_nil '0' [])
    · rename_i longer
      refine (leading.take lead.toNat).isFractional_point
        (fun c member => leading.digits c (List.mem_of_mem_drop member)) ?_
      rw [Ne, List.drop_eq_nil_iff]
      exact longer

/-- The text of a finite magnitude is a number that is not written as a whole one. -/
theorem isFractional_magnitudeText (rank : Nat) :
    IsFractional (numberLayout.magnitudeText rank) := by
  simp only [Decimal.Layout.magnitudeText]
  split
  · exact isFractional_point (List.forall_mem_singleton.mpr rfl) (List.cons_ne_nil '0' [])
      (fun _ => rfl) (List.forall_mem_singleton.mpr rfl) (List.cons_ne_nil '0' [])
  · rename_i nonzero
    have leading := leadingDigits_toDigits
      (Decimal.shortest_pos numberLayout.tie (Nat.pos_of_ne_zero nonzero))
    split
    · exact leading.isFractional_positionalText _
    · exact leading.isFractional_scientificText _

theorem write_of_isFinite {x : Float} (finite : x.isFinite) :
    numberLayout.write x =
      if Binary64.isNegative x then '-' :: numberLayout.magnitudeText (Binary64.rank x)
      else numberLayout.magnitudeText (Binary64.rank x) := by
  simp only [Decimal.Layout.write, Binary64.isNaN_eq_false finite, Binary64.isInf_eq_false finite,
    Bool.false_eq_true, if_false]

/-- The text of a finite double is a number that is not written as a whole one. -/
theorem numeral?_write {x : Float} (finite : x.isFinite) :
    ∃ n, numeral? (numberLayout.write x) = some (n, []) ∧ n.isWhole = false := by
  rw [write_of_isFinite finite]
  split
  · exact isFractional_magnitudeText (Binary64.rank x) true
  · obtain ⟨n, read, fractional⟩ := isFractional_magnitudeText (Binary64.rank x) false
    exact ⟨n, numeral?_of_magnitude? read, fractional⟩

/-- A double that is not finite is written as `null`. -/
theorem write_of_not_isFinite {x : Float} (infinite : x.isFinite = false) :
    numberLayout.write x = "null".toList := by
  rw [Decimal.Layout.write]
  split
  · rfl
  · rename_i number
    rw [if_pos (Binary64.isInf_of_not_isFinite infinite number)]
    split
    · rfl
    · rfl

end Json

end AlertEngine
