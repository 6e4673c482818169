import AlertEngine.Composite.Basic
import AlertEngine.Proofs.DecodedNumbers
import AlertEngine.Proofs.NearestDoubles

/-!
# Thresholds as they are written are read

A threshold stands in the text of a rule with the fewest digits that identify it and without an
exponent, however many zeros this takes. The reader of rule text makes the same double of it.

* `Binary64.ofRank_rank`, `Binary64.rank_lt`: doubles as sign and rank.
* `Decimal.readsAs_positionalText`: digits around a point are read as the number that they stand
  for.
* `readFloat?_write`: the text of a threshold is read as the threshold.
* `write_injective`, `bar_not_mem_write`: thresholds have different texts, and none holds a bar.
-/

namespace AlertEngine

/-! ## Sign and rank -/

namespace Binary64

open Float.Model
open Float.Model.UnpackedFloat

variable {x : Float}

theorem ofRank_rank (x : Float) : ofRank (isNegative x) (rank x) = x := by
  have bits : (if isNegative x then signBit + rank x else rank x) = x.toBits.toNat := by
    have size : x.toBits.toNat < 2 ^ 64 := x.toBits.toNat_lt
    have sign : signBit = 2 ^ 63 := rfl
    rw [isNegative, rank, sign]
    split
    · rename_i negative
      rw [decide_eq_true_eq] at negative
      omega
    · rename_i positive
      rw [decide_eq_true_eq] at positive
      omega
  rw [ofRank, bits, UInt64.ofNat_toNat, Float.ofBits_toBits]

/-- The ranks of finite doubles lie below that of infinity. -/
theorem rank_lt (finite : x.isFinite) : rank x < infinityRank := by
  change (UnpackedFloat.unpack Format.binary64 x.toBits.toBitVec).isFinite = true at finite
  have field : x.toBits.toNat / 2 ^ 52 % 2 ^ 11 ≠ 2047 := by
    intro full
    have exponent : @unpackExponent Format.binary64 x.toBits.toBitVec = -1#11 :=
      BitVec.eq_of_toNat_eq ((toNat_unpackExponent _).trans full)
    simp only [UnpackedFloat.unpack, exponent, if_true] at finite
    split at finite
    · cases finite
    · cases finite
  change x.toBits.toNat % 2 ^ 63 < 2047 * 2 ^ 52
  omega

theorem eq_nan_of_isNaN (undefined : x.isNaN) : x = nan :=
  parts_injective ((UnpackedFloat.isNaN_iff.mp undefined).trans rfl)

theorem eq_infinity_of_isInf (infinite : x.isInf) : x = infinity ∨ x = negInfinity := by
  change (parts x).isInf at infinite
  cases shape : parts x with
  | infinity s =>
    cases s with
    | positive => exact .inl (parts_injective shape)
    | negative => exact .inr (parts_injective shape)
  | notANumber => rw [shape] at infinite; cases infinite
  | zero s => rw [shape] at infinite; cases infinite
  | finite s m e pos => rw [shape] at infinite; cases infinite

end Binary64

namespace Decimal

variable {ds whole fraction s : List Char} {n : ℕ} {e lead : ℤ} {v : ℚ}

/-! ## Digits around a point -/

def ReadsAs (s : List Char) (v : ℚ) : Prop :=
  ∀ negative, ∃ d, readMagnitude? negative s = some d ∧ d.negative = negative ∧
    (d.coefficient * 10 ^ d.exponent : ℚ) = v

theorem readsAs_whole (digits : ∀ c ∈ ds, isDigit c = true) (present : ds ≠ []) :
    ReadsAs ds (ofDigits ds) := by
  intro negative
  have run := Json.span_digits digits Json.goesOn_nil
  rw [List.append_nil] at run
  refine ⟨ofParts negative ds [] 0, ?_, rfl, ?_⟩
  · simp only [readMagnitude?, run, List.isEmpty_eq_false_iff.mpr present, Bool.false_and,
      Bool.false_eq_true, if_false]
  · simp [ofParts]

theorem readsAs_point (digits : ∀ c ∈ whole, isDigit c = true) (present : whole ≠ [])
    (digits' : ∀ c ∈ fraction, isDigit c = true) :
    ReadsAs (whole ++ '.' :: fraction)
      (ofDigits (whole ++ fraction) * 10 ^ (-fraction.length : ℤ)) := by
  intro negative
  have run := Json.span_digits digits (Json.goesOn_cons (c := '.') rfl fraction)
  have run' := Json.span_digits digits' Json.goesOn_nil
  rw [List.append_nil] at run'
  refine ⟨ofParts negative whole fraction 0, ?_, rfl, ?_⟩
  · simp only [readMagnitude?, run, run', List.isEmpty_eq_false_iff.mpr present, Bool.false_and,
      Bool.false_eq_true, if_false]
  · rw [ofParts, zero_sub]

/-- The digits of a number, set out around the point, are read as that number. -/
theorem readsAs_positionalText (digits : ∀ c ∈ ds, isDigit c = true) (present : ds ≠ [])
    (place : e + (ds.length - 1 : ℕ) = lead) :
    ReadsAs (thresholdLayout.positionalText ds lead) (ofDigits ds * 10 ^ e) := by
  have length := List.length_pos_iff.mpr present
  simp only [Layout.positionalText]
  split
  · have behind : ∀ c ∈ List.replicate (-lead - 1).toNat '0' ++ ds, isDigit c = true :=
      List.forall_mem_append.mpr ⟨isDigit_of_mem_zeros, digits⟩
    have coefficient : ofDigits (['0'] ++ (List.replicate (-lead - 1).toNat '0' ++ ds)) =
        ofDigits ds := by
      rw [List.singleton_append, ← List.cons_append, ← List.replicate_succ, ofDigits,
        Nat.ofDigitChars_append, Nat.ofDigitChars_replicate_zero, Nat.mul_zero, ofDigits]
    have exponent : (-(List.replicate (-lead - 1).toNat '0' ++ ds).length : ℤ) = e := by
      rw [List.length_append, List.length_replicate]
      omega
    have reads := readsAs_point (List.forall_mem_singleton.mpr rfl) (List.cons_ne_nil '0' []) behind
    rwa [coefficient, exponent] at reads
  split
  · obtain ⟨k, rfl⟩ : ∃ k : ℕ, e = k := ⟨e.toNat, by omega⟩
    have zeros : lead.toNat + 1 - ds.length = k := by omega
    have coefficient : ofDigits (ds ++ List.replicate k '0') = 10 ^ k * ofDigits ds := by
      rw [ofDigits, Nat.ofDigitChars_append, Nat.ofDigitChars_replicate_zero, ofDigits]
    have reads := readsAs_whole (List.forall_mem_append.mpr ⟨digits, isDigit_of_mem_zeros⟩)
      (List.append_ne_nil_of_left_ne_nil present (List.replicate k '0'))
    rw [coefficient, Nat.cast_mul, mul_comm] at reads
    rw [zeros, zpow_natCast]
    change ReadsAs (ds ++ List.replicate k '0' ++ []) _
    rw [List.append_nil]
    exact_mod_cast reads
  · have begins : ds.take (lead.toNat + 1) ≠ [] := by
      rw [Ne, List.take_eq_nil_iff, not_or]
      exact ⟨Nat.succ_ne_zero _, present⟩
    have exponent : (-(ds.drop (lead.toNat + 1)).length : ℤ) = e := by
      rw [List.length_drop]
      omega
    have reads := readsAs_point (fun c member => digits c (List.mem_of_mem_take member)) begins
      fun c (member : c ∈ ds.drop (lead.toNat + 1)) => digits c (List.mem_of_mem_drop member)
    rwa [List.take_append_drop, exponent] at reads

theorem head?_positionalText (digits : ∀ c ∈ ds, isDigit c = true) (present : ds ≠ []) (lead : ℤ) :
    ∃ d rest, thresholdLayout.positionalText ds lead = d :: rest ∧ isDigit d = true := by
  obtain ⟨d, ds, rfl⟩ := List.exists_cons_of_ne_nil present
  have first : isDigit d = true := digits d List.mem_cons_self
  simp only [Layout.positionalText]
  split
  · exact ⟨'0', _, rfl, rfl⟩
  · split
    · exact ⟨d, _, rfl, first⟩
    · exact ⟨d, _, rfl, first⟩

/-! ## The nearest double -/

/-- What is read as the value of a rank is read as the double of that rank. -/
theorem toFloat_of_readsAs {c : ℕ} (reads : ReadsAs s (c * 10 ^ e)) (negative : Bool) :
    (readMagnitude? negative s).map toFloat =
      some (Binary64.ofRank negative (nearestRank c e)) := by
  obtain ⟨d, read, rfl, value⟩ := reads negative
  rw [read, Option.map_some, toFloat, nearestRank_congr value]

/-- The text of a finite magnitude begins with a digit and is read as the magnitude. -/
theorem magnitudeText_read (finite : n < Binary64.infinityRank) :
    ∃ d rest, thresholdLayout.magnitudeText n = d :: rest ∧ isDigit d = true ∧
      ∀ negative, (readMagnitude? negative (d :: rest)).map toFloat =
        some (Binary64.ofRank negative n) := by
  rw [Layout.magnitudeText]
  split
  · rename_i zero
    subst zero
    exact ⟨'0', [], rfl, rfl, fun negative => rfl⟩
  · rename_i nonzero
    have positive := Nat.pos_of_ne_zero nonzero
    have nearest := nearestRank_shortest thresholdLayout.tie positive finite
    generalize shortest thresholdLayout.tie n = p at nearest ⊢
    obtain ⟨c, e⟩ := p
    have digits : ∀ d ∈ Nat.toDigits 10 c, isDigit d = true :=
      fun _ member => isDigit_of_mem_toDigits member
    have value : ofDigits (Nat.toDigits 10 c) = c := Nat.ofDigitChars_ten_toDigits
    have reads := readsAs_positionalText (e := e) digits Nat.toDigits_ne_nil rfl
    rw [value] at reads
    obtain ⟨d, rest, text, digit⟩ := head?_positionalText digits Nat.toDigits_ne_nil
      (e + ((Nat.toDigits 10 c).length - 1 : ℕ))
    refine ⟨d, rest, text, digit, fun negative => ?_⟩
    rw [← text, toFloat_of_readsAs reads, nearest]

/-! ## Thresholds -/

theorem toLower_of_digit {d : Char} (digit : isDigit d = true) : d.toLower = d := by
  refine dif_neg fun capital => ?_
  simp only [isDigit, Bool.and_eq_true, decide_eq_true_eq] at digit
  exact absurd (UInt32.le_trans capital.1 digit.2) (by decide)

/-- A text that begins with a digit is no word. -/
theorem readFloat?_of_digit {d : Char} (digit : isDigit d = true) {text : List Char}
    {negative : Bool} (cut : cutSign text = (negative, d :: s)) :
    readFloat? text = (readMagnitude? negative (d :: s)).map toFloat := by
  have noWord {word : String} {c : Char} (first : word.toList.head? = some c)
      (letter : isDigit c = false) : (d :: s).map Char.toLower ≠ word.toList := by
    intro same
    rw [← same, List.map_cons, List.head?_cons, toLower_of_digit digit, Option.some.injEq] at first
    rw [first, letter] at digit
    cases digit
  simp only [readFloat?, cut]
  rw [if_neg (not_or.mpr ⟨noWord rfl rfl, noWord rfl rfl⟩), if_neg (noWord rfl rfl)]

end Decimal

open Decimal

/-- A threshold is read as it was; of NaN there is one alone. -/
theorem readFloat?_write (x : Float) : readFloat? (thresholdLayout.write x) = some x := by
  cases finite : x.isFinite with
  | false =>
    by_cases undefined : x.isNaN
    · obtain rfl := Binary64.eq_nan_of_isNaN undefined
      decide +kernel
    · rcases Binary64.eq_infinity_of_isInf (Binary64.isInf_of_not_isFinite finite undefined) with
        rfl | rfl
      · decide +kernel
      · decide +kernel
  | true =>
    obtain ⟨d, rest, text, digit, read⟩ := magnitudeText_read (Binary64.rank_lt finite)
    rw [Layout.write, Binary64.isNaN_eq_false finite, Binary64.isInf_eq_false finite]
    simp only [Bool.false_eq_true, if_false, text]
    cases negative : Binary64.isNegative x with
    | false =>
      have unsigned := Json.cutSign_of_digit digit rest
      rw [if_neg Bool.false_ne_true, readFloat?_of_digit digit unsigned, read, ← negative,
        Binary64.ofRank_rank]
    | true =>
      rw [if_pos rfl, readFloat?_of_digit digit rfl, read, ← negative, Binary64.ofRank_rank]

theorem write_injective {x y : Float} (same : thresholdLayout.write x = thresholdLayout.write y) :
    x = y := by
  have read := readFloat?_write x
  rw [same, readFloat?_write, Option.some.injEq] at read
  exact read.symm

/-! ## Bars -/

theorem isDigit_or_point_of_mem {ds : List Char} (digits : ∀ c ∈ ds, isDigit c = true) (lead : ℤ) :
    ∀ c ∈ thresholdLayout.positionalText ds lead, isDigit c = true ∨ c = '.' := by
  have among {cs : List Char} (all : ∀ c ∈ cs, isDigit c = true) :
      ∀ c ∈ cs, isDigit c = true ∨ c = '.' := fun c member => .inl (all c member)
  simp only [Layout.positionalText]
  split
  · exact List.forall_mem_cons.mpr ⟨.inl rfl, List.forall_mem_cons.mpr ⟨.inr rfl,
      List.forall_mem_append.mpr ⟨among isDigit_of_mem_zeros, among digits⟩⟩⟩
  · split
    · exact List.forall_mem_append.mpr
        ⟨List.forall_mem_append.mpr ⟨among digits, among isDigit_of_mem_zeros⟩,
          List.forall_mem_nil _⟩
    · exact List.forall_mem_append.mpr
        ⟨among fun c member => digits c (List.mem_of_mem_take member), List.forall_mem_cons.mpr
          ⟨.inr rfl, among fun c member => digits c (List.mem_of_mem_drop member)⟩⟩

/-- No bar stands in the text of a threshold. -/
theorem bar_not_mem_write (x : Float) : '|' ∉ thresholdLayout.write x := by
  have magnitude : '|' ∉ thresholdLayout.magnitudeText (Binary64.rank x) := by
    rw [Layout.magnitudeText]
    split
    · decide
    · intro member
      have letter := isDigit_or_point_of_mem (fun _ member => isDigit_of_mem_toDigits member) _ _
        member
      rcases letter with digit | point
      · exact absurd digit (by decide)
      · exact absurd point (by decide)
  rw [Layout.write]
  split
  · decide
  split
  · split
    · decide
    · decide
  · simp only
    split
    · exact List.not_mem_cons_of_ne_of_not_mem (by decide) magnitude
    · exact magnitude

end AlertEngine
