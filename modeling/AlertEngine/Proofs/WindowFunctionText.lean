import AlertEngine.Proofs.MonitorHistory
import AlertEngine.Proofs.RuleWords
import AlertEngine.Proofs.TextCutting

/-! # Texts of window functions

The text of a window function is read word by word: the name of a calculation in any letter case,
the size of the window and, for one calculation alone, a further number. Nothing else is read, so a
rule never runs with a window that it cannot fill or without the number that it asks for.

* `Calculation.ofName_lower_iff`: the names of calculations, in any letter case;
  `Calculation.differences`: the eight that look at differences.
* `WindowFunction.Denotes`: the words of a window function; `WindowFunction.parse_eq_ok_iff`: these
  are the words that are read.
* `WindowFunction.Configurable`, `WindowFunction.IsWritten`: window functions that can be configured,
  and their texts in the usual form, `WindowFunction.text` being one of them.
* `WindowFunction.parse_eq_ok_iff_denotes`: which texts are read, as what, and how many samples a
  rule with such a text keeps.
-/

namespace AlertEngine

open Text (Blanks InAnyCase Padded Words)

variable {word cell rest : List Char} {words : List (List Char)} {n : Int}

theorem integer_eq_ok_iff : RuleText.integer word = .ok n ↔ IsInteger n word := by
  rw [RuleText.integer, ← readInteger?_eq_some_iff]
  cases readInteger? word <;> simp

/-! ## Names of calculations -/

namespace Calculation

variable {c : Calculation}

theorem isKeywordLetter_name (c : Calculation) :
    ∀ d ∈ c.name.toList, Text.IsKeywordLetter d := by
  cases c <;> simp [name] <;> decide

theorem ofName_eq_ok_iff {text : String} : ofName text = .ok c ↔ c.name = text := by
  constructor
  · intro read
    rw [ofName] at read
    split at read
    · rename_i found
      cases read
      have same := List.find?_some found
      exact beq_iff_eq.mp same
    · cases read
  · rintro rfl
    cases c <;> rfl

/-- A calculation is found by its name in any letter case. -/
theorem ofName_lower_iff : ofName (String.ofList (Text.lower word)) = .ok c ↔
    InAnyCase c.name word := by
  rw [ofName_eq_ok_iff, ← Text.lower_eq_iff c.isKeywordLetter_name, ← String.toList_inj,
    String.toList_ofList, eq_comm]

def differences : List Calculation :=
  [diff, diffAvg, adiff, adiffAvg, rdiff, rdiffAvg, pdiff, pdiffAvg]

theorem isDifference_iff : c.isDifference = true ↔ c ∈ differences := by
  cases c <;> decide

end Calculation

namespace WindowFunction

variable {f : WindowFunction} {size : Nat}

/-! ## Words that are read -/

theorem checkedSize_eq_ok_iff : checkedSize word = .ok size ↔
    IsInteger size word ∧ 1 ≤ size ∧ size ≤ 100000 := by
  have largest : maxSize = 100000 := rfl
  simp only [checkedSize, bind_eq_ok_iff, integer_eq_ok_iff]
  constructor
  · rintro ⟨n, isInteger, bounded⟩
    split at bounded
    · cases bounded
      rw [Int.toNat_of_nonneg (by omega)]
      exact ⟨isInteger, by omega, by omega⟩
    · cases bounded
  · rintro ⟨isInteger, positive, bounded⟩
    exact ⟨size, isInteger, if_pos (by omega)⟩

/-- The words of a window function: a name, a size, and one further number if the calculation asks
for one. -/
inductive Denotes : List (List Char) → WindowFunction → Prop
  | plain {c : Calculation} {name size : List Char} {n : Nat} (named : InAnyCase c.name name)
    (other : c ≠ .atLeast) (sized : IsInteger n size) (range : 1 ≤ n ∧ n ≤ 100000) :
    Denotes [name, size] ⟨c, n, none⟩
  | atLeast {name size need : List Char} {n : Nat} {k : Int}
    (named : InAnyCase Calculation.atLeast.name name) (sized : IsInteger n size)
    (range : 1 ≤ n ∧ n ≤ 100000) (asked : IsInteger k need) :
    Denotes [name, size, need] ⟨.atLeast, n, some k⟩

theorem parse_of_denotes {text : String} (parted : Text.runs isSeparator text.toList = words)
    (denotes : Denotes words f) : parse text = .ok f := by
  rw [parse, parted]
  cases denotes with
  | plain named other sized range =>
    exact bind_eq_ok_iff.mpr ⟨_, Calculation.ofName_lower_iff.mpr named,
      bind_eq_ok_iff.mpr ⟨_, checkedSize_eq_ok_iff.mpr ⟨sized, range⟩, if_neg other⟩⟩
  | atLeast named sized range asked =>
    refine bind_eq_ok_iff.mpr ⟨_, Calculation.ofName_lower_iff.mpr named,
      bind_eq_ok_iff.mpr ⟨_, checkedSize_eq_ok_iff.mpr ⟨sized, range⟩, ?_⟩⟩
    rw [if_pos rfl]
    exact bind_eq_ok_iff.mpr ⟨_, integer_eq_ok_iff.mpr asked, rfl⟩

theorem denotes_of_parse {text : String} (read : parse text = .ok f) :
    Denotes (Text.runs isSeparator text.toList) f := by
  rw [parse] at read
  split at read
  · cases read
  · rename_i name arguments parted
    obtain ⟨c, named, read⟩ := bind_eq_ok_iff.mp read
    rw [Calculation.ofName_lower_iff] at named
    -- One further word, two of them, and any other number; only the first two can be read.
    split at read
    · obtain ⟨size, sized, read⟩ := bind_eq_ok_iff.mp read
      obtain ⟨isInteger, range⟩ := checkedSize_eq_ok_iff.mp sized
      split at read
      · cases read
      · rename_i other
        cases read
        rw [parted]
        exact .plain named other isInteger range
    · obtain ⟨size, sized, read⟩ := bind_eq_ok_iff.mp read
      obtain ⟨isInteger, range⟩ := checkedSize_eq_ok_iff.mp sized
      split at read
      · rename_i isAtLeast
        obtain ⟨need, asked, read⟩ := bind_eq_ok_iff.mp read
        cases pure_eq_ok_iff.mp read
        rw [parted, isAtLeast]
        exact .atLeast (isAtLeast ▸ named) isInteger range (integer_eq_ok_iff.mp asked)
      · cases read
    · cases read

theorem parse_eq_ok_iff {text : String} : parse text = .ok f ↔
    ∃ words, Words isSeparator words text.toList ∧ Denotes words f :=
  ⟨fun read => ⟨_, Text.words_runs _ _, denotes_of_parse read⟩,
    fun ⟨_, parted, denotes⟩ => parse_of_denotes (Text.runs_eq_iff.mpr parted) denotes⟩

/-! ## Words in a text -/

def IsWord (word : List Char) : Prop := word ≠ [] ∧ ∀ c ∈ word, isSeparator c = false

theorem isSeparator_of_range {c : Char} (range : 48 ≤ c.toNat ∧ c.toNat ≤ 122) :
    isSeparator c = false := by
  rw [isSeparator, Text.isBlank_of_range range, Bool.or_false]
  by_contra mark
  simp only [Bool.not_eq_false, Bool.or_eq_true, decide_eq_true_eq] at mark
  rcases mark with ((rfl | rfl) | rfl) | rfl <;> exact absurd range (by decide)

theorem isSeparator_of_isDigit {c : Char} (digit : Decimal.isDigit c = true) :
    isSeparator c = false := by
  simp only [Decimal.isDigit, Bool.and_eq_true, decide_eq_true_eq, Char.le_def,
    UInt32.le_iff_toNat_le] at digit
  exact isSeparator_of_range ⟨digit.1, Nat.le_trans digit.2 (by decide)⟩

theorem isWord_of_inAnyCase {c : Calculation} (named : InAnyCase c.name word) : IsWord word := by
  constructor
  · rintro rfl
    cases c <;> revert named <;> decide
  · intro d member
    have range := (named.letter c.isKeywordLetter_name d member).range
    exact isSeparator_of_range ⟨by omega, range.2⟩

theorem isWord_of_isInteger (isInteger : IsInteger n word) : IsWord word := by
  obtain ⟨digits, present, decimal, signed⟩ := isInteger.signed
  have free : ∀ c ∈ digits, isSeparator c = false := fun c member =>
    isSeparator_of_isDigit (decimal c member)
  cases signed with
  | bare => exact ⟨present, free⟩
  | plus => exact ⟨List.cons_ne_nil _ _, List.forall_mem_cons.mpr ⟨by decide, free⟩⟩
  | minus => exact ⟨List.cons_ne_nil _ _, List.forall_mem_cons.mpr ⟨by decide, free⟩⟩

theorem isSeparator_of_blanks {gap : List Char} (blanks : Blanks gap) :
    ∀ c ∈ gap, isSeparator c = true := fun c member => by simp [isSeparator, blanks c member]

/-- A word with blanks around it and a mark behind it is the first of the words. -/
theorem words_cell {mark : Char} (separates : isSeparator mark = true) (isWord : IsWord word)
    (padded : Padded word cell) (more : Words isSeparator words rest) :
    Words isSeparator (word :: words) (cell ++ mark :: rest) := by
  obtain ⟨before, after, blanks, blanksAfter, rfl⟩ := padded
  have ends : ∀ c, (after ++ mark :: rest).head? = some c → isSeparator c = true := by
    cases after with
    | nil =>
      rintro c ⟨⟩
      exact separates
    | cons d after =>
      rintro c ⟨⟩
      exact isSeparator_of_blanks blanksAfter _ List.mem_cons_self
  have behind : Words isSeparator words (after ++ mark :: rest) :=
    (more.separator separates).separators (isSeparator_of_blanks blanksAfter)
  rw [List.append_assoc, List.append_assoc]
  exact .word before (isSeparator_of_blanks blanks) isWord.1 isWord.2 ends behind

/-! ## Texts in the usual form -/

structure Configurable (f : WindowFunction) : Prop where
  size : 1 ≤ f.size ∧ f.size ≤ 100000
  argument : f.need.isSome ↔ f.calculation = .atLeast
  fits : ∀ k ∈ f.need, -2 ^ 63 ≤ k ∧ k < 2 ^ 63

/-- The texts of a window function in the usual form: the name in any letter case, and in brackets
behind it the number sign, the size and, after a comma, the further number if there is one. There
may be blanks around each of these. -/
inductive IsWritten : WindowFunction → List Char → Prop
  | plain {c : Calculation} {n : Nat} {name head gap size cell after : List Char}
    (named : InAnyCase c.name name) (padded : Padded name head) (blanks : Blanks gap)
    (sized : IsInteger n size) (paddedSize : Padded size cell) (ends : Blanks after) :
    IsWritten ⟨c, n, none⟩ (head ++ '(' :: (gap ++ '#' :: (cell ++ ')' :: after)))
  | asking {c : Calculation} {n : Nat} {k : Int}
    {name head gap size cell need cellNeed after : List Char}
    (named : InAnyCase c.name name) (padded : Padded name head) (blanks : Blanks gap)
    (sized : IsInteger n size) (paddedSize : Padded size cell) (asked : IsInteger k need)
    (paddedNeed : Padded need cellNeed) (ends : Blanks after) :
    IsWritten ⟨c, n, some k⟩
      (head ++ '(' :: (gap ++ '#' :: (cell ++ ',' :: (cellNeed ++ ')' :: after))))

def text (f : WindowFunction) : String :=
  String.ofList (f.calculation.name.toList ++ '(' :: '#' :: (writeInteger f.size ++
    match f.need with
    | none => [')']
    | some k => ',' :: (writeInteger k ++ [')'])))

theorem isWritten_text (configurable : f.Configurable) : f.IsWritten f.text.toList := by
  obtain ⟨c, size, need⟩ := f
  have named : InAnyCase c.name c.name.toList := by cases c <;> decide
  have sized : IsInteger size (writeInteger size) :=
    isInteger_writeInteger (by have bounded := configurable.size.2; simp only at bounded; omega)
  rw [text, String.toList_ofList]
  cases need with
  | none =>
    exact .plain named (Text.padded_self _) Text.blanks_nil sized (Text.padded_self _)
      Text.blanks_nil
  | some k =>
    have asked : IsInteger k (writeInteger k) := isInteger_writeInteger (configurable.fits k rfl)
    exact .asking named (Text.padded_self _) Text.blanks_nil sized (Text.padded_self _) asked
      (Text.padded_self _) Text.blanks_nil

/-- The name of a calculation, an opening bracket and the number sign before further words. -/
theorem words_call {c : Calculation} {head gap : List Char} (named : InAnyCase c.name word)
    (padded : Padded word head) (blanks : Blanks gap) (more : Words isSeparator words rest) :
    Words isSeparator (word :: words) (head ++ '(' :: (gap ++ '#' :: rest)) :=
  words_cell (by decide) (isWord_of_inAnyCase named) padded
    ((more.separator (by decide)).separators (isSeparator_of_blanks blanks))

/-- The words of a text in the usual form are those of the window function. -/
theorem words_of_isWritten {s : List Char} (configurable : f.Configurable)
    (written : f.IsWritten s) : ∃ words, Words isSeparator words s ∧ Denotes words f := by
  have nothing {after : List Char} (ends : Blanks after) : Words isSeparator [] after :=
    .gap (isSeparator_of_blanks ends)
  cases written with
  | plain named padded blanks sized paddedSize ends =>
    have other := fun isAtLeast => Bool.false_ne_true (configurable.argument.mpr isAtLeast)
    exact ⟨_, words_call named padded blanks
        (words_cell (by decide) (isWord_of_isInteger sized) paddedSize (nothing ends)),
      .plain named other sized configurable.size⟩
  | asking named padded blanks sized paddedSize asked paddedNeed ends =>
    obtain rfl := configurable.argument.mp rfl
    exact ⟨_, words_call named padded blanks
        (words_cell (by decide) (isWord_of_isInteger sized) paddedSize
          (words_cell (by decide) (isWord_of_isInteger asked) paddedNeed (nothing ends))),
      .atLeast named sized configurable.size asked⟩

/-! ## Samples -/

/-- A window holds the configured number of samples, and one more for differences. -/
theorem samples_eq (bounded : f.size ≤ 100000) :
    f.samples = if f.calculation ∈ Calculation.differences then f.size + 1 else f.size := by
  have most : Calculation.maxSamples = 18446744073709551615 := rfl
  have fits : min (f.size + 1) Calculation.maxSamples = f.size + 1 := by omega
  simp only [samples, Calculation.samplesFor, fits, Calculation.isDifference_iff]

/-- A text is read as a window function exactly if its words are those of the function: they are the
name of a calculation, a size from 1 to 100000 and, if and only if the calculation asks for it, a
further number. Every window function that can be configured has a text in the usual form, and is
what its texts in that form are read as. A rule with such a text keeps as many samples as the size
says, and one more for differences. -/
theorem parse_eq_ok_iff_denotes :
    (∀ text f, parse text = .ok f ↔
      ∃ words, Words isSeparator words text.toList ∧ Denotes words f) ∧
    (∀ f, f.Configurable → f.IsWritten f.text.toList ∧
      ∀ text : String, f.IsWritten text.toList → parse text = .ok f) ∧
    ∀ (s : Strategy) transform f comparison filters,
      Transform.parse s.fieldTransform = .ok transform → parse s.func = .ok f →
      Comparison.ofText s.op = .ok comparison → TagFilter.parse s.tags = .ok filters →
      ∃ rule, Rule.compile s = .ok rule ∧ rule.function = f ∧
        rule.limit = if f.calculation ∈ Calculation.differences then f.size + 1 else f.size := by
  refine ⟨fun _ _ => parse_eq_ok_iff, fun f configurable => ⟨isWritten_text configurable,
    fun text written => parse_eq_ok_iff.mpr (words_of_isWritten configurable written)⟩, ?_⟩
  intro s transform f comparison filters readsTransform readsFunction readsComparison readsFilters
  refine ⟨⟨transform, f, comparison, s.rightValue, filters⟩, ?_, rfl,
    samples_eq (size_of_parse readsFunction).2⟩
  rw [Rule.compile, readsTransform, readsFunction, readsComparison, readsFilters]
  rfl

/-- Capitals, blanks and a sign are read, and so is the least number of 64 bits. A further number is
refused where no calculation asks for it. A rule on five differences keeps six samples. -/
theorem least_count_read :
    parse " Have ( # +5\t, -9223372036854775808 ) " = .ok ⟨.atLeast, 5, some (-2 ^ 63)⟩ ∧
      (¬ ∃ f, parse "sum(#5,-1)" = .ok f) ∧
      ∃ rule, Rule.compile
        { id := 1, metric := "load", func := "diff(#5)", op := ">", rightValue := 1 } = .ok rule ∧
        rule.limit = 6 := by
  obtain ⟨whichTexts, ownTexts, samples⟩ := parse_eq_ok_iff_denotes
  refine ⟨?_, ?_, ?_⟩
  · refine (ownTexts ⟨.atLeast, 5, some (-2 ^ 63)⟩ ⟨by decide, by decide, by decide⟩).2 _ ?_
    have sized : IsInteger (5 : Nat) "+5".toList := readInteger?_eq_some_iff.mp (by decide)
    have asked : IsInteger (-2 ^ 63) "-9223372036854775808".toList :=
      readInteger?_eq_some_iff.mp (by decide)
    have named : InAnyCase Calculation.atLeast.name "Have".toList := by decide
    have blank : Blanks [' '] := Text.blanks_of_all rfl
    have tab : Blanks ['\t'] := Text.blanks_of_all rfl
    exact .asking named ⟨_, _, blank, blank, rfl⟩ blank sized ⟨_, _, blank, tab, rfl⟩ asked
      ⟨_, _, blank, blank, rfl⟩ blank
  · rintro ⟨f, read⟩
    obtain ⟨words, parted, denotes⟩ := (whichTexts _ _).mp read
    obtain rfl : ["sum".toList, "5".toList, "-1".toList] = words :=
      .trans (by decide) (Text.runs_eq_iff.mpr parted)
    cases denotes with
    | atLeast named => exact absurd named (by decide)
  · obtain ⟨rule, compiled, -, limit⟩ := samples
      { id := 1, metric := "load", func := "diff(#5)", op := ">", rightValue := 1 }
      (.select "value") ⟨.diff, 5, none⟩ .greater [] (by decide) (by decide) (by decide) (by decide)
    exact ⟨rule, compiled, limit⟩

end WindowFunction

end AlertEngine
