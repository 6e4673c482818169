import AlertEngine.RuleText
import AlertEngine.Text.LowerCase
import AlertEngine.Proofs.WrittenNumbers

/-! # Words of rule text

A rule text consists of words: keywords, which count in any letter case, and numbers. The readers
lower the keywords with the tables of Unicode and cut the words apart by runs; here both are said
without tables and runs.

* `Text.InAnyCase`, `Text.lower_eq_iff`: a keyword of ASCII letters is the lower-case form of those
  texts alone that differ from it in the case of ASCII letters.
* `Text.Words`, `Text.runs_eq_iff`: the maximal runs of a text are its words, with separators
  between them.
* `IsInteger`, `readInteger?_eq_some_iff`: the texts of a whole number.
-/

namespace AlertEngine

namespace Text

/-! ## Letter case -/

section

variable {c d : Char} {keyword s : List Char}

def InAnyCase (keyword : String) (word : List Char) : Prop :=
  word.map Char.toLower = keyword.toList

instance (keyword : String) (word : List Char) : Decidable (InAnyCase keyword word) :=
  inferInstanceAs (Decidable (_ = _))

/-- A small ASCII letter other than `k`, which is the lower-case form of the Kelvin sign as well. -/
def IsKeywordLetter (c : Char) : Prop := 97 ≤ c.toNat ∧ c.toNat ≤ 122 ∧ c ≠ 'k'

instance (c : Char) : Decidable (IsKeywordLetter c) := inferInstanceAs (Decidable (_ ∧ _))

theorem IsKeywordLetter.ne_of_not_ascii (letter : IsKeywordLetter d) (high : 0x80 ≤ c.toNat) :
    c ≠ d := by
  rintro rfl
  have low := letter.2.1
  omega

theorem toLower_of_not_ascii (high : 0x80 ≤ c.toNat) : c.toLower = c := by
  refine dif_neg fun capital => ?_
  have low : c.toNat ≤ 90 := capital.2
  omega

/-- A letter of a keyword, be it a capital or not. -/
theorem IsKeywordLetter.range (letter : IsKeywordLetter c.toLower) :
    65 ≤ c.toNat ∧ c.toNat ≤ 122 := by
  by_cases upper : c.val ≥ 'A'.val ∧ c.val ≤ 'Z'.val
  · have low : 65 ≤ c.toNat := upper.1
    have high : c.toNat ≤ 90 := upper.2
    exact ⟨low, by omega⟩
  · have kept : c.toLower = c := dif_neg upper
    rw [kept] at letter
    exact ⟨Nat.le_trans (by decide) letter.1, letter.2.1⟩

theorem InAnyCase.letter {keyword : String} {word : List Char} (anyCase : InAnyCase keyword word)
    (letters : ∀ c ∈ keyword.toList, IsKeywordLetter c) : ∀ c ∈ word, IsKeywordLetter c.toLower := by
  intro c member
  apply letters
  rw [← anyCase]
  exact List.mem_map_of_mem member

/-- Digits and letters are no blanks. -/
theorem isBlank_of_range (range : 48 ≤ c.toNat ∧ c.toNat ≤ 122) : isBlank c = false := by
  simp only [isBlank, inRanges, blankRanges, List.any_cons, List.any_nil, Bool.or_false,
    Bool.or_eq_false_iff, Bool.and_eq_false_iff, decide_eq_false_iff_not]
  omega

theorem shifted_of_mem_lowerRanges : ∀ r ∈ lowerRanges,
    (0x80 : Int) ≤ r.1 + r.2.2.2 ∨ r = (0x212A, 0x212A, 1, -8383) := by
  decide +kernel

/-- Beyond ASCII only the Kelvin sign has an ASCII letter for its lower-case form. -/
theorem lowerChar_ne (letter : IsKeywordLetter d) (high : 0x80 ≤ c.toNat) : lowerChar c ≠ d := by
  rw [lowerChar, if_neg (Nat.not_lt.mpr high)]
  split
  · rename_i first last step shift found
    have range := List.find?_some found
    have listed := shifted_of_mem_lowerRanges _ (List.mem_of_find?_eq_some found)
    simp only [Bool.and_eq_true, decide_eq_true_eq] at range
    rcases listed with beyond | kelvin
    · have shifted : 0x80 ≤ (c.toNat + shift).toNat := by
        simp only at beyond
        omega
      unfold Char.ofNat
      split
      · exact letter.ne_of_not_ascii shifted
      · rintro rfl
        exact absurd letter (by decide)
    · obtain ⟨rfl, rfl, -, rfl⟩ : first = 0x212A ∧ last = 0x212A ∧ step = 1 ∧ shift = -8383 := by
        simpa using kelvin
      have own : c.toNat = 0x212A := Nat.le_antisymm range.1.2 range.1.1
      rw [own]
      exact letter.2.2.symm
  · exact letter.ne_of_not_ascii high

theorem lowerChar_eq_iff (letter : IsKeywordLetter d) : lowerChar c = d ↔ c.toLower = d := by
  rcases Nat.lt_or_ge c.toNat 0x80 with ascii | high
  · rw [lowerChar_of_ascii ascii]
  · rw [toLower_of_not_ascii high]
    exact iff_of_false (lowerChar_ne letter high) (letter.ne_of_not_ascii high)

theorem lowerAfter_eq_iff (letters : ∀ c ∈ keyword, IsKeywordLetter c) (before : List Char) :
    lowerAfter before s = keyword ↔ s.map Char.toLower = keyword := by
  induction s generalizing keyword before with
  | nil => rfl
  | cons c s inductionHypothesis =>
    cases keyword with
    | nil =>
      rw [lowerAfter]
      split
      · simp
      · split <;> simp
    | cons d keyword =>
      rw [List.forall_mem_cons] at letters
      rw [lowerAfter, List.map_cons, List.cons.injEq]
      -- A sigma is lowered to one beyond ASCII, and a dotted capital to a letter and a dot, which
      -- no keyword has.
      by_cases sigma : c = 'Σ'
      · subst sigma
        refine iff_of_false (fun same => ?_) fun same =>
          letters.1.ne_of_not_ascii (by decide) same.1
        simp only [if_true, List.singleton_append, List.cons.injEq] at same
        split at same
        · exact letters.1.ne_of_not_ascii (by decide) same.1
        · exact letters.1.ne_of_not_ascii (by decide) same.1
      by_cases dotted : c = 'İ'
      · subst dotted
        refine iff_of_false (fun same => ?_) fun same =>
          letters.1.ne_of_not_ascii (by decide) same.1
        rw [if_neg sigma, if_pos rfl, List.cons_append, List.cons.injEq] at same
        have dot : '\u0307' ∈ keyword := by simp [← same.2]
        exact absurd (letters.2 _ dot) (by decide)
      · rw [if_neg sigma, if_neg dotted, List.singleton_append, List.cons.injEq,
          lowerChar_eq_iff letters.1, inductionHypothesis letters.2]

/-- A keyword is the lower-case form of itself in any letter case, and of no other text. -/
theorem lower_eq_iff {keyword : String} {word : List Char}
    (letters : ∀ c ∈ keyword.toList, IsKeywordLetter c) :
    lower word = keyword.toList ↔ InAnyCase keyword word :=
  lowerAfter_eq_iff letters []

end

/-! ## Words between separators -/

section

variable {isSep : Char → Bool} {c d : Char} {gap word s : List Char} {words : List (List Char)}

/-- The words of a text, each as long as it can be: there are separators alone before it, and behind
it stands a separator or nothing. -/
inductive Words (isSep : Char → Bool) : List (List Char) → List Char → Prop
  | gap {gap : List Char} (separators : ∀ c ∈ gap, isSep c = true) : Words isSep [] gap
  | word (gap : List Char) {word rest : List Char} {words : List (List Char)}
    (separators : ∀ c ∈ gap, isSep c = true) (present : word ≠ [])
    (free : ∀ c ∈ word, isSep c = false) (ends : ∀ c, rest.head? = some c → isSep c = true)
    (more : Words isSep words rest) : Words isSep (word :: words) (gap ++ (word ++ rest))

theorem Words.separator (separates : isSep c = true) (parted : Words isSep words s) :
    Words isSep words (c :: s) := by
  cases parted with
  | gap separators => exact .gap (List.forall_mem_cons.mpr ⟨separates, separators⟩)
  | word gap separators present free ends more =>
    rw [← List.cons_append]
    exact .word _ (List.forall_mem_cons.mpr ⟨separates, separators⟩) present free ends more

theorem Words.separators (separators : ∀ c ∈ gap, isSep c = true) (parted : Words isSep words s) :
    Words isSep words (gap ++ s) := by
  induction gap with
  | nil => exact parted
  | cons c gap inductionHypothesis =>
    rw [List.forall_mem_cons] at separators
    exact (inductionHypothesis separators.2).separator separators.1

/-- A text that does not start with a separator starts with its first word. -/
theorem Words.starts (visible : isSep c = false) (parted : Words isSep words (c :: s)) :
    ∃ word rest more, words = (c :: word) :: more ∧ s = word ++ rest ∧
      (∀ d ∈ word, isSep d = false) ∧ (∀ d, rest.head? = some d → isSep d = true) ∧
      Words isSep more rest := by
  generalize whole : c :: s = text at parted
  cases parted with
  | gap separators =>
    rw [← whole, List.forall_mem_cons, visible] at separators
    exact absurd separators.1 Bool.false_ne_true
  | @word gap word rest more separators present free ends behind =>
    obtain rfl : gap = [] := by
      cases gap with
      | nil => rfl
      | cons d gap =>
        rw [List.forall_mem_cons, ← (List.cons.inj whole).1, visible] at separators
        exact absurd separators.1 Bool.false_ne_true
    cases word with
    | nil => exact absurd rfl present
    | cons d word =>
      obtain ⟨rfl, rfl⟩ := List.cons.inj whole
      exact ⟨word, rest, more, rfl, rfl, (List.forall_mem_cons.mp free).2, ends, behind⟩

theorem runs_separator (separates : isSep c = true) (s : List Char) :
    runs isSep (c :: s) = runs isSep s := by
  cases s <;> simp [runs, separates]

theorem runs_last (visible : isSep c = false) (ends : ∀ d, s.head? = some d → isSep d = true) :
    runs isSep (c :: s) = [c] :: runs isSep s := by
  cases s with
  | nil => simp [runs, visible]
  | cons d s => rw [runs, if_neg (by simp [visible]), if_pos (ends d rfl)]

theorem runs_inner (visible : isSep c = false) (follows : isSep d = false)
    (behind : runs isSep (d :: s) = word :: words) :
    runs isSep (c :: d :: s) = (c :: word) :: words := by
  rw [runs, if_neg (by simp [visible]), if_neg (by simp [follows]), behind]

theorem words_runs (isSep : Char → Bool) (s : List Char) : Words isSep (runs isSep s) s := by
  induction s with
  | nil => exact .gap nofun
  | cons c s inductionHypothesis =>
    cases separates : isSep c with
    | true =>
      rw [runs_separator separates]
      exact inductionHypothesis.separator separates
    | false =>
      by_cases ends : ∀ d, s.head? = some d → isSep d = true
      · rw [runs_last separates ends]
        exact .word [] nofun nofun (List.forall_mem_singleton.mpr separates) ends
          inductionHypothesis
      · -- The first word of the rest begins right here, and gets one character more.
        cases s with
        | nil => exact absurd nofun ends
        | cons d s =>
          have follows : isSep d = false := by simpa using ends
          obtain ⟨word, rest, more, parted, rfl, free, ends, behind⟩ :=
            inductionHypothesis.starts follows
          rw [runs_inner separates follows parted]
          exact .word [] nofun nofun
            (List.forall_mem_cons.mpr ⟨separates, List.forall_mem_cons.mpr ⟨follows, free⟩⟩)
            ends behind

theorem runs_gap (separators : ∀ c ∈ gap, isSep c = true) (s : List Char) :
    runs isSep (gap ++ s) = runs isSep s := by
  induction gap with
  | nil => rfl
  | cons c gap inductionHypothesis =>
    rw [List.forall_mem_cons] at separators
    rw [List.cons_append, runs_separator separators.1, inductionHypothesis separators.2]

theorem runs_word (present : word ≠ []) (free : ∀ c ∈ word, isSep c = false)
    (ends : ∀ c, s.head? = some c → isSep c = true) :
    runs isSep (word ++ s) = word :: runs isSep s := by
  induction word with
  | nil => exact absurd rfl present
  | cons c word inductionHypothesis =>
    rw [List.forall_mem_cons] at free
    cases word with
    | nil => exact runs_last free.1 ends
    | cons d word =>
      have follows : isSep d = false := (List.forall_mem_cons.mp free.2).1
      exact runs_inner free.1 follows (inductionHypothesis nofun free.2)

/-- The maximal runs of a text are its words. -/
theorem runs_eq_iff : runs isSep s = words ↔ Words isSep words s := by
  constructor
  · rintro rfl
    exact words_runs isSep s
  · intro parted
    induction parted with
    | gap separators =>
      have nothing := runs_gap separators []
      rwa [List.append_nil] at nothing
    | word gap separators present free ends _ inductionHypothesis =>
      rw [runs_gap separators, runs_word present free ends, inductionHypothesis]

end

end Text

/-! ## Whole numbers -/

section

variable {n : Int} {digits word : List Char}

inductive Signed (digits : List Char) : Int → List Char → Prop
  | bare : Signed digits (Decimal.ofDigits digits) digits
  | plus : Signed digits (Decimal.ofDigits digits) ('+' :: digits)
  | minus : Signed digits (-Decimal.ofDigits digits) ('-' :: digits)

structure IsInteger (n : Int) (word : List Char) : Prop where
  signed : ∃ digits, digits ≠ [] ∧ (∀ c ∈ digits, Decimal.isDigit c = true) ∧ Signed digits n word
  fits : -2 ^ 63 ≤ n ∧ n < 2 ^ 63

theorem cutSign_of_digits (decimal : ∀ c ∈ digits, Decimal.isDigit c = true) :
    Decimal.cutSign digits = (false, digits) := by
  unfold Decimal.cutSign
  split
  · exact absurd (decimal '-' List.mem_cons_self) (by decide)
  · exact absurd (decimal '+' List.mem_cons_self) (by decide)
  · rfl

theorem readExponent?_eq_some_iff : Decimal.readExponent? word = some n ↔
    ∃ digits, digits ≠ [] ∧ (∀ c ∈ digits, Decimal.isDigit c = true) ∧ Signed digits n word := by
  have malformed (digits : List Char) : (digits.isEmpty || !digits.all Decimal.isDigit) = true ↔
      ¬ (digits ≠ [] ∧ ∀ c ∈ digits, Decimal.isDigit c = true) := by
    simp [List.isEmpty_iff, Classical.or_iff_not_imp_left]
  simp only [Decimal.readExponent?, malformed]
  constructor
  · intro read
    split at read
    · cases read
    · rename_i wellFormed
      obtain ⟨present, decimal⟩ := not_not.mp wellFormed
      obtain rfl := Option.some.inj read
      refine ⟨_, present, decimal, ?_⟩
      unfold Decimal.cutSign
      split
      · exact .minus
      · exact .plus
      · exact .bare
  · rintro ⟨digits, present, decimal, signed⟩
    cases signed with
    | bare => rw [cutSign_of_digits decimal, if_neg (not_not.mpr ⟨present, decimal⟩)]; rfl
    | plus => exact if_neg (not_not.mpr ⟨present, decimal⟩)
    | minus => exact if_neg (not_not.mpr ⟨present, decimal⟩)

theorem readInteger?_eq_some_iff : readInteger? word = some n ↔ IsInteger n word := by
  have least : Int64.minValue.toInt = -2 ^ 63 := rfl
  have greatest : Int64.maxValue.toInt = 2 ^ 63 - 1 := rfl
  rw [readInteger?, least, greatest]
  constructor
  · intro read
    split at read
    · rename_i m exact
      split at read
      · rename_i range
        obtain rfl := Option.some.inj read
        exact ⟨readExponent?_eq_some_iff.mp exact, range.1, by omega⟩
      · cases read
    · cases read
  · rintro ⟨signed, low, high⟩
    rw [readExponent?_eq_some_iff.mpr signed]
    exact if_pos ⟨low, by omega⟩

/-- A whole number can be written as its digits. -/
theorem isInteger_writeInteger (fits : -2 ^ 63 ≤ n ∧ n < 2 ^ 63) :
    IsInteger n (writeInteger n) := by
  refine ⟨⟨Nat.toDigits 10 n.natAbs, Nat.toDigits_ne_nil,
    fun _ member => isDigit_of_mem_toDigits member, ?_⟩, fits⟩
  have value : Decimal.ofDigits (Nat.toDigits 10 n.natAbs) = n.natAbs :=
    Nat.ofDigitChars_ten_toDigits
  rw [writeInteger]
  split
  · have signed : Signed (Nat.toDigits 10 n.natAbs) _ _ := .minus
    rwa [value, show -(n.natAbs : Int) = n by omega] at signed
  · have signed : Signed (Nat.toDigits 10 n.natAbs) _ _ := .bare
    rwa [value, show (n.natAbs : Int) = n by omega] at signed

end

end AlertEngine
