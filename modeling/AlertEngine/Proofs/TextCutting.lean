import AlertEngine.Text.Basic
import Mathlib.Data.List.Forall2
import Mathlib.Data.List.TakeWhile

/-! # Cutting and trimming

What is left of a text that is made of parts, with blanks around them and marks between them, once
it is cut at the marks and trimmed.

* `Blanks`, `Padded`: blanks alone, and a part with blanks around it.
* `trim_padded`, `trim_append_cons`: blanks go at both ends, up to the next other character.
* `splitOn_intercalate`, `splitOn_of_padded`, `cutAt?_append`: parts are found again between the
  marks.
* `isInfix_iff`: a text that occurs in another one.
-/

namespace AlertEngine.Text

/-! ## Blanks -/

def Blanks (s : List Char) : Prop := ∀ c ∈ s, isBlank c = true

def Padded (part cell : List Char) : Prop :=
  ∃ before after, Blanks before ∧ Blanks after ∧ cell = before ++ (part ++ after)

variable {before after inner s t part cell : List Char} {c first last sep mark : Char}

theorem blanks_nil : Blanks [] := fun _ member => (nomatch member)

theorem blanks_of_all (all : s.all isBlank = true) : Blanks s := List.all_eq_true.mp all

theorem not_mem_of_blanks (blanks : Blanks s) (visible : isBlank c = false) : c ∉ s := fun member =>
  absurd (blanks c member) (by simp [visible])

theorem padded_self (part : List Char) : Padded part part :=
  ⟨[], [], blanks_nil, blanks_nil, (List.append_nil _).symm⟩

theorem not_mem_of_padded (padded : Padded part cell) (visible : isBlank c = false)
    (free : c ∉ part) : c ∉ cell := by
  obtain ⟨before, after, blanks, blanksAfter, rfl⟩ := padded
  simp only [List.mem_append, not_or]
  exact ⟨not_mem_of_blanks blanks visible, free, not_mem_of_blanks blanksAfter visible⟩

/-! ## Trimming -/

theorem trimEnd_of_blanks (blanks : Blanks after) : trimEnd after = [] := by
  rw [trimEnd, List.dropWhile_eq_nil_iff.mpr fun c member =>
    blanks c (List.mem_reverse.mp member), List.reverse_nil]

theorem trim_of_blanks (blanks : Blanks before) : trim before = [] := by
  have nothing : trimStart before = [] := List.dropWhile_eq_nil_iff.mpr blanks
  rw [trim, nothing]
  rfl

theorem trimStart_append_cons (visible : isBlank c = false) (s t : List Char) :
    trimStart (s ++ c :: t) = trimStart s ++ c :: t := by
  rw [trimStart, List.dropWhile_append, List.dropWhile_cons_of_neg (by simp [visible])]
  split
  · rename_i blank
    rw [trimStart, List.isEmpty_iff.mp blank, List.nil_append]
  · rfl

theorem trimEnd_append_cons (visible : isBlank c = false) (s t : List Char) :
    trimEnd (s ++ c :: t) = s ++ c :: trimEnd t := by
  have reversed := trimStart_append_cons visible t.reverse s.reverse
  simp only [trimStart] at reversed
  simp only [trimEnd, List.reverse_append, List.reverse_cons, List.append_assoc,
    List.singleton_append, reversed, List.reverse_reverse]

/-- Around a character that is no blank a text is trimmed at its two ends. -/
theorem trim_append_cons (visible : isBlank c = false) (s t : List Char) :
    trim (s ++ c :: t) = trimStart s ++ c :: trimEnd t := by
  rw [trim, trimStart_append_cons visible, trimEnd_append_cons visible]

/-- Blanks go at both ends, up to the first and the last character that is none. -/
theorem trim_enclosed (visible : isBlank first = false) (visibleLast : isBlank last = false)
    (blanks : Blanks before) (blanksAfter : Blanks after) (inner : List Char) :
    trim (before ++ (first :: inner ++ last :: after)) = first :: inner ++ [last] := by
  have nothing : trimStart before = [] := List.dropWhile_eq_nil_iff.mpr blanks
  rw [← List.append_assoc, trim_append_cons visibleLast, trimStart_append_cons visible, nothing,
    trimEnd_of_blanks blanksAfter, List.nil_append]

theorem trimEnd_append (blanks : Blanks after) (s : List Char) :
    trimEnd (s ++ after) = trimEnd s := by
  have reversed : ∀ c ∈ after.reverse, isBlank c = true := fun c member =>
    blanks c (List.mem_reverse.mp member)
  rw [trimEnd, List.reverse_append, List.dropWhile_append_of_pos reversed, trimEnd]

theorem trim_padded (blanks : Blanks before) (blanksAfter : Blanks after) (s : List Char) :
    trim (before ++ (s ++ after)) = trim s := by
  rw [trim, trimStart, List.dropWhile_append_of_pos blanks, List.dropWhile_append]
  split
  · rename_i blank
    have nothing : after.dropWhile isBlank = [] := List.dropWhile_eq_nil_iff.mpr blanksAfter
    rw [List.isEmpty_iff] at blank
    rw [nothing, trim, trimStart, blank]
  · rw [trimEnd_append blanksAfter, trim, trimStart]

theorem trim_of_padded (padded : Padded part cell) : trim cell = trim part := by
  obtain ⟨before, after, blanks, blanksAfter, rfl⟩ := padded
  exact trim_padded blanks blanksAfter part

theorem trim_of_visible (visible : ∀ c ∈ s, isBlank c = false) : trim s = s := by
  have kept (t : List Char) (visible : ∀ c ∈ t, isBlank c = false) : t.dropWhile isBlank = t := by
    cases t with
    | nil => rfl
    | cons c t => exact List.dropWhile_cons_of_neg (by simp [visible c])
  rw [trim, trimStart, kept s visible, trimEnd,
    kept s.reverse fun c member => visible c (List.mem_reverse.mp member), List.reverse_reverse]

theorem exists_trimStart (s : List Char) :
    ∃ before, Blanks before ∧ s = before ++ trimStart s :=
  ⟨s.takeWhile isBlank, fun _ member => List.mem_takeWhile_imp member,
    List.takeWhile_append_dropWhile.symm⟩

@[simp] theorem trim_trimStart (s : List Char) : trim (trimStart s) = trim s := by
  obtain ⟨before, blanks, same⟩ := exists_trimStart s
  have padded := trim_padded blanks blanks_nil (trimStart s)
  rw [List.append_nil, ← same] at padded
  exact padded.symm

theorem exists_trimEnd (s : List Char) : ∃ after, Blanks after ∧ s = trimEnd s ++ after := by
  refine ⟨(s.reverse.takeWhile isBlank).reverse, fun _ member =>
    List.mem_takeWhile_imp (List.mem_reverse.mp member), ?_⟩
  rw [trimEnd, ← List.reverse_append, List.takeWhile_append_dropWhile, List.reverse_reverse]

@[simp] theorem trim_trimEnd (s : List Char) : trim (trimEnd s) = trim s := by
  obtain ⟨after, blanks, same⟩ := exists_trimEnd s
  have padded := trim_padded blanks_nil blanks (trimEnd s)
  rw [List.nil_append, ← same] at padded
  exact padded.symm

@[simp] theorem trim_trim (s : List Char) : trim (trim s) = trim s :=
  (trim_trimEnd (trimStart s)).trans (trim_trimStart s)

theorem mem_of_mem_trimStart (member : c ∈ trimStart s) : c ∈ s :=
  List.dropWhile_subset _ member

theorem mem_of_mem_trim (member : c ∈ trim s) : c ∈ s :=
  mem_of_mem_trimStart (List.mem_reverse.mp (mem_of_mem_trimStart (List.mem_reverse.mp member)))

/-- A text is what is left of it with blanks around. -/
theorem padded_trim (s : List Char) : Padded (trim s) s := by
  obtain ⟨before, blanks, whole⟩ := exists_trimStart s
  obtain ⟨after, blanksAfter, rest⟩ := exists_trimEnd (trimStart s)
  exact ⟨before, after, blanks, blanksAfter, whole.trans (congrArg (before ++ ·) rest)⟩

theorem blanks_of_trim (nothing : trim s = []) : Blanks s := by
  obtain ⟨before, after, blanks, blanksAfter, whole⟩ := padded_trim s
  rw [nothing, List.nil_append] at whole
  rw [whole]
  exact fun c member => (List.mem_append.mp member).elim (blanks c) (blanksAfter c)

/-! ## Marks -/

theorem splitOn_eq (sep : Char) (s : List Char) : splitOn sep s = s.splitOn sep := by
  induction s with
  | nil => rfl
  | cons c s inductionHypothesis =>
    rw [List.splitOn] at inductionHypothesis
    rw [List.splitOn, List.splitOnP_cons_eq_if_modifyHead, ← inductionHypothesis, splitOn]
    simp only [beq_iff_eq]
    cases parts : splitOn sep s with
    | nil => exact absurd parts (splitOn_ne_nil sep s)
    | cons part parts => rfl

/-- What is cut has one part more than it has separators, and none of these is in a part. -/
theorem length_splitOn (sep : Char) (s : List Char) :
    (splitOn sep s).length = s.count sep + 1 := by
  induction s with
  | nil => rfl
  | cons c s inductionHypothesis =>
    rw [splitOn]
    split
    · rename_i mark
      rw [List.length_cons, inductionHypothesis, mark, List.count_cons_self]
    · rename_i other
      rw [List.count_cons_of_ne other]
      cases parts : splitOn sep s with
      | nil => exact absurd parts (splitOn_ne_nil sep s)
      | cons part parts' => rw [← inductionHypothesis, parts]; rfl

theorem not_mem_of_mem_splitOn (member : part ∈ splitOn sep s) : sep ∉ part := by
  induction s generalizing part with
  | nil =>
    rw [splitOn, List.mem_singleton] at member
    simp [member]
  | cons c s inductionHypothesis =>
    rw [splitOn] at member
    split at member
    · rw [List.mem_cons] at member
      rcases member with rfl | behind
      · exact List.not_mem_nil
      · exact inductionHypothesis behind
    · rename_i other
      cases parts : splitOn sep s with
      | nil => exact absurd parts (splitOn_ne_nil sep s)
      | cons first parts' =>
        rw [parts] at member inductionHypothesis
        rw [List.mem_cons] at member
        rcases member with rfl | behind
        · rw [List.mem_cons, not_or]
          exact ⟨Ne.symm other, inductionHypothesis List.mem_cons_self⟩
        · exact inductionHypothesis (List.mem_cons_of_mem _ behind)

/-- Parts without separators are found again between the separators. -/
theorem splitOn_intercalate {parts : List (List Char)} (free : ∀ part ∈ parts, sep ∉ part)
    (nonempty : parts ≠ []) : splitOn sep ([sep].intercalate parts) = parts := by
  rw [splitOn_eq]
  exact List.splitOn_intercalate sep free nonempty

theorem not_mem_intercalate {parts : List (List Char)} (other : c ≠ sep)
    (free : ∀ part ∈ parts, c ∉ part) : c ∉ [sep].intercalate parts := by
  induction parts with
  | nil => simp
  | cons part parts inductionHypothesis =>
    rw [List.forall_mem_cons] at free
    cases parts with
    | nil => simpa using free.1
    | cons next parts =>
      rw [List.intercalate_cons_cons]
      simp [free.1, other, inductionHypothesis free.2]

/-! ## Parts with blanks around them -/

theorem not_mem_of_forall_padded {parts cells : List (List Char)}
    (padded : List.Forall₂ Padded parts cells) (visible : isBlank c = false)
    (free : ∀ part ∈ parts, c ∉ part) : ∀ cell ∈ cells, c ∉ cell := by
  induction padded with
  | nil => simp
  | cons first _ inductionHypothesis =>
    rw [List.forall_mem_cons] at free ⊢
    exact ⟨not_mem_of_padded first visible free.1, inductionHypothesis free.2⟩

theorem map_trim_of_padded {parts cells : List (List Char)}
    (padded : List.Forall₂ Padded parts cells) (trimmed : ∀ part ∈ parts, trim part = part) :
    cells.map trim = parts := by
  induction padded with
  | nil => rfl
  | cons first _ inductionHypothesis =>
    rw [List.forall_mem_cons] at trimmed
    rw [List.map_cons, trim_of_padded first, trimmed.1, inductionHypothesis trimmed.2]

/-- Parts without separators, and without blanks at their ends, come back when a text is cut and
trimmed in which they have blanks around them. -/
theorem splitOn_of_padded {parts cells : List (List Char)}
    (padded : List.Forall₂ Padded parts cells) (visible : isBlank sep = false)
    (free : ∀ part ∈ parts, sep ∉ part) (trimmed : ∀ part ∈ parts, trim part = part)
    (nonempty : parts ≠ []) : (splitOn sep ([sep].intercalate cells)).map trim = parts := by
  have cells : cells.map trim = parts := map_trim_of_padded padded trimmed
  rw [splitOn_intercalate (not_mem_of_forall_padded padded visible free), cells]
  rintro rfl
  exact nonempty cells.symm

/-! ## The first mark and the last one -/

/-- A text is cut at its first mark. -/
theorem cutAt?_append (free : mark ∉ s) (t : List Char) :
    cutAt? mark (s ++ mark :: t) = some (s, t) := by
  induction s with
  | nil => simp [cutAt?]
  | cons c s inductionHypothesis =>
    rw [List.mem_cons, not_or] at free
    rw [List.cons_append, cutAt?, if_neg (Ne.symm free.1), inductionHypothesis free.2,
      Option.map_some]

theorem stripLast?_append (c : Char) (s : List Char) : stripLast? c (s ++ [c]) = some s := by
  simp [stripLast?, stripFirst?]

theorem eq_of_stripLast?_eq_some (stripped : stripLast? c s = some t) : s = t ++ [c] := by
  obtain ⟨rest, first, rfl⟩ := Option.map_eq_some_iff.mp stripped
  cases reversed : s.reverse with
  | nil =>
    rw [reversed] at first
    cases first
  | cons d tail =>
    rw [reversed, stripFirst?] at first
    split at first
    · rename_i last
      obtain rfl := Option.some.inj first
      rw [← List.reverse_reverse s, reversed, List.reverse_cons, last]
    · cases first

theorem stripLast?_of_not_mem (free : c ∉ s) : stripLast? c s = none := by
  rw [stripLast?, Option.map_eq_none_iff]
  cases reversed : s.reverse with
  | nil => rfl
  | cons d t =>
    have member : d ∈ s := by
      rw [← List.mem_reverse, reversed]
      exact List.mem_cons_self
    have other : d ≠ c := by
      rintro rfl
      exact free member
    rw [stripFirst?, if_neg other]

theorem isInfix_iff (needle s : List Char) : isInfix needle s = true ↔ needle <:+: s := by
  induction s with
  | nil => rw [isInfix, List.isEmpty_iff, List.infix_nil]
  | cons c s inductionHypothesis =>
    rw [isInfix, Bool.or_eq_true, inductionHypothesis, List.isPrefixOf_iff_prefix,
      List.infix_cons_iff]

end AlertEngine.Text
