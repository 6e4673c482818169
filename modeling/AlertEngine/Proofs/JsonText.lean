import AlertEngine.Json.Reader
import Mathlib.Data.List.TakeDrop
import Mathlib.Data.List.TakeWhile

/-! # What the reader of JSON takes off a text

A reader takes a part off a text and gives what is left. Which part it takes does not depend on what
is left: it takes the same part off every text that begins with it, as long as what follows cannot
go on a number.

* `GoesOn`, `Takes`: what may follow, and readers that take a part whatever follows.
* `numeral?_takes`, `quoted?_takes`: numbers and texts are taken in this sense.
* `Reads`, `reads_of_fuel`: so are values, which need no more fuel than their part is long.
* `Listed`, `ofText?_bracket_iff`: a text in brackets is a list just when its inside is a list of
  texts, each of which is a value by itself.
-/

namespace AlertEngine.Json

variable {α β : Type} {admitted : Char → Bool} {s part rest : List Char}

/-! ## Taking a part off a text -/

/-- Whether a text is empty or goes on with one of some characters. -/
def GoesOn (admitted : Char → Bool) (s : List Char) : Prop :=
  ∀ c, s.head? = some c → admitted c = true

/-- Whether a reader takes a part off every text that goes on behind it with one of some
characters. -/
def Takes (admitted : Char → Bool) (reader : List Char → Option (α × List Char))
    (part : List Char) (a : α) : Prop :=
  ∀ rest, GoesOn admitted rest → reader (part ++ rest) = some (a, rest)

theorem goesOn_nil : GoesOn admitted [] := by
  intro c first
  cases first

theorem goesOn_cons {c : Char} (admits : admitted c = true) (s : List Char) :
    GoesOn admitted (c :: s) := by
  intro d first
  cases first
  exact admits

theorem GoesOn.imp {other : Char → Bool} (goesOn : GoesOn admitted s)
    (weaker : ∀ c, admitted c = true → other c = true) : GoesOn other s :=
  fun c first => weaker c (goesOn c first)

theorem GoesOn.append (goesOn : GoesOn admitted rest) (all : ∀ c ∈ part, admitted c = true) :
    GoesOn admitted (part ++ rest) := by
  cases part with
  | nil => exact goesOn
  | cons c part => exact goesOn_cons (all c List.mem_cons_self) _

/-! ## Numbers -/

def endsDigits (c : Char) : Bool := !Decimal.isDigit c

def endsFraction (c : Char) : Bool := endsDigits c && c != '.'

def endsNumber (c : Char) : Bool := endsFraction c && c != 'e' && c != 'E'

theorem GoesOn.endsDigits (goesOn : GoesOn endsFraction s) : GoesOn endsDigits s :=
  goesOn.imp fun _ ends => (Bool.and_eq_true_iff.mp ends).1

theorem GoesOn.endsFraction (goesOn : GoesOn endsNumber s) : GoesOn endsFraction s :=
  goesOn.imp fun _ ends => (Bool.and_eq_true_iff.mp (Bool.and_eq_true_iff.mp ends).1).1

/-- Digits are one run up to a character that ends them. -/
theorem span_digits {ds : List Char} (digits : ∀ c ∈ ds, Decimal.isDigit c = true)
    (goesOn : GoesOn endsDigits rest) : (ds ++ rest).span Decimal.isDigit = (ds, rest) := by
  have taken : rest.takeWhile Decimal.isDigit = [] := by
    cases rest with
    | nil => rfl
    | cons c rest =>
      have stops := goesOn c rfl
      rw [endsDigits, Bool.not_eq_true'] at stops
      simp [stops]
  have left := List.takeWhile_append_dropWhile (p := Decimal.isDigit) (l := rest)
  rw [taken, List.nil_append] at left
  rw [List.span_eq_takeWhile_dropWhile, List.takeWhile_append_of_pos digits,
    List.dropWhile_append_of_pos digits, taken, List.append_nil, left]

theorem span_takes (s : List Char) :
    ∃ ds r, s.span Decimal.isDigit = (ds, r) ∧ s = ds ++ r ∧
      (∀ c ∈ ds, Decimal.isDigit c = true) ∧
      ∀ rest, GoesOn endsDigits rest → (ds ++ rest).span Decimal.isDigit = (ds, rest) := by
  have digits : ∀ c ∈ s.takeWhile Decimal.isDigit, Decimal.isDigit c = true :=
    fun c member => List.mem_takeWhile_imp member
  exact ⟨s.takeWhile Decimal.isDigit, s.dropWhile Decimal.isDigit,
    List.span_eq_takeWhile_dropWhile _ s, List.takeWhile_append_dropWhile.symm, digits,
    fun _ goesOn => span_digits digits goesOn⟩

theorem fraction?_takes {fraction : Option (List Char)} {r : List Char}
    (read : fraction? s = some (fraction, r)) :
    ∃ part, s = part ++ r ∧ ∀ rest, GoesOn endsFraction rest →
      GoesOn endsDigits (part ++ rest) ∧ fraction? (part ++ rest) = some (fraction, rest) := by
  unfold fraction? at read
  split at read
  · rename_i after
    obtain ⟨ds, left, span, joined, _, takes⟩ := span_takes after
    simp only [span] at read
    split at read
    · cases read
    · rename_i digits
      cases read
      refine ⟨'.' :: ds, by rw [joined]; rfl, fun rest goesOn => ⟨goesOn_cons rfl _, ?_⟩⟩
      simp only [List.cons_append, fraction?, takes rest goesOn.endsDigits, digits,
        Bool.false_eq_true, if_false]
  · cases read
    refine ⟨[], rfl, fun rest goesOn => ⟨goesOn.endsDigits, ?_⟩⟩
    rw [List.nil_append]
    unfold fraction?
    split
    · exact absurd (goesOn '.' rfl) (by decide)
    · rfl

theorem cutSign_of_digit {c : Char} (digit : Decimal.isDigit c = true) (s : List Char) :
    Decimal.cutSign (c :: s) = (false, c :: s) := by
  unfold Decimal.cutSign
  split
  · rename_i same
    cases same
    exact absurd digit (by decide)
  · rename_i same
    cases same
    exact absurd digit (by decide)
  · rfl

theorem cutSign_takes (s : List Char) :
    ∃ sign negative r, Decimal.cutSign s = (negative, r) ∧ s = sign ++ r ∧
      ∀ c rest, Decimal.isDigit c = true →
        Decimal.cutSign (sign ++ c :: rest) = (negative, c :: rest) := by
  unfold Decimal.cutSign
  split
  · exact ⟨['-'], true, _, rfl, rfl, fun _ _ _ => rfl⟩
  · exact ⟨['+'], false, _, rfl, rfl, fun _ _ _ => rfl⟩
  · exact ⟨[], false, _, rfl, rfl, fun c rest digit => cutSign_of_digit digit rest⟩

theorem exponentDigits?_takes {exponent : Option Int} {r : List Char}
    (read : exponentDigits? s = some (exponent, r)) :
    ∃ part, s = part ++ r ∧ Takes endsDigits exponentDigits? part exponent := by
  obtain ⟨sign, negative, after, cut, joined, again⟩ := cutSign_takes s
  obtain ⟨ds, left, span, rejoined, digits, takes⟩ := span_takes after
  simp only [exponentDigits?, cut, span] at read
  cases ds with
  | nil => cases read
  | cons d ds =>
    cases read
    refine ⟨sign ++ d :: ds, by rw [joined, rejoined, List.append_assoc], fun rest goesOn => ?_⟩
    have first := again d (ds ++ rest) (digits d List.mem_cons_self)
    have run := takes rest goesOn
    rw [List.cons_append] at run
    simp only [exponentDigits?, List.append_assoc, List.cons_append, first, run]
    rfl

theorem exponent?_takes {exponent : Option Int} {r : List Char}
    (read : exponent? s = some (exponent, r)) :
    ∃ part, s = part ++ r ∧ ∀ rest, GoesOn endsNumber rest →
      GoesOn endsFraction (part ++ rest) ∧ exponent? (part ++ rest) = some (exponent, rest) := by
  unfold exponent? at read
  split at read
  · obtain ⟨part, joined, takes⟩ := exponentDigits?_takes read
    exact ⟨'e' :: part, by rw [joined]; rfl, fun rest goesOn =>
      ⟨goesOn_cons rfl _, takes rest goesOn.endsFraction.endsDigits⟩⟩
  · obtain ⟨part, joined, takes⟩ := exponentDigits?_takes read
    exact ⟨'E' :: part, by rw [joined]; rfl, fun rest goesOn =>
      ⟨goesOn_cons rfl _, takes rest goesOn.endsFraction.endsDigits⟩⟩
  · cases read
    refine ⟨[], rfl, fun rest goesOn => ⟨goesOn.endsFraction, ?_⟩⟩
    rw [List.nil_append]
    unfold exponent?
    split
    · exact absurd (goesOn 'e' rfl) (by decide)
    · exact absurd (goesOn 'E' rfl) (by decide)
    · rfl

theorem magnitude?_takes {negative : Bool} {n : Numeral} {r : List Char}
    (read : magnitude? negative s = some (n, r)) :
    ∃ d part, Decimal.isDigit d = true ∧ s = d :: part ++ r ∧
      Takes endsNumber (magnitude? negative) (d :: part) n := by
  obtain ⟨ds, after, span, joined, digits, takes⟩ := span_takes s
  simp only [magnitude?, span] at read
  split at read
  · cases read
  · rename_i formed
    simp only [bind, Option.bind_eq_some_iff, pure, Option.some.injEq, Prod.exists] at read
    obtain ⟨fraction, last, readFraction, exponent, left, readExponent, made⟩ := read
    cases made
    obtain ⟨second, joinedFraction, takesFraction⟩ := fraction?_takes readFraction
    obtain ⟨third, joinedExponent, takesExponent⟩ := exponent?_takes readExponent
    cases ds with
    | nil => exact absurd rfl formed
    | cons d ds =>
      refine ⟨d, ds ++ (second ++ third), digits d List.mem_cons_self, ?_, fun rest goesOn => ?_⟩
      · rw [joined, joinedFraction, joinedExponent]
        simp
      · -- Each run ends where the next one begins.
        obtain ⟨endsSecond, thirdRead⟩ := takesExponent rest goesOn
        obtain ⟨endsFirst, secondRead⟩ := takesFraction (third ++ rest) endsSecond
        have firstRead := takes (second ++ (third ++ rest)) endsFirst
        have shape : d :: (ds ++ (second ++ third)) ++ rest =
            d :: ds ++ (second ++ (third ++ rest)) := by simp
        simp only [shape, magnitude?, firstRead, if_neg formed, bind, secondRead, thirdRead,
          Option.bind_some, pure]

theorem numeral?_takes {n : Numeral} {r : List Char} (read : numeral? s = some (n, r)) :
    ∃ c part, (c = '-' ∨ Decimal.isDigit c = true) ∧ s = c :: part ++ r ∧
      Takes endsNumber numeral? (c :: part) n := by
  unfold numeral? at read
  split at read
  · obtain ⟨d, part, _, joined, takes⟩ := magnitude?_takes read
    exact ⟨'-', d :: part, .inl rfl, by rw [joined]; rfl, takes⟩
  · obtain ⟨d, part, digit, joined, takes⟩ := magnitude?_takes read
    refine ⟨d, part, .inr digit, joined, fun rest goesOn => ?_⟩
    unfold numeral?
    split
    · rename_i same
      cases same
      exact absurd digit (by decide)
    · exact takes rest goesOn

/-! ## Texts -/

section Texts

variable {before units : List Nat} {c d : Char}

theorem units?_hex {x y : Char} {n : Nat} (value : hex? [c, d, x, y] = some n)
    (before : List Nat) (s : List Char) :
    units? before ('\\' :: 'u' :: c :: d :: x :: y :: s) = units? (n :: before) s := by
  rw [units?, value]

theorem units?_escape (escape : unescape? c = some d) (before : List Nat) (s : List Char) :
    units? before ('\\' :: c :: s) = units? (d.toNat :: before) s := by
  rw [units?, escape]
  -- The letter of a number of four digits is no escape of one letter.
  rintro _ _ _ _ _ rfl _
  cases escape

theorem units?_plain (inside : c ≠ '"') (unescaped : c ≠ '\\') (visible : ¬ c.toNat < 0x20)
    (before : List Nat) (s : List Char) :
    units? before (c :: s) = units? (c.toNat :: before) s := by
  rw [units?]
  · simp [unescaped, visible]
  · exact inside
  · exact fun _ _ _ _ _ same _ => unescaped same
  · exact fun _ _ same _ => unescaped same

theorem units?_takes {r : List Char} (read : units? before s = some (units, r)) :
    ∃ part, s = part ++ r ∧ ∀ rest, units? before (part ++ rest) = some (units, rest) := by
  fun_induction units? before s with
  | case1 before => cases read
  | case2 before s =>
    cases read
    exact ⟨['"'], rfl, units?_quote before⟩
  | case3 before a b c d s n value inductionHypothesis =>
    obtain ⟨part, joined, takes⟩ := inductionHypothesis read
    refine ⟨'\\' :: 'u' :: a :: b :: c :: d :: part, by rw [joined]; rfl, fun rest => ?_⟩
    exact (units?_hex value before _).trans (takes rest)
  | case4 => cases read
  | case5 before c s _ d escape inductionHypothesis =>
    obtain ⟨part, joined, takes⟩ := inductionHypothesis read
    exact ⟨'\\' :: c :: part, by rw [joined]; rfl, fun rest =>
      (units?_escape escape before _).trans (takes rest)⟩
  | case6 => cases read
  | case7 => cases read
  | case8 before c s inside _ _ admitted inductionHypothesis =>
    obtain ⟨part, joined, takes⟩ := inductionHypothesis read
    rw [Bool.or_eq_true, decide_eq_true_eq, decide_eq_true_eq, not_or] at admitted
    exact ⟨c :: part, by rw [joined]; rfl, fun rest =>
      (units?_plain inside admitted.2 admitted.1 before _).trans (takes rest)⟩

theorem quoted?_takes {text : Option String} {r : List Char} (read : quoted? s = some (text, r)) :
    ∃ part, s = part ++ r ∧ ∀ rest, quoted? (part ++ rest) = some (text, rest) := by
  rw [quoted?, Option.map_eq_some_iff] at read
  obtain ⟨⟨units, left⟩, readUnits, made⟩ := read
  cases made
  obtain ⟨part, joined, takes⟩ := units?_takes readUnits
  exact ⟨part, joined, fun rest => by rw [quoted?, takes rest, Option.map_some]⟩

end Texts

/-! ## Blanks -/

theorem skipSpace_append {blanks : List Char} (blank : ∀ c ∈ blanks, isSpace c = true)
    (s : List Char) : skipSpace (blanks ++ s) = skipSpace s :=
  List.dropWhile_append_of_pos blank

theorem skipSpace_of_first {c : Char} (visible : isSpace c = false) (s : List Char) :
    skipSpace (c :: s) = c :: s := by
  rw [skipSpace, List.dropWhile_cons_of_neg (by simp [visible])]

theorem exists_blanks (s : List Char) :
    ∃ blanks, (∀ c ∈ blanks, isSpace c = true) ∧ s = blanks ++ skipSpace s :=
  ⟨s.takeWhile isSpace, fun _ member => List.mem_takeWhile_imp member,
    List.takeWhile_append_dropWhile.symm⟩

theorem endsNumber_of_space {c : Char} (space : isSpace c = true) : endsNumber c = true := by
  simp only [isSpace, Bool.or_eq_true, decide_eq_true_eq] at space
  rcases space with ((rfl | rfl) | rfl) | rfl <;> decide

/-! ## Values -/

section Values

variable {fuel : Nat} {t : List Char} {c : Char}

theorem value?_null (start : skipSpace s = 'n' :: 'u' :: 'l' :: 'l' :: t) :
    value? (fuel + 1) s = some (.null, t) := by
  rw [value?, start]
  rfl

theorem value?_true (start : skipSpace s = 't' :: 'r' :: 'u' :: 'e' :: t) :
    value? (fuel + 1) s = some (.bool true, t) := by
  rw [value?, start]
  rfl

theorem value?_false (start : skipSpace s = 'f' :: 'a' :: 'l' :: 's' :: 'e' :: t) :
    value? (fuel + 1) s = some (.bool false, t) := by
  rw [value?, start]
  rfl

theorem value?_text (start : skipSpace s = '"' :: t) :
    value? (fuel + 1) s = (quoted? t).map fun p => (.text p.1, p.2) := by
  rw [value?, start]
  rfl

theorem value?_bracket (start : skipSpace s = '[' :: t) :
    value? (fuel + 1) s =
      match skipSpace t with
      | ']' :: u => some (.list [], u)
      | _ => (items? fuel t).map fun p => (.list p.1, p.2) := by
  rw [value?, start]
  rfl

theorem value?_brace (start : skipSpace s = '{' :: t) :
    value? (fuel + 1) s =
      match skipSpace t with
      | '}' :: u => some (.object [], u)
      | _ => (members? fuel t).map fun p => (.object p.1, p.2) := by
  rw [value?, start]
  rfl

theorem value?_emptyList {u : List Char} (start : skipSpace s = '[' :: t)
    (closes : skipSpace t = ']' :: u) : value? (fuel + 1) s = some (.list [], u) := by
  rw [value?_bracket start, closes]
  rfl

theorem value?_emptyObject {u : List Char} (start : skipSpace s = '{' :: t)
    (closes : skipSpace t = '}' :: u) : value? (fuel + 1) s = some (.object [], u) := by
  rw [value?_brace start, closes]
  rfl

theorem value?_number (start : skipSpace s = c :: t) (first : c = '-' ∨ Decimal.isDigit c = true) :
    value? (fuel + 1) s = (numeral? (c :: t)).map fun p => (.number p.1, p.2) := by
  have other (d : Char) (apart : d ≠ '-') (letter : Decimal.isDigit d = false) : c ≠ d := by
    rintro rfl
    exact first.elim apart fun digit => by simp [letter] at digit
  rw [value?, start]
  split
  · rename_i same
    exact absurd (List.cons.inj same).1 (other 'n' (by decide) (by decide))
  · rename_i same
    exact absurd (List.cons.inj same).1 (other 't' (by decide) (by decide))
  · rename_i same
    exact absurd (List.cons.inj same).1 (other 'f' (by decide) (by decide))
  · rename_i same
    exact absurd (List.cons.inj same).1 (other '"' (by decide) (by decide))
  · rename_i same
    exact absurd (List.cons.inj same).1 (other '[' (by decide) (by decide))
  · rename_i same
    exact absurd (List.cons.inj same).1 (other '{' (by decide) (by decide))
  · rfl

theorem numeral?_closing (closing : c = ']' ∨ c = '}') (t : List Char) :
    numeral? (c :: t) = none := by
  rcases closing with rfl | rfl
  · simp [numeral?, magnitude?, List.span_eq_takeWhile_dropWhile, Decimal.isDigit]
  · simp [numeral?, magnitude?, List.span_eq_takeWhile_dropWhile, Decimal.isDigit]

theorem value?_closing (start : skipSpace s = ']' :: t) : value? fuel s = none := by
  cases fuel with
  | zero => exact value?_zero s
  | succ fuel =>
    rw [value?, start]
    exact congrArg (Option.map _) (numeral?_closing (.inl rfl) t)

theorem value?_list {vs : List Tree} {r : List Char} (start : skipSpace s = '[' :: t)
    (read : items? fuel t = some (vs, r)) : value? (fuel + 1) s = some (.list vs, r) := by
  rw [value?_bracket start]
  split
  · rename_i closes
    cases fuel with
    | zero => simp at read
    | succ fuel => simp [items?, value?_closing closes] at read
  · rw [read, Option.map_some]

theorem value?_object {ms : List (Option String × Tree)} {r : List Char}
    (start : skipSpace s = '{' :: t) (read : members? fuel t = some (ms, r)) :
    value? (fuel + 1) s = some (.object ms, r) := by
  rw [value?_brace start]
  split
  · rename_i closes
    cases fuel with
    | zero => simp at read
    | succ fuel => simp [members?, closes] at read
  · rw [read, Option.map_some]

/-- Whether a reader takes a part off a text for which the length of the part is fuel enough. -/
def Reads (reader : Nat → List Char → Option (α × List Char)) (s : List Char) (a : α)
    (r : List Char) : Prop :=
  ∃ part, s = part ++ r ∧ ∀ fuel, part.length < fuel → Takes endsNumber (reader fuel) part a

theorem visible_of_skipSpace (start : skipSpace s = c :: t) : isSpace c = false := by
  have := List.head?_dropWhile_not isSpace s
  rw [← skipSpace, start] at this
  simpa using this

/-- A reader that looks at the first visible character takes a part, if it does so behind that. -/
theorem Reads.of_first {reader : Nat → List Char → Option (α × List Char)} {a : α}
    {r : List Char} (body : List Char) (start : skipSpace s = c :: (body ++ r))
    (reads : ∀ fuel, body.length < fuel → ∀ rest u, GoesOn endsNumber rest →
      skipSpace u = c :: (body ++ rest) → reader (fuel + 1) u = some (a, rest)) :
    Reads reader s a r := by
  obtain ⟨blanks, blank, joined⟩ := exists_blanks s
  refine ⟨blanks ++ c :: body, by rw [joined, start]; simp, fun fuel enough rest goesOn => ?_⟩
  rw [List.length_append, List.length_cons] at enough
  cases fuel with
  | zero => omega
  | succ fuel =>
    refine reads fuel (by omega) rest _ goesOn ?_
    rw [List.append_assoc, skipSpace_append blank]
    exact skipSpace_of_first (visible_of_skipSpace start) _

theorem reads_value {v : Tree} {r : List Char}
    (items : ∀ {s vs r}, items? fuel s = some (vs, r) → Reads items? s vs r)
    (members : ∀ {s ms r}, members? fuel s = some (ms, r) → Reads members? s ms r)
    (read : value? (fuel + 1) s = some (v, r)) : Reads value? s v r := by
  rw [value?] at read
  split at read
  · rename_i start
    cases read
    exact .of_first ['u', 'l', 'l'] start fun _ _ _ _ _ first => value?_null first
  · rename_i start
    cases read
    exact .of_first ['r', 'u', 'e'] start fun _ _ _ _ _ first => value?_true first
  · rename_i start
    cases read
    exact .of_first ['a', 'l', 's', 'e'] start fun _ _ _ _ _ first => value?_false first
  · rename_i t start
    rw [Option.map_eq_some_iff] at read
    obtain ⟨⟨text, left⟩, readText, made⟩ := read
    cases made
    obtain ⟨body, joined, takes⟩ := quoted?_takes readText
    rw [joined] at start
    exact .of_first _ start fun _ _ rest _ _ first => by rw [value?_text first, takes rest]; rfl
  · rename_i t start
    split at read
    · rename_i u closes
      cases read
      obtain ⟨blanks, blank, joined⟩ := exists_blanks t
      rw [closes] at joined
      refine .of_first (blanks ++ [']']) (by rw [start, joined]; simp)
        fun _ _ rest _ _ first => value?_emptyList first ?_
      rw [List.append_assoc, skipSpace_append blank]
      exact skipSpace_of_first (by decide) rest
    · rw [Option.map_eq_some_iff] at read
      obtain ⟨⟨vs, left⟩, readItems, made⟩ := read
      cases made
      obtain ⟨body, joined, takes⟩ := items readItems
      rw [joined] at start
      exact .of_first _ start fun fuel enough rest _ goesOn first =>
        value?_list first (takes fuel enough rest goesOn)
  · rename_i t start
    split at read
    · rename_i u closes
      cases read
      obtain ⟨blanks, blank, joined⟩ := exists_blanks t
      rw [closes] at joined
      refine .of_first (blanks ++ ['}']) (by rw [start, joined]; simp)
        fun _ _ rest _ _ first => value?_emptyObject first ?_
      rw [List.append_assoc, skipSpace_append blank]
      exact skipSpace_of_first (by decide) rest
    · rw [Option.map_eq_some_iff] at read
      obtain ⟨⟨ms, left⟩, readMembers, made⟩ := read
      cases made
      obtain ⟨body, joined, takes⟩ := members readMembers
      rw [joined] at start
      exact .of_first _ start fun fuel enough rest _ goesOn first =>
        value?_object first (takes fuel enough rest goesOn)
  · rw [Option.map_eq_some_iff] at read
    obtain ⟨⟨n, left⟩, readNumber, made⟩ := read
    cases made
    obtain ⟨c, body, first, joined, takes⟩ := numeral?_takes readNumber
    exact .of_first _ joined fun _ _ rest _ goesOn start => by
      rw [value?_number start first, ← List.cons_append, takes rest goesOn]
      rfl

theorem items?_last {v : Tree} {r u : List Char} (read : value? fuel s = some (v, u))
    (closes : skipSpace u = ']' :: r) : items? (fuel + 1) s = some ([v], r) := by
  simp only [items?, read, closes]

theorem items?_more {v : Tree} {vs : List Tree} {r u t : List Char}
    (read : value? fuel s = some (v, u)) (comma : skipSpace u = ',' :: t)
    (more : items? fuel t = some (vs, r)) : items? (fuel + 1) s = some (v :: vs, r) := by
  simp only [items?, read, comma, more, Option.map_some]

theorem goesOn_mark {blanks : List Char} (blank : ∀ c ∈ blanks, isSpace c = true)
    (mark : endsNumber c = true) (s : List Char) : GoesOn endsNumber (blanks ++ c :: s) :=
  (goesOn_cons mark s).append fun d member => endsNumber_of_space (blank d member)

/-- A value takes a part off a text also together with the blanks behind it, where a mark follows
them. -/
theorem Reads.before_mark {v : Tree} {u : List Char} (reads : Reads value? s v u)
    (next : skipSpace u = c :: t) (mark : endsNumber c = true) :
    ∃ part, s = part ++ c :: t ∧ ∀ fuel, part.length < fuel → ∀ rest,
      ∃ u, value? fuel (part ++ c :: rest) = some (v, u) ∧ skipSpace u = c :: rest := by
  obtain ⟨part, joined, takes⟩ := reads
  obtain ⟨blanks, blank, joinedBlanks⟩ := exists_blanks u
  refine ⟨part ++ blanks, by rw [joined, joinedBlanks, next]; simp, fun fuel enough rest => ?_⟩
  rw [List.length_append] at enough
  refine ⟨blanks ++ c :: rest, ?_, ?_⟩
  · rw [List.append_assoc]
    exact takes fuel (by omega) _ (goesOn_mark blank mark rest)
  · rw [skipSpace_append blank]
    exact skipSpace_of_first (visible_of_skipSpace next) rest

theorem quoted?_before_mark {text : Option String} {u : List Char}
    (read : quoted? s = some (text, u)) (next : skipSpace u = c :: t) :
    ∃ part, s = part ++ c :: t ∧ ∀ rest,
      ∃ u, quoted? (part ++ c :: rest) = some (text, u) ∧ skipSpace u = c :: rest := by
  obtain ⟨part, joined, takes⟩ := quoted?_takes read
  obtain ⟨blanks, blank, joinedBlanks⟩ := exists_blanks u
  refine ⟨part ++ blanks, by rw [joined, joinedBlanks, next]; simp, fun rest => ?_⟩
  refine ⟨blanks ++ c :: rest, by rw [List.append_assoc]; exact takes _, ?_⟩
  rw [skipSpace_append blank]
  exact skipSpace_of_first (visible_of_skipSpace next) rest

theorem reads_items {vs : List Tree} {r : List Char}
    (value : ∀ {s v r}, value? fuel s = some (v, r) → Reads value? s v r)
    (items : ∀ {s vs r}, items? fuel s = some (vs, r) → Reads items? s vs r)
    (read : items? (fuel + 1) s = some (vs, r)) : Reads items? s vs r := by
  rw [items?] at read
  split at read
  · cases read
  · rename_i v u readValue
    split at read
    · rename_i closes
      cases read
      obtain ⟨part, joined, takes⟩ := (value readValue).before_mark closes (by decide)
      refine ⟨part ++ [']'], by rw [joined]; simp, fun n enough rest _ => ?_⟩
      rw [List.length_append, List.length_singleton] at enough
      cases n with
      | zero => omega
      | succ n =>
        obtain ⟨u, readPart, closesPart⟩ := takes n (by omega) rest
        rw [List.append_assoc]
        exact items?_last readPart closesPart
    · rename_i t comma
      rw [Option.map_eq_some_iff] at read
      obtain ⟨⟨rest, left⟩, readItems, made⟩ := read
      cases made
      obtain ⟨part, joined, takes⟩ := (value readValue).before_mark comma (by decide)
      obtain ⟨more, joinedMore, takesMore⟩ := items readItems
      refine ⟨part ++ ',' :: more, by rw [joined, joinedMore]; simp, fun n enough rest goesOn => ?_⟩
      rw [List.length_append, List.length_cons] at enough
      cases n with
      | zero => omega
      | succ n =>
        obtain ⟨u, readPart, commaPart⟩ := takes n (by omega) (more ++ rest)
        rw [List.append_assoc]
        exact items?_more readPart commaPart (takesMore n (by omega) rest goesOn)
    · cases read

theorem members?_last {key : Option String} {v : Tree} {r w x y : List Char}
    (start : skipSpace s = '"' :: t) (readKey : quoted? t = some (key, w))
    (colon : skipSpace w = ':' :: x) (read : value? fuel x = some (v, y))
    (closes : skipSpace y = '}' :: r) : members? (fuel + 1) s = some ([(key, v)], r) := by
  simp only [members?, start, readKey, colon, read, closes]

theorem members?_more {key : Option String} {v : Tree} {ms : List (Option String × Tree)}
    {r w x y z : List Char} (start : skipSpace s = '"' :: t) (readKey : quoted? t = some (key, w))
    (colon : skipSpace w = ':' :: x) (read : value? fuel x = some (v, y))
    (comma : skipSpace y = ',' :: z) (more : members? fuel z = some (ms, r)) :
    members? (fuel + 1) s = some ((key, v) :: ms, r) := by
  simp only [members?, start, readKey, colon, read, comma, more, Option.map_some]

theorem reads_members {ms : List (Option String × Tree)} {r : List Char}
    (value : ∀ {s v r}, value? fuel s = some (v, r) → Reads value? s v r)
    (members : ∀ {s ms r}, members? fuel s = some (ms, r) → Reads members? s ms r)
    (read : members? (fuel + 1) s = some (ms, r)) : Reads members? s ms r := by
  rw [members?] at read
  split at read
  · rename_i t start
    split at read
    · cases read
    · rename_i key w readKey
      split at read
      · rename_i x colon
        split at read
        · cases read
        · rename_i v y readValue
          obtain ⟨keyPart, joinedKey, takesKey⟩ := quoted?_before_mark readKey colon
          split at read
          · rename_i closes
            cases read
            obtain ⟨part, joined, takes⟩ := (value readValue).before_mark closes (by decide)
            refine .of_first (c := '"') (keyPart ++ ':' :: (part ++ ['}']))
              (by rw [start, joinedKey, joined]; simp) fun n enough rest u _ first => ?_
            simp only [List.length_append, List.length_cons, List.length_nil] at enough
            obtain ⟨w, readKeyPart, colonPart⟩ := takesKey (part ++ '}' :: rest)
            obtain ⟨y, readPart, closesPart⟩ := takes n (by omega) rest
            refine members?_last first ?_ colonPart readPart closesPart
            rw [← readKeyPart]
            simp
          · rename_i z comma
            rw [Option.map_eq_some_iff] at read
            obtain ⟨⟨rest, left⟩, readMembers, made⟩ := read
            cases made
            obtain ⟨part, joined, takes⟩ := (value readValue).before_mark comma (by decide)
            obtain ⟨more, joinedMore, takesMore⟩ := members readMembers
            refine .of_first (c := '"') (keyPart ++ ':' :: (part ++ ',' :: more))
              (by rw [start, joinedKey, joined, joinedMore]; simp)
              fun n enough rest u goesOn first => ?_
            simp only [List.length_append, List.length_cons] at enough
            obtain ⟨w, readKeyPart, colonPart⟩ := takesKey (part ++ ',' :: (more ++ rest))
            obtain ⟨y, readPart, commaPart⟩ := takes n (by omega) (more ++ rest)
            refine members?_more first ?_ colonPart readPart commaPart
              (takesMore n (by omega) rest goesOn)
            rw [← readKeyPart]
            simp
          · cases read
      · cases read
  · cases read

/-- Every reader of values takes a part off its text, and needs no more fuel than that is long. -/
theorem reads_of_fuel (fuel : Nat) :
    (∀ {s v r}, value? fuel s = some (v, r) → Reads value? s v r) ∧
    (∀ {s vs r}, items? fuel s = some (vs, r) → Reads items? s vs r) ∧
    ∀ {s ms r}, members? fuel s = some (ms, r) → Reads members? s ms r := by
  induction fuel with
  | zero =>
    refine ⟨fun read => ?_, fun read => ?_, fun read => ?_⟩
    · simp at read
    · simp at read
    · simp at read
  | succ fuel inductionHypothesis =>
    obtain ⟨value, items, members⟩ := inductionHypothesis
    exact ⟨reads_value items members, reads_items value items, reads_members value members⟩

end Values

/-! ## Whole texts -/

def Spaces (s : List Char) : Prop := ∀ c ∈ s, isSpace c = true

theorem isEmpty_skipSpace_iff : (skipSpace s).isEmpty = true ↔ Spaces s := by
  rw [List.isEmpty_iff, skipSpace, List.dropWhile_eq_nil_iff]
  rfl

theorem ofText?_eq_some_iff {v : Tree} :
    Tree.ofText? s = some v ↔ ∃ r, value? (s.length + 1) s = some (v, r) ∧ Spaces r := by
  rw [Tree.ofText?]
  cases read : value? (s.length + 1) s with
  | none => simp
  | some taken =>
    obtain ⟨w, r⟩ := taken
    constructor
    · intro made
      dsimp only at made
      split at made
      · rename_i spaces
        cases made
        exact ⟨r, rfl, isEmpty_skipSpace_iff.mp spaces⟩
      · cases made
    · rintro ⟨_, same, spaces⟩
      cases same
      exact if_pos (isEmpty_skipSpace_iff.mpr spaces)

theorem Reads.ofText? {v : Tree} (reads : Reads value? s v rest) :
    ∃ part, s = part ++ rest ∧ Tree.ofText? part = some v := by
  obtain ⟨part, joined, takes⟩ := reads
  refine ⟨part, joined, ofText?_eq_some_iff.mpr ⟨[], ?_, fun _ member => by cases member⟩⟩
  have alone := takes (part.length + 1) (Nat.lt_succ_self _) [] goesOn_nil
  rwa [List.append_nil] at alone

theorem value?_blanks {blanks : List Char} (blank : Spaces blanks) (fuel : Nat) (s : List Char) :
    value? fuel (blanks ++ s) = value? fuel s := by
  cases fuel with
  | zero => rw [value?_zero, value?_zero]
  | succ fuel => rw [value?, value?, skipSpace_append blank]

/-- A text that is a value by itself is the same value among blanks before a mark. -/
theorem value?_before_mark {element before after : List Char} {v : Tree}
    (alone : Tree.ofText? element = some v) (blank : Spaces before) (blankAfter : Spaces after)
    {c : Char} (mark : endsNumber c = true) (visible : isSpace c = false) {fuel : Nat}
    (enough : element.length < fuel) (rest : List Char) :
    ∃ u, value? fuel (before ++ (element ++ (after ++ c :: rest))) = some (v, u) ∧
      skipSpace u = c :: rest := by
  obtain ⟨r, read, spaces⟩ := ofText?_eq_some_iff.mp alone
  obtain ⟨part, joined, takes⟩ := (reads_of_fuel _).1 read
  subst joined
  rw [List.length_append] at enough
  have blanks : Spaces (r ++ after) := fun d member =>
    (List.mem_append.mp member).elim (spaces d) (blankAfter d)
  refine ⟨(r ++ after) ++ c :: rest, ?_, ?_⟩
  · rw [value?_blanks blank, List.append_assoc, ← List.append_assoc r]
    exact takes fuel (by omega) _ (goesOn_mark blanks mark rest)
  · rw [skipSpace_append blanks]
    exact skipSpace_of_first visible rest

/-! ## Lists -/

/-- The inside of a list whose elements have some texts, with blanks around them and commas between
them. -/
inductive Listed : List (List Char) → List Char → Prop
  | blank {blanks : List Char} (spaces : Spaces blanks) : Listed [] blanks
  | last {element before after : List Char} (spaces : Spaces before) (spacesAfter : Spaces after) :
      Listed [element] (before ++ (element ++ after))
  | more {element next before after rest : List Char} {elements : List (List Char)}
      (spaces : Spaces before) (spacesAfter : Spaces after)
      (listed : Listed (next :: elements) rest) :
      Listed (element :: next :: elements) (before ++ (element ++ (after ++ ',' :: rest)))

def Values (elements : List (List Char)) (vs : List Tree) : Prop :=
  List.Forall₂ (fun element v => Tree.ofText? element = some v) elements vs

theorem items?_of_listed {elements : List (List Char)} {inside : List Char} {vs : List Tree}
    (listed : Listed elements inside) (present : elements ≠ []) (values : Values elements vs)
    {fuel : Nat} (enough : inside.length + 1 < fuel) (r : List Char) :
    items? fuel (inside ++ ']' :: r) = some (vs, r) := by
  induction listed generalizing vs fuel with
  | blank => exact absurd rfl present
  | last spaces spacesAfter =>
    rcases values with _ | ⟨alone, rest⟩
    cases rest
    cases fuel with
    | zero => omega
    | succ fuel =>
      simp only [List.length_append] at enough
      obtain ⟨u, read, closes⟩ := value?_before_mark alone spaces spacesAfter (c := ']') (by decide)
        (by decide) (show _ < fuel by omega) r
      simp only [List.append_assoc]
      exact items?_last read closes
  | more spaces spacesAfter listed inductionHypothesis =>
    rename_i element next before after rest elements
    rcases values with _ | ⟨alone, others⟩
    cases fuel with
    | zero => omega
    | succ fuel =>
      simp only [List.length_append, List.length_cons] at enough
      obtain ⟨u, read, comma⟩ := value?_before_mark alone spaces spacesAfter (c := ',') (by decide)
        (by decide) (show _ < fuel by omega) (rest ++ ']' :: r)
      simp only [List.append_assoc, List.cons_append]
      exact items?_more read comma (inductionHypothesis (by simp) others (by omega))

theorem listed_of_items? {fuel : Nat} {vs : List Tree} {r : List Char}
    (read : items? fuel s = some (vs, r)) :
    ∃ elements inside, s = inside ++ ']' :: r ∧ Listed elements inside ∧ elements ≠ [] ∧
      Values elements vs := by
  induction fuel generalizing s vs with
  | zero => simp at read
  | succ fuel inductionHypothesis =>
    rw [items?] at read
    split at read
    · cases read
    · rename_i v u readValue
      obtain ⟨part, joined, alone⟩ := ((reads_of_fuel fuel).1 readValue).ofText?
      obtain ⟨blanks, blank, joinedBlanks⟩ := exists_blanks u
      have none : Spaces [] := fun _ member => by cases member
      split at read
      · rename_i closes
        cases read
        refine ⟨[part], [] ++ (part ++ blanks), ?_, .last none blank, by simp, .cons alone .nil⟩
        rw [joined, joinedBlanks, closes]
        simp
      · rename_i t comma
        rw [Option.map_eq_some_iff] at read
        obtain ⟨⟨others, left⟩, readItems, made⟩ := read
        cases made
        obtain ⟨elements, inside, joinedInside, listed, present, values⟩ :=
          inductionHypothesis readItems
        obtain ⟨next, elements, rfl⟩ := List.exists_cons_of_ne_nil present
        refine ⟨part :: next :: elements, [] ++ (part ++ (blanks ++ ',' :: inside)), ?_,
          .more none blank listed, by simp, .cons alone values⟩
        rw [joined, joinedBlanks, comma, joinedInside]
        simp
      · cases read

/-- A text that begins with a bracket is a list just when its inside is a list of texts, each of
which is a value by itself. -/
theorem ofText?_bracket_iff {t : Tree} :
    Tree.ofText? ('[' :: s) = some t ↔
      ∃ elements inside blanks vs, s = inside ++ ']' :: blanks ∧ Spaces blanks ∧
        Listed elements inside ∧ Values elements vs ∧ t = .list vs := by
  have start (u : List Char) : skipSpace ('[' :: u) = '[' :: u := skipSpace_of_first (by decide) u
  rw [ofText?_eq_some_iff]
  constructor
  · rintro ⟨r, read, spaces⟩
    rw [value?_bracket (start s)] at read
    split at read
    · rename_i u closes
      cases read
      obtain ⟨blanks, blank, joined⟩ := exists_blanks s
      rw [closes] at joined
      exact ⟨[], blanks, _, [], joined, spaces, .blank blank, .nil, rfl⟩
    · rw [Option.map_eq_some_iff] at read
      obtain ⟨⟨vs, left⟩, readItems, made⟩ := read
      cases made
      obtain ⟨elements, inside, joined, listed, _, values⟩ := listed_of_items? readItems
      exact ⟨elements, inside, _, vs, joined, spaces, listed, values, rfl⟩
  · rintro ⟨elements, inside, blanks, vs, rfl, spaces, listed, values, rfl⟩
    refine ⟨blanks, ?_, spaces⟩
    cases elements with
    | nil =>
      cases listed with
      | blank blank =>
        cases values
        refine value?_emptyList (start _) ?_
        rw [skipSpace_append blank]
        exact skipSpace_of_first (by decide) blanks
    | cons element elements =>
      refine value?_list (start _) (items?_of_listed listed (by simp) values ?_ blanks)
      simp only [List.length_cons, List.length_append]
      omega

end AlertEngine.Json
