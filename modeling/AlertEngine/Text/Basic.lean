/-!
# Cutting text

Rule text is cut by characters: at blanks, at single separators, at the first occurrence of a
mark. All functions work on `List Char`, so that each one is a recursion on its input.

* `isBlank`, `trim`: the white space of Unicode, and its removal at both ends of a text.
* `splitOn`, `cutAt?`: the parts between all separators, and the two sides of the first one.
* `runs`: the maximal runs of characters that are not separators.
* `stripFirst?`, `stripLast?`, `isInfix`: a given character at an end, a text inside another.
* `digitValue?`, `ofDigits`: digits in a base of at most sixteen.

The lemmas say that the parts of a text, joined again, give the text back.
-/

namespace AlertEngine.Text

/-! ## Blanks -/

/-- The code points with the Unicode property `White_Space`, as closed ranges. -/
def blankRanges : List (Nat × Nat) :=
  [(0x9, 0xD), (0x20, 0x20), (0x85, 0x85), (0xA0, 0xA0), (0x1680, 0x1680), (0x2000, 0x200A),
   (0x2028, 0x2029), (0x202F, 0x202F), (0x205F, 0x205F), (0x3000, 0x3000)]

def inRanges (ranges : List (Nat × Nat)) (c : Char) : Bool :=
  ranges.any fun r => r.1 ≤ c.toNat && c.toNat ≤ r.2

def isBlank (c : Char) : Bool := inRanges blankRanges c

def trimStart (s : List Char) : List Char := s.dropWhile isBlank

def trimEnd (s : List Char) : List Char := (s.reverse.dropWhile isBlank).reverse

def trim (s : List Char) : List Char := trimEnd (trimStart s)

def trimmed (s : String) : String := String.ofList (trim s.toList)

@[simp] theorem trim_nil : trim [] = [] := rfl

/-! ## Separators -/

/-- The parts of a text between the occurrences of a separator; a text without one is its only
part. -/
def splitOn (sep : Char) : List Char → List (List Char)
  | [] => [[]]
  | c :: s =>
    if c = sep then [] :: splitOn sep s
    else match splitOn sep s with
      | [] => [[c]]
      | part :: parts => (c :: part) :: parts

def cutAt? (mark : Char) : List Char → Option (List Char × List Char)
  | [] => none
  | c :: s => if c = mark then some ([], s) else (cutAt? mark s).map fun p => (c :: p.1, p.2)

def runs (isSep : Char → Bool) : List Char → List (List Char)
  | [] => []
  | c :: s =>
    if isSep c then runs isSep s
    else match s with
      | [] => [[c]]
      | d :: _ =>
        if isSep d then [c] :: runs isSep s
        else match runs isSep s with
          | [] => [[c]]
          | run :: rest => (c :: run) :: rest

def stripFirst? (c : Char) : List Char → Option (List Char)
  | [] => none
  | d :: s => if d = c then some s else none

def stripLast? (c : Char) (s : List Char) : Option (List Char) :=
  (stripFirst? c s.reverse).map List.reverse

def isInfix (needle : List Char) : List Char → Bool
  | [] => needle.isEmpty
  | c :: s => needle.isPrefixOf (c :: s) || isInfix needle s

/-! ## Digits -/

def digitValue? (base : Nat) (c : Char) : Option Nat :=
  let value :=
    if '0' ≤ c ∧ c ≤ '9' then some (c.toNat - 48)
    else if 'a' ≤ c ∧ c ≤ 'f' then some (c.toNat - 87)
    else if 'A' ≤ c ∧ c ≤ 'F' then some (c.toNat - 55)
    else none
  value.filter fun d => d < base

def isDigitOf (base : Nat) (c : Char) : Bool := (digitValue? base c).isSome

def ofDigits (base : Nat) (ds : List Char) : Nat :=
  ds.foldl (fun n c => base * n + (digitValue? base c).getD 0) 0

/-! ## Laws -/

theorem splitOn_ne_nil (sep : Char) (s : List Char) : splitOn sep s ≠ [] := by
  cases s with
  | nil => simp [splitOn]
  | cons c s =>
    simp only [splitOn]
    split
    · simp
    · split <;> simp

/-- The parts joined by the separator are the text. -/
theorem intercalate_splitOn (sep : Char) (s : List Char) :
    [sep].intercalate (splitOn sep s) = s := by
  induction s with
  | nil => rfl
  | cons c s ih =>
    simp only [splitOn]
    cases h : splitOn sep s with
    | nil => exact absurd h (splitOn_ne_nil sep s)
    | cons part parts =>
      rw [h] at ih
      split
      · next hc => subst hc; simp [List.intercalate, List.intersperse] at ih ⊢; exact ih
      · cases parts <;> simp_all [List.intercalate, List.intersperse]

/-- The two sides of the first mark, joined by it, are the text, and the first holds no mark. -/
theorem eq_of_cutAt?_eq_some {mark : Char} {s a b : List Char} (h : cutAt? mark s = some (a, b)) :
    s = a ++ mark :: b ∧ mark ∉ a := by
  induction s generalizing a with
  | nil => simp [cutAt?] at h
  | cons c s ih =>
    simp only [cutAt?] at h
    split at h
    · next hc => simp_all
    · next hc =>
      cases hs : cutAt? mark s with
      | none => simp [hs] at h
      | some p =>
        obtain ⟨p₁, p₂⟩ := p
        simp only [hs, Option.map_some, Option.some.injEq, Prod.mk.injEq] at h
        obtain ⟨rfl, rfl⟩ := h
        obtain ⟨rfl, hm⟩ := ih hs
        exact ⟨rfl, by simp [hm, Ne.symm hc]⟩

/-- A text is not cut exactly when the mark is not in it. -/
theorem cutAt?_eq_none_iff {mark : Char} {s : List Char} : cutAt? mark s = none ↔ mark ∉ s := by
  induction s with
  | nil => simp [cutAt?]
  | cons c s ih =>
    simp only [cutAt?]
    split
    · next hc => simp [hc]
    · next hc => simp [ih, Ne.symm hc]

end AlertEngine.Text
