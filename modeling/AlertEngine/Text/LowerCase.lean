import AlertEngine.Text.Basic
import AlertEngine.Text.CaseData

/-!
# Lower case

Keywords of rule text are compared in lower case. The mapping is that of Unicode for whole texts:
character by character, except that `İ` becomes two characters, and a capital sigma becomes `ς`
at the end of a word and `σ` elsewhere.

* `lowerChar`: the lower-case form of one character, where it is one character.
* `lower`: the lower-case form of a text; on ASCII text it is `lowerChar` on every character.
-/

namespace AlertEngine.Text

def lowerChar (c : Char) : Char :=
  if c.toNat < 0x80 then c.toLower
  else
    match lowerRanges.find? fun (first, last, step, _) =>
        first ≤ c.toNat && c.toNat ≤ last && (c.toNat - first) % step == 0 with
    | some (_, _, _, shift) => Char.ofNat (c.toNat + shift).toNat
    | none => c

/-- Whether a cased character stands at the front of a text once the case-ignorable characters are
passed over. -/
def casedAhead (s : List Char) : Bool :=
  match s.dropWhile (inRanges caseIgnorableRanges) with
  | c :: _ => inRanges casedRanges c
  | [] => false

/-- The lower-case form of a text that follows the given characters, which stand in reverse. -/
def lowerAfter (before : List Char) : List Char → List Char
  | [] => []
  | c :: s =>
    let here :=
      if c = 'Σ' then [if casedAhead before && !casedAhead s then 'ς' else 'σ']
      else if c = 'İ' then ['i', '\u0307']
      else [lowerChar c]
    here ++ lowerAfter (c :: before) s

def lower (s : List Char) : List Char := lowerAfter [] s

def lowered (s : String) : String := String.ofList (lower s.toList)

theorem lowerChar_of_ascii {c : Char} (h : c.toNat < 0x80) : lowerChar c = c.toLower := by
  simp [lowerChar, h]

theorem lowerAfter_of_ascii {s : List Char} (h : ∀ c ∈ s, c.toNat < 0x80) (before : List Char) :
    lowerAfter before s = s.map Char.toLower := by
  induction s generalizing before with
  | nil => rfl
  | cons c s ih =>
    have hc : c.toNat < 0x80 := h c (by simp)
    have h₁ : c ≠ 'Σ' := by rintro rfl; exact absurd hc (by decide)
    have h₂ : c ≠ 'İ' := by rintro rfl; exact absurd hc (by decide)
    simp [lowerAfter, h₁, h₂, lowerChar_of_ascii hc, ih fun d hd => h d (by simp [hd])]

/-- ASCII text is lowered letter by letter. -/
theorem lower_of_ascii {s : List Char} (h : ∀ c ∈ s, c.toNat < 0x80) :
    lower s = s.map Char.toLower :=
  lowerAfter_of_ascii h []

end AlertEngine.Text
