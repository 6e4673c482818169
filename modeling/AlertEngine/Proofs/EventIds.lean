import AlertEngine.Engine

/-! # Identities of events

The id of an event names its strategy before its series or group. The number of the strategy ends
at the first underscore after it, so that no start of an id is the start of another one.

* `writeInteger_injective`, `not_mem_writeInteger`: the digits of a number.
* `PrefixFree`: starts of ids that are apart; `prefixFree_idStart`, `prefixFree_composite_idStart`.
* `PrefixFree.append_inj`: an id is of one number, and of one series or group under it.
* `not_belongsTo_composite`, `composite_idStart_append_ne`: the ids of composites are apart.
-/

namespace AlertEngine

open DebounceTable (belongsTo)

/-! ## Digits -/

theorem not_mem_toDigits {mark : Char} (notDigit : mark.isDigit = false) (n : Nat) :
    mark ∉ Nat.toDigits 10 n := by
  intro member
  rw [Nat.isDigit_of_mem_toDigits (by decide) (by decide) member] at notDigit
  cases notDigit

/-- The text of a number has no other characters than digits and a minus sign. -/
theorem not_mem_writeInteger {mark : Char} (notDigit : mark.isDigit = false)
    (notMinus : mark ≠ '-') (n : Int) : mark ∉ writeInteger n := by
  unfold writeInteger
  split
  · rw [List.mem_cons, not_or]
    exact ⟨notMinus, not_mem_toDigits notDigit _⟩
  · exact not_mem_toDigits notDigit _

theorem underscore_not_mem_writeInteger (n : Int) : '_' ∉ writeInteger n :=
  not_mem_writeInteger rfl (by decide) n

theorem minus_not_mem_toDigits (n : Nat) : '-' ∉ Nat.toDigits 10 n := not_mem_toDigits rfl n

theorem toDigits_injective {m n : Nat} (same : Nat.toDigits 10 m = Nat.toDigits 10 n) : m = n := by
  rw [← Nat.ofDigitChars_ten_toDigits (n := m), same, Nat.ofDigitChars_ten_toDigits]

theorem writeInteger_injective {m n : Int} (same : writeInteger m = writeInteger n) : m = n := by
  unfold writeInteger at same
  split at same <;> split at same
  · have digits := toDigits_injective (List.cons.inj same).2
    omega
  · exact absurd (same ▸ List.mem_cons_self) (minus_not_mem_toDigits n.natAbs)
  · exact absurd (same ▸ List.mem_cons_self) (minus_not_mem_toDigits m.natAbs)
  · have digits := toDigits_injective same
    omega

/-- A text up to its first underscore is determined by any longer text. -/
theorem eq_of_isPrefix_underscore {a b s : List Char} (plain : '_' ∉ a) (plain' : '_' ∉ b)
    (starts : a ++ ['_'] <+: b ++ '_' :: s) : a = b := by
  -- Both texts are read together; the underscore after one of them must meet that after the other.
  induction a generalizing b with
  | nil =>
    cases b with
    | nil => rfl
    | cons d b =>
      have head : '_' = d := (List.cons_prefix_cons.mp starts).1
      exact absurd (head ▸ List.mem_cons_self) plain'
  | cons c a inductionHypothesis =>
    rw [List.mem_cons, not_or] at plain
    cases b with
    | nil =>
      have head : c = '_' := (List.cons_prefix_cons.mp starts).1
      exact absurd head.symm plain.1
    | cons d b =>
      rw [List.mem_cons, not_or] at plain'
      obtain ⟨rfl, rest⟩ := List.cons_prefix_cons.mp starts
      rw [inductionHypothesis plain.2 plain'.2 rest]

/-! ## Starts of ids -/

theorem toList_idStart (id : Int64) :
    (Engine.idStart id).toList = 's' :: '_' :: (writeInteger id.toInt ++ ['_']) := by
  rw [Engine.idStart, String.toList_ofList]
  rfl

theorem toList_composite_idStart (id : Int64) :
    (Composite.idStart id).toList = 'm' :: '_' :: (writeInteger id.toInt ++ ['_']) := by
  rw [Composite.idStart, String.toList_ofList]
  rfl

/-- A start of ids belongs to no other id than those of its own number. -/
def PrefixFree (start : Int64 → String) : Prop :=
  ∀ i j rest, belongsTo (start i) (start j ++ rest) = true ↔ i = j

variable {start : Int64 → String} {i j : Int64} {x y : String}

theorem belongsTo_iff {start id : String} :
    belongsTo start id = true ↔ ∃ rest, id = start ++ rest := by
  rw [belongsTo, List.isPrefixOf_iff_prefix]
  constructor
  · rintro ⟨rest, same⟩
    refine ⟨String.ofList rest, String.toList_injective ?_⟩
    rw [String.toList_append, String.toList_ofList, same]
  · rintro ⟨rest, rfl⟩
    rw [String.toList_append]
    exact List.prefix_append _ _

/-- Numbers between a letter and an underscore make starts that are apart. -/
theorem prefixFree_of_toList {letter : Char}
    (written : ∀ id, (start id).toList = letter :: '_' :: (writeInteger id.toInt ++ ['_'])) :
    PrefixFree start := by
  intro i j rest
  constructor
  · rw [belongsTo, String.toList_append, written, written, List.isPrefixOf_iff_prefix]
    intro starts
    simp only [List.cons_append, List.append_assoc, List.nil_append, List.cons_prefix_cons,
      true_and] at starts
    have numbers := eq_of_isPrefix_underscore (underscore_not_mem_writeInteger i.toInt)
      (underscore_not_mem_writeInteger j.toInt) starts
    exact Int64.toInt_inj.mp (writeInteger_injective numbers)
  · rintro rfl
    exact belongsTo_iff.mpr ⟨rest, rfl⟩

theorem PrefixFree.append_inj (free : PrefixFree start) :
    start i ++ x = start j ++ y ↔ i = j ∧ x = y := by
  constructor
  · intro same
    have owner : i = j := (free i j y).mp (belongsTo_iff.mpr ⟨x, same.symm⟩)
    subst owner
    have lists := congrArg String.toList same
    rw [String.toList_append, String.toList_append] at lists
    exact ⟨rfl, String.toList_injective (List.append_cancel_left lists)⟩
  · rintro ⟨rfl, rfl⟩
    rfl

theorem prefixFree_idStart : PrefixFree Engine.idStart := prefixFree_of_toList toList_idStart

theorem prefixFree_composite_idStart : PrefixFree Composite.idStart :=
  prefixFree_of_toList toList_composite_idStart

/-- An id belongs to the strategy that it names, and to no other one. -/
theorem belongsTo_idStart_iff {series : String} :
    belongsTo (Engine.idStart i) (Engine.idStart j ++ series) = true ↔ i = j :=
  prefixFree_idStart i j series

theorem idStart_append_inj : Engine.idStart i ++ x = Engine.idStart j ++ y ↔ i = j ∧ x = y :=
  prefixFree_idStart.append_inj

theorem composite_idStart_append_inj :
    Composite.idStart i ++ x = Composite.idStart j ++ y ↔ i = j ∧ x = y :=
  prefixFree_composite_idStart.append_inj

/-- No event of a strategy belongs to a composite. -/
theorem not_belongsTo_composite (i j : Int64) (series : String) :
    belongsTo (Composite.idStart i) (Engine.idStart j ++ series) = false := by
  rw [belongsTo, String.toList_append, toList_composite_idStart, toList_idStart]
  rfl

theorem composite_idStart_append_ne (i j : Int64) (group series : String) :
    Composite.idStart i ++ group ≠ Engine.idStart j ++ series := by
  intro same
  have belongs : belongsTo (Composite.idStart i) (Engine.idStart j ++ series) = true :=
    belongsTo_iff.mpr ⟨group, same.symm⟩
  rw [not_belongsTo_composite] at belongs
  cases belongs

end AlertEngine
