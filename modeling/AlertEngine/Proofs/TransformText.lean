import AlertEngine.Proofs.CompactRules
import AlertEngine.Proofs.RuleWords
import AlertEngine.Proofs.Shared
import AlertEngine.Transform

/-! # Texts of transforms

A transform is written as a call: a keyword in any letter case and its arguments in brackets, with
blanks around everything. The texts of a transform are read as that transform, and no other text is.

* `Transform.Listed`, `Transform.IsCall`: arguments and calls as they are written;
  `Transform.argumentsOf`: the arguments that are read.
* `Transform.Keyword`, `Transform.Calls`: the four keywords, with the counts of arguments that they
  take, and the texts that call one of them.
* `Transform.splitCall_eq_ok_iff`: which texts are cut into which arguments.
* `Transform.ofCall_of_hasArguments`, `Transform.hasArguments_of_ofCall`: which arguments make which
  transform.
* `Transform.Writable`, `Transform.IsWritten`: transforms that have a text, and their texts.
* `Transform.parse_eq_ok_iff_isWritten`: what is read, and how a wrong count of arguments is
  refused.
-/

namespace AlertEngine.Transform

open Text (Blanks Padded InAnyCase trim trimStart)

variable {text before inner word name : List Char} {arguments cells : List (List Char)}

/-! ## Arguments -/

/-- What stands between the brackets of a call: arguments with blanks around them and commas between
them. Blanks alone are no argument. -/
inductive Listed : List (List Char) → List Char → Prop
  | none {inner : List Char} (blanks : Blanks inner) : Listed [] inner
  | some {arguments cells : List (List Char)} (present : arguments ≠ [])
    (padded : List.Forall₂ Padded arguments cells) : Listed arguments ([','].intercalate cells)

/-- Arguments that can be told apart in a text: none has a comma or blanks at its ends, and a single
one is not empty. -/
structure Separable (arguments : List (List Char)) : Prop where
  free : ∀ argument ∈ arguments, ',' ∉ argument
  trimmed : ∀ argument ∈ arguments, trim argument = argument
  visible : arguments ≠ [[]]

def argumentsOf (inner : List Char) : List (List Char) :=
  if (trim inner).isEmpty then [] else (Text.splitOn ',' inner).map trim

/-- The number of arguments between the brackets of a call: one more than there are commas, unless
there are blanks alone. -/
def argumentCount (inner : List Char) : Nat :=
  if inner.all Text.isBlank then 0 else inner.count ',' + 1

theorem isEmpty_trim_iff : (trim inner).isEmpty = true ↔ Blanks inner := by
  rw [List.isEmpty_iff]
  exact ⟨Text.blanks_of_trim, Text.trim_of_blanks⟩

theorem length_argumentsOf (inner : List Char) :
    (argumentsOf inner).length = argumentCount inner := by
  have blank : (trim inner).isEmpty = inner.all Text.isBlank :=
    Bool.eq_iff_iff.mpr (isEmpty_trim_iff.trans List.all_eq_true.symm)
  rw [argumentsOf, argumentCount, blank]
  split
  · rfl
  · rw [List.length_map, Text.length_splitOn]

theorem listed_argumentsOf (inner : List Char) : Listed (argumentsOf inner) inner := by
  rw [argumentsOf]
  split
  · rename_i empty
    exact .none (isEmpty_trim_iff.mp empty)
  · have padded : List.Forall₂ Padded ((Text.splitOn ',' inner).map trim)
        (Text.splitOn ',' inner) :=
      List.forall₂_map_left_iff.mpr (List.forall₂_same.mpr fun cell _ => Text.padded_trim cell)
    have listed := Listed.some (by simp [Text.splitOn_ne_nil]) padded
    rwa [Text.intercalate_splitOn] at listed

theorem separable_argumentsOf (inner : List Char) : Separable (argumentsOf inner) := by
  rw [argumentsOf]
  split
  · exact ⟨nofun, nofun, nofun⟩
  · rename_i visible
    refine ⟨List.forall_mem_map.mpr fun cell member inside =>
        Text.not_mem_of_mem_splitOn member (Text.mem_of_mem_trim inside),
      List.forall_mem_map.mpr fun cell _ => Text.trim_trim cell, fun single => visible ?_⟩
    obtain ⟨cell, parted, empty⟩ := List.map_eq_singleton_iff.mp single
    have whole := Text.intercalate_splitOn ',' inner
    rw [parted, List.intercalate_singleton] at whole
    rw [← whole, empty]
    rfl

/-- Arguments that can be told apart are found again. -/
theorem argumentsOf_of_listed (separable : Separable arguments)
    (listed : Listed arguments inner) : argumentsOf inner = arguments := by
  cases listed with
  | none blanks => rw [argumentsOf, if_pos (isEmpty_trim_iff.mpr blanks)]
  | @some arguments cells present padded =>
    have visible : ¬ (trim ([','].intercalate cells)).isEmpty = true := by
      rw [isEmpty_trim_iff]
      intro blanks
      cases padded with
      | nil => exact present rfl
      | cons first rest =>
        cases rest with
        | nil =>
          rw [List.intercalate_singleton] at blanks
          have empty := (Text.trim_of_padded first).symm.trans (Text.trim_of_blanks blanks)
          rw [separable.trimmed _ List.mem_cons_self] at empty
          exact separable.visible (by rw [empty])
        | cons second rest =>
          rw [List.intercalate_cons_cons] at blanks
          exact Text.not_mem_of_blanks (c := ',') blanks (by decide) (by simp)
    rw [argumentsOf, if_neg visible,
      Text.splitOn_of_padded padded (by decide) separable.free separable.trimmed present]

/-! ## Calls -/

def IsCall (word : List Char) (arguments : List (List Char)) (text : List Char) : Prop :=
  ∃ before head inner after, Blanks before ∧ Blanks after ∧ Padded word head ∧
    Listed arguments inner ∧ text = before ++ (head ++ '(' :: (inner ++ [')']) ++ after)

/-- A text that is cut into a name and arguments has an opening bracket behind the name, and ends in
a closing one. -/
theorem splitCall_eq_ok_iff : splitCall text = .ok (name, arguments) ↔
    ∃ before inner, trim text = before ++ '(' :: (inner ++ [')']) ∧ '(' ∉ before ∧
      Text.lower (trim before) = name ∧ name ≠ [] ∧ argumentsOf inner = arguments := by
  constructor
  · intro read
    simp only [splitCall] at read
    split at read
    · cases read
    · rename_i before rest cut
      obtain ⟨whole, free⟩ := Text.eq_of_cutAt?_eq_some cut
      split at read
      · cases read
      · rename_i inner stripped
        obtain rfl := Text.eq_of_stripLast?_eq_some stripped
        refine ⟨before, inner, whole, free, ?_⟩
        split at read
        · cases read
        · rename_i present
          rw [List.isEmpty_iff] at present
          split at read
          · rename_i empty
            cases read
            exact ⟨rfl, present, if_pos empty⟩
          · rename_i visible
            cases read
            exact ⟨rfl, present, if_neg visible⟩
  · rintro ⟨before, inner, whole, free, rfl, present, rfl⟩
    rw [ne_eq, ← List.isEmpty_iff] at present
    simp only [splitCall, whole, Text.cutAt?_append free, Text.stripLast?_append, if_neg present,
      argumentsOf]
    split <;> rfl

theorem trim_of_isCall (call : IsCall word arguments text) :
    ∃ head inner, Padded word head ∧ Listed arguments inner ∧
      trim text = trimStart head ++ '(' :: (inner ++ [')']) := by
  obtain ⟨before, head, inner, after, blanks, blanksAfter, padded, listed, rfl⟩ := call
  refine ⟨head, inner, padded, listed, ?_⟩
  rw [Text.trim_padded blanks blanksAfter, Text.trim_append_cons (by decide),
    Text.trimEnd_append_cons (by decide)]
  rfl

/-- A call is cut into its word, in lower case, and its arguments. -/
theorem splitCall_of_isCall (call : IsCall word arguments text) (lowered : Text.lower word = name)
    (present : name ≠ []) (plain : '(' ∉ word) (trimmed : trim word = word)
    (separable : Separable arguments) : splitCall text = .ok (name, arguments) := by
  obtain ⟨head, inner, padded, listed, whole⟩ := trim_of_isCall call
  have free : '(' ∉ trimStart head := fun member =>
    Text.not_mem_of_padded padded (by decide) plain (Text.mem_of_mem_trimStart member)
  have own : trim (trimStart head) = word := by
    rw [Text.trim_trimStart, Text.trim_of_padded padded, trimmed]
  exact splitCall_eq_ok_iff.mpr ⟨_, inner, whole, free, by rw [own, lowered], present,
    argumentsOf_of_listed separable listed⟩

theorem isCall_of_splitCall (read : splitCall text = .ok (name, arguments)) :
    ∃ word, Text.lower word = name ∧ IsCall word arguments text ∧ Separable arguments := by
  obtain ⟨before, inner, whole, -, lowered, -, rfl⟩ := splitCall_eq_ok_iff.mp read
  obtain ⟨leading, trailing, blanks, blanksAfter, padded⟩ := Text.padded_trim text
  refine ⟨trim before, lowered, ?_, separable_argumentsOf inner⟩
  refine ⟨leading, before, inner, trailing, blanks, blanksAfter, Text.padded_trim before,
    listed_argumentsOf inner, ?_⟩
  rwa [whole] at padded

/-! ## Keywords -/

inductive Keyword where
  | select
  | rangeSelect
  | rangeAnd
  | rangeOr
deriving DecidableEq

namespace Keyword

def spelling : Keyword → String
  | select => "select"
  | rangeSelect => "rangeselect"
  | rangeAnd => "rangeand"
  | rangeOr => "rangeor"

def Takes : Keyword → Nat → Prop
  | select, count => count = 1
  | rangeSelect, count => count = 5
  | rangeAnd, count => ∃ k, 1 ≤ k ∧ count = 3 * k + 1
  | rangeOr, count => ∃ k, 1 ≤ k ∧ count = 3 * k + 1

def expected : Keyword → String
  | select => "1"
  | rangeSelect => "5"
  | rangeAnd => "3k+1"
  | rangeOr => "3k+1"

theorem isKeywordLetter (keyword : Keyword) :
    ∀ c ∈ keyword.spelling.toList, Text.IsKeywordLetter c := by
  cases keyword <;> simp [spelling] <;> decide

theorem spelling_ne_nil (keyword : Keyword) : keyword.spelling.toList ≠ [] := by
  cases keyword <;> decide

theorem lower_eq_iff {keyword : Keyword} :
    Text.lower word = keyword.spelling.toList ↔ InAnyCase keyword.spelling word :=
  Text.lower_eq_iff keyword.isKeywordLetter

/-- In a keyword there are neither brackets nor blanks. -/
theorem plain_of_inAnyCase {keyword : Keyword} (anyCase : InAnyCase keyword.spelling word) :
    '(' ∉ word ∧ trim word = word := by
  have letter := anyCase.letter keyword.isKeywordLetter
  refine ⟨fun member => absurd (letter _ member) (by decide), Text.trim_of_visible ?_⟩
  intro c member
  have range := (letter c member).range
  exact Text.isBlank_of_range ⟨by omega, range.2⟩

end Keyword

/-- A text that calls a keyword with so many arguments: what stands before its first opening bracket
is the keyword in any letter case, and it ends in a closing bracket, where blanks do not count. -/
def Calls (text : String) (keyword : Keyword) (count : Nat) : Prop :=
  ∃ before inner, trim text.toList = before ++ '(' :: (inner ++ [')']) ∧ '(' ∉ before ∧
    InAnyCase keyword.spelling (trim before) ∧ argumentCount inner = count

theorem calls_iff {text : String} {keyword : Keyword} {count : Nat} : Calls text keyword count ↔
    ∃ arguments, splitCall text.toList = .ok (keyword.spelling.toList, arguments) ∧
      arguments.length = count := by
  simp only [splitCall_eq_ok_iff, Keyword.lower_eq_iff]
  constructor
  · rintro ⟨before, inner, whole, free, lowered, counted⟩
    exact ⟨argumentsOf inner, ⟨before, inner, whole, free, lowered, keyword.spelling_ne_nil, rfl⟩,
      (length_argumentsOf inner).trans counted⟩
  · rintro ⟨_, ⟨before, inner, whole, free, lowered, -, rfl⟩, counted⟩
    exact ⟨before, inner, whole, free, lowered, (length_argumentsOf inner).symm.trans counted⟩

/-! ## Transforms as they are written -/

def keyword : Transform → Keyword
  | select _ => .select
  | rangeSelect .. => .rangeSelect
  | rangeAnd .. => .rangeAnd
  | rangeOr .. => .rangeOr

def fields : Transform → List String
  | select field => [field]
  | rangeSelect field _ _ other _ => [field, other]
  | rangeAnd ranges field => ranges.map FieldRange.field ++ [field]
  | rangeOr ranges field => ranges.map FieldRange.field ++ [field]

def IsFilled : Transform → Prop
  | select field => field ≠ ""
  | rangeSelect .. => True
  | rangeAnd ranges _ => ranges ≠ []
  | rangeOr ranges _ => ranges ≠ []

/-- A transform whose fields can be told apart in a text. They may well contain brackets. -/
structure Writable (t : Transform) : Prop where
  trimmed : ∀ field ∈ t.fields, trim field.toList = field.toList
  free : ∀ field ∈ t.fields, ',' ∉ field.toList
  filled : t.IsFilled

def IsNumber (x : Float) (text : List Char) : Prop :=
  ',' ∉ text ∧ Decimal.readFloat? text = some x

inductive IsTriple : FieldRange → List (List Char) → Prop
  | triple {field : String} {min max : Float} {minText maxText : List Char}
    (readsMin : IsNumber min minText) (readsMax : IsNumber max maxText) :
    IsTriple ⟨field, min, max⟩ [field.toList, minText, maxText]

inductive HasArguments : Transform → List (List Char) → Prop
  | select {field : String} : HasArguments (.select field) [field.toList]
  | rangeSelect {field other : String} {min max default : Float}
    {minText maxText defaultText : List Char} (readsMin : IsNumber min minText)
    (readsMax : IsNumber max maxText) (readsDefault : IsNumber default defaultText) :
    HasArguments (.rangeSelect field min max other default)
      [field.toList, minText, maxText, other.toList, defaultText]
  | rangeAnd {ranges : List FieldRange} {triples : List (List (List Char))} {field : String}
    (listed : List.Forall₂ IsTriple ranges triples) :
    HasArguments (.rangeAnd ranges field) (triples.flatten ++ [field.toList])
  | rangeOr {ranges : List FieldRange} {triples : List (List (List Char))} {field : String}
    (listed : List.Forall₂ IsTriple ranges triples) :
    HasArguments (.rangeOr ranges field) (triples.flatten ++ [field.toList])

/-- A text of a transform: its keyword in any letter case and its arguments in brackets. There may
be blanks around the whole, the keyword and every argument. -/
def IsWritten (t : Transform) (text : String) : Prop :=
  ∃ word arguments, InAnyCase t.keyword.spelling word ∧ t.HasArguments arguments ∧
    IsCall word arguments text.toList

/-! ## Reading arguments -/

variable {t : Transform} {ranges : List FieldRange} {field : String}

theorem number_eq_ok_iff {x : Float} :
    RuleText.number word = .ok x ↔ Decimal.readFloat? word = some x := by
  rw [RuleText.number]
  cases Decimal.readFloat? word <;> simp

def rangeOf (field min max : List Char) : Except RuleError FieldRange := do
  return ⟨String.ofList field, ← RuleText.number min, ← RuleText.number max⟩

theorem rangesAndField_cons (field min max : List Char) (rest : List (List Char)) :
    rangesAndField (field :: min :: max :: rest) = (rangesAndField rest).map fun read =>
      (do return (← rangeOf field min max) :: (← read.1), read.2) := by
  rw [rangesAndField]
  cases rangesAndField rest <;> rfl

/-- Arguments are ranges and a field if there is one more of them than a multiple of three. -/
theorem rangesAndField_eq_none_iff :
    rangesAndField arguments = none ↔ arguments.length % 3 ≠ 1 := by
  induction arguments using rangesAndField.induct with
  | case1 field => simp [rangesAndField]
  | case2 field min max rest inductionHypothesis =>
    rw [rangesAndField_cons, Option.map_eq_none_iff, inductionHypothesis]
    simp only [List.length_cons]
    omega
  | case3 arguments single triple =>
    refine iff_of_true (rangesAndField.eq_3 arguments single triple) ?_
    match arguments with
    | [] => decide
    | [_] => exact absurd rfl (single _)
    | [_, _] => simp
    | _ :: _ :: _ :: _ => exact absurd rfl (triple _ _ _ _)

theorem rangeOf_of_isTriple {range : FieldRange} {triple : List (List Char)}
    (isTriple : IsTriple range triple) :
    ∃ name min max, triple = [name, min, max] ∧ rangeOf name min max = .ok range := by
  obtain ⟨readsMin, readsMax⟩ := isTriple
  refine ⟨_, _, _, rfl, ?_⟩
  rw [rangeOf, number_eq_ok_iff.mpr readsMin.2, number_eq_ok_iff.mpr readsMax.2,
    String.ofList_toList]
  rfl

theorem isTriple_of_rangeOf {range : FieldRange} {name min max : List Char}
    (freeMin : ',' ∉ min) (freeMax : ',' ∉ max) (read : rangeOf name min max = .ok range) :
    IsTriple range [name, min, max] := by
  simp only [rangeOf, bind_eq_ok_iff, number_eq_ok_iff, pure_eq_ok_iff] at read
  obtain ⟨low, readsMin, high, readsMax, rfl⟩ := read
  have triple : IsTriple ⟨String.ofList name, low, high⟩ [(String.ofList name).toList, min, max] :=
    .triple ⟨freeMin, readsMin⟩ ⟨freeMax, readsMax⟩
  rwa [String.toList_ofList] at triple

theorem rangesAndField_of_triples {triples : List (List (List Char))}
    (listed : List.Forall₂ IsTriple ranges triples) (field : String) :
    rangesAndField (triples.flatten ++ [field.toList]) = some (.ok ranges, field) := by
  induction listed with
  | nil => simp [rangesAndField]
  | cons first _ inductionHypothesis =>
    obtain ⟨name, min, max, rfl, range⟩ := rangeOf_of_isTriple first
    simp only [List.flatten_cons, List.cons_append, List.nil_append, rangesAndField_cons,
      inductionHypothesis, range]
    rfl

theorem triples_of_rangesAndField (free : ∀ argument ∈ arguments, ',' ∉ argument)
    (read : rangesAndField arguments = some (.ok ranges, field)) :
    ∃ triples, List.Forall₂ IsTriple ranges triples ∧
      arguments = triples.flatten ++ [field.toList] := by
  induction arguments using rangesAndField.induct generalizing ranges with
  | case1 name =>
    obtain ⟨rfl, rfl⟩ : ranges = [] ∧ String.ofList name = field := by
      simpa [rangesAndField, eq_comm] using read
    exact ⟨[], .nil, by simp⟩
  | case2 name min max rest inductionHypothesis =>
    simp only [List.forall_mem_cons] at free
    obtain ⟨-, freeMin, freeMax, freeRest⟩ := free
    rw [rangesAndField_cons] at read
    obtain ⟨⟨tail, result⟩, readRest, whole⟩ := Option.map_eq_some_iff.mp read
    simp only [Prod.mk.injEq, bind_eq_ok_iff, pure_eq_ok_iff] at whole
    obtain ⟨⟨range, first, others, rfl, rfl⟩, rfl⟩ := whole
    obtain ⟨triples, listed, rfl⟩ := inductionHypothesis freeRest readRest
    exact ⟨_ :: triples, .cons (isTriple_of_rangeOf freeMin freeMax first) listed, rfl⟩
  | case3 arguments single triple =>
    rw [rangesAndField.eq_3 arguments single triple] at read
    cases read

theorem length_triples {triples : List (List (List Char))}
    (listed : List.Forall₂ IsTriple ranges triples) :
    triples.flatten.length = 3 * ranges.length := by
  induction listed with
  | nil => rfl
  | cons first _ inductionHypothesis =>
    obtain ⟨name, min, max, rfl, -⟩ := rangeOf_of_isTriple first
    simp only [List.flatten_cons, List.length_append, List.length_cons, List.length_nil,
      inductionHypothesis]
    omega

theorem nonempty_of_triples {triples : List (List (List Char))} {last : List Char} {n : Nat}
    (listed : List.Forall₂ IsTriple ranges triples)
    (several : (triples.flatten ++ [last]).length = n + 4) : ranges ≠ [] := by
  rintro rfl
  cases listed
  cases several

theorem mem_triples {triples : List (List (List Char))} {range : FieldRange}
    (listed : List.Forall₂ IsTriple ranges triples) (member : range ∈ ranges) :
    range.field.toList ∈ triples.flatten := by
  induction listed with
  | nil => cases member
  | cons first _ inductionHypothesis =>
    rw [List.flatten_cons, List.mem_append]
    rw [List.mem_cons] at member
    rcases member with rfl | behind
    · cases first
      exact .inl List.mem_cons_self
    · exact .inr (inductionHypothesis behind)

theorem of_mem_triples {triples : List (List (List Char))} {argument : List Char}
    (listed : List.Forall₂ IsTriple ranges triples) (member : argument ∈ triples.flatten) :
    (∃ range ∈ ranges, argument = range.field.toList) ∨ ∃ x, IsNumber x argument := by
  induction listed with
  | nil => cases member
  | cons first _ inductionHypothesis =>
    rw [List.flatten_cons, List.mem_append] at member
    rcases member with here | behind
    · obtain ⟨readsMin, readsMax⟩ := first
      simp only [List.mem_cons, List.not_mem_nil, or_false] at here
      rcases here with rfl | rfl | rfl
      · exact .inl ⟨_, List.mem_cons_self, rfl⟩
      · exact .inr ⟨_, readsMin⟩
      · exact .inr ⟨_, readsMax⟩
    · rcases inductionHypothesis behind with ⟨range, others, same⟩ | number
      · exact .inl ⟨range, List.mem_cons_of_mem _ others, same⟩
      · exact .inr number

/-- The fields of a transform are among its arguments. -/
theorem HasArguments.mem_of_field (has : t.HasArguments arguments) (member : field ∈ t.fields) :
    field.toList ∈ arguments := by
  have among {ranges : List FieldRange} {triples : List (List (List Char))} {last : String}
      (listed : List.Forall₂ IsTriple ranges triples)
      (member : field ∈ ranges.map FieldRange.field ++ [last]) :
      field.toList ∈ triples.flatten ++ [last.toList] := by
    rw [List.mem_append, List.mem_map, List.mem_singleton] at member
    rw [List.mem_append, List.mem_singleton]
    rcases member with ⟨range, inside, rfl⟩ | rfl
    · exact .inl (mem_triples listed inside)
    · exact .inr rfl
  cases has with
  | select =>
    rw [List.mem_singleton.mp member]
    exact List.mem_singleton.mpr rfl
  | rangeSelect =>
    simp only [fields, List.mem_cons, List.not_mem_nil, or_false] at member
    rcases member with rfl | rfl <;> simp
  | rangeAnd listed | rangeOr listed => exact among listed member

/-- What is an argument of a transform is one of its fields, or the text of a number. -/
theorem HasArguments.field_or_number (has : t.HasArguments arguments) {argument : List Char}
    (member : argument ∈ arguments) :
    (∃ field ∈ t.fields, argument = field.toList) ∨ ∃ x, IsNumber x argument := by
  have either {ranges : List FieldRange} {triples : List (List (List Char))} {last : String}
      (listed : List.Forall₂ IsTriple ranges triples)
      (member : argument ∈ triples.flatten ++ [last.toList]) :
      (∃ field ∈ ranges.map FieldRange.field ++ [last], argument = field.toList) ∨
        ∃ x, IsNumber x argument := by
    rw [List.mem_append, List.mem_singleton] at member
    rcases member with inside | rfl
    · rcases of_mem_triples listed inside with ⟨range, among, rfl⟩ | number
      · exact .inl ⟨_, List.mem_append_left _ (List.mem_map_of_mem among), rfl⟩
      · exact .inr number
    · exact .inl ⟨last, by simp, rfl⟩
  cases has with
  | select => exact .inl ⟨_, List.mem_cons_self, List.mem_singleton.mp member⟩
  | rangeSelect readsMin readsMax readsDefault =>
    simp only [List.mem_cons, List.not_mem_nil, or_false] at member
    rcases member with rfl | rfl | rfl | rfl | rfl
    · exact .inl ⟨_, by simp [fields], rfl⟩
    · exact .inr ⟨_, readsMin⟩
    · exact .inr ⟨_, readsMax⟩
    · exact .inl ⟨_, by simp [fields], rfl⟩
    · exact .inr ⟨_, readsDefault⟩
  | rangeAnd listed | rangeOr listed => exact either listed member

/-! ## Reading calls -/

/-- A transform has as many arguments as its keyword takes. -/
theorem HasArguments.takes (has : t.HasArguments arguments) (filled : t.IsFilled) :
    t.keyword.Takes arguments.length := by
  cases has with
  | select => rfl
  | rangeSelect => rfl
  | rangeAnd listed | rangeOr listed =>
    refine ⟨_, List.length_pos_iff.mpr filled, ?_⟩
    rw [List.length_append, length_triples listed]
    rfl

/-- A keyword refuses the counts of arguments that it does not take. -/
theorem ofCall_of_not_takes {keyword : Keyword} (wrong : ¬ keyword.Takes arguments.length) :
    ofCall keyword.spelling.toList arguments =
      .error (.arity keyword.spelling keyword.expected arguments.length) := by
  have cut {n : Nat} {read : Except RuleError (List FieldRange) × String}
      (several : arguments.length = n + 4) (found : rangesAndField arguments = some read) :
      ∃ k, 1 ≤ k ∧ arguments.length = 3 * k + 1 := by
    have one : arguments.length % 3 = 1 := by
      by_contra other
      rw [rangesAndField_eq_none_iff.mpr other] at found
      cases found
    exact ⟨arguments.length / 3, by omega, by omega⟩
  cases keyword with
  | select | rangeSelect =>
    simp only [ofCall, Keyword.spelling, Keyword.expected, String.ofList_toList]
    split
    · exact absurd rfl wrong
    · rfl
  | rangeAnd | rangeOr =>
    simp only [ofCall, Keyword.spelling, Keyword.expected, String.ofList_toList]
    split
    · rename_i several found
      exact absurd (cut several found) wrong
    · rfl

/-- The arguments of a transform are read as that transform. -/
theorem ofCall_of_hasArguments (has : t.HasArguments arguments) (filled : t.IsFilled) :
    ofCall t.keyword.spelling.toList arguments = .ok t := by
  have several {ranges : List FieldRange} {triples : List (List (List Char))} {field : String}
      (listed : List.Forall₂ IsTriple ranges triples) (nonempty : ranges ≠ []) :
      ∃ n, (triples.flatten ++ [field.toList]).length = n + 4 := by
    have positive := List.length_pos_iff.mpr nonempty
    rw [List.length_append, length_triples listed]
    exact ⟨3 * (ranges.length - 1), by simp only [List.length_singleton]; omega⟩
  cases has with
  | @select field =>
    have present : ¬ field.toList.isEmpty = true := fun empty =>
      filled (String.toList_eq_nil_iff.mp (List.isEmpty_iff.mp empty))
    simp only [ofCall, keyword, Keyword.spelling, String.ofList_toList, if_neg present]
  | rangeSelect readsMin readsMax readsDefault =>
    simp only [ofCall, keyword, Keyword.spelling, String.ofList_toList,
      number_eq_ok_iff.mpr readsMin.2, number_eq_ok_iff.mpr readsMax.2,
      number_eq_ok_iff.mpr readsDefault.2]
    rfl
  | rangeAnd listed | rangeOr listed =>
    obtain ⟨n, length⟩ := several listed filled
    simp only [ofCall, keyword, Keyword.spelling, String.ofList_toList]
    rw [length, rangesAndField_of_triples listed]
    rfl

/-- Arguments that are read as a transform are the arguments of that transform. -/
theorem hasArguments_of_ofCall (free : ∀ argument ∈ arguments, ',' ∉ argument)
    (read : ofCall name arguments = .ok t) :
    name = t.keyword.spelling.toList ∧ t.HasArguments arguments ∧ t.IsFilled := by
  have spelled {spelling : String} (same : String.ofList name = spelling) :
      name = spelling.toList := by rw [← same, String.toList_ofList]
  simp only [ofCall] at read
  split at read
  · rename_i called
    split at read
    · rename_i field
      split at read
      · cases read
      · rename_i present
        cases read
        have has : HasArguments (.select _) [(String.ofList field).toList] := .select
        rw [String.toList_ofList] at has
        exact ⟨spelled called, has, fun empty =>
          present (List.isEmpty_iff.mpr (String.ofList_eq_empty_iff.mp empty))⟩
    · cases read
  · rename_i called
    split at read
    · simp only [bind_eq_ok_iff, number_eq_ok_iff, pure_eq_ok_iff] at read
      obtain ⟨min, readsMin, max, readsMax, default, readsDefault, rfl⟩ := read
      rename_i field minText maxText other defaultText
      simp only [List.forall_mem_cons] at free
      obtain ⟨-, freeMin, freeMax, -, freeDefault, -⟩ := free
      have has : HasArguments (.rangeSelect _ min max _ default)
          [(String.ofList field).toList, minText, maxText, (String.ofList other).toList,
            defaultText] :=
        .rangeSelect ⟨freeMin, readsMin⟩ ⟨freeMax, readsMax⟩ ⟨freeDefault, readsDefault⟩
      rw [String.toList_ofList, String.toList_ofList] at has
      exact ⟨spelled called, has, trivial⟩
    · cases read
  · rename_i called
    split at read
    · rename_i several found
      obtain ⟨ranges, rfl, rfl⟩ := map_eq_ok_iff.mp read
      obtain ⟨triples, listed, rfl⟩ := triples_of_rangesAndField free found
      exact ⟨spelled called, .rangeAnd listed, nonempty_of_triples listed several⟩
    · cases read
  · rename_i called
    split at read
    · rename_i several found
      obtain ⟨ranges, rfl, rfl⟩ := map_eq_ok_iff.mp read
      obtain ⟨triples, listed, rfl⟩ := triples_of_rangesAndField free found
      exact ⟨spelled called, .rangeOr listed, nonempty_of_triples listed several⟩
    · cases read
  · cases read

/-! ## Reading texts -/

/-- Names of fields without commas and blanks at their ends make arguments that can be told apart. -/
theorem separable_of_writable (writable : t.Writable) (has : t.HasArguments arguments) :
    Separable arguments where
  free argument member := by
    rcases has.field_or_number member with ⟨field, among, rfl⟩ | ⟨x, number⟩
    · exact writable.free field among
    · exact number.1
  trimmed argument member := by
    rcases has.field_or_number member with ⟨field, among, rfl⟩ | ⟨x, number⟩
    · exact writable.trimmed field among
    · exact Text.trim_of_visible fun c inside => (CompactRule.plain_of_readFloat? number.2 c inside).2
  visible := by
    rintro rfl
    have takes := has.takes writable.filled
    cases t with
    | select field =>
      have own := has.mem_of_field (List.mem_singleton.mpr rfl)
      exact writable.filled (String.toList_eq_nil_iff.mp (List.mem_singleton.mp own))
    | rangeSelect => cases takes
    | rangeAnd | rangeOr =>
      obtain ⟨k, positive, one⟩ := takes
      rw [List.length_singleton] at one
      omega

theorem parse_eq_ok_iff {text : String} : parse text = .ok t ↔
    ∃ name arguments, splitCall text.toList = .ok (name, arguments) ∧
      ofCall name arguments = .ok t := by
  rw [parse, bind_eq_ok_iff, Prod.exists]

theorem parse_of_isWritten {text : String} (writable : t.Writable) (written : t.IsWritten text) :
    parse text = .ok t := by
  obtain ⟨word, arguments, anyCase, has, call⟩ := written
  obtain ⟨noBracket, trimmed⟩ := Keyword.plain_of_inAnyCase anyCase
  exact parse_eq_ok_iff.mpr ⟨t.keyword.spelling.toList, arguments,
    splitCall_of_isCall call (Keyword.lower_eq_iff.mpr anyCase) t.keyword.spelling_ne_nil noBracket
      trimmed (separable_of_writable writable has),
    ofCall_of_hasArguments has writable.filled⟩

theorem isWritten_of_parse {text : String} (read : parse text = .ok t) :
    t.Writable ∧ t.IsWritten text := by
  obtain ⟨name, arguments, cut, called⟩ := parse_eq_ok_iff.mp read
  obtain ⟨word, lowered, call, separable⟩ := isCall_of_splitCall cut
  obtain ⟨rfl, has, filled⟩ := hasArguments_of_ofCall separable.free called
  exact ⟨⟨fun field member => separable.trimmed _ (has.mem_of_field member),
    fun field member => separable.free _ (has.mem_of_field member), filled⟩,
    word, arguments, Keyword.lower_eq_iff.mp lowered, has, call⟩

/-- The texts of a transform are read as that transform, and whatever is read is a text of what it
is read as: a call of its keyword with a count of arguments that the keyword takes. A call of a
keyword with any other count is refused with that count. -/
theorem parse_eq_ok_iff_isWritten (text : String) :
    (∀ t, parse text = .ok t ↔ t.Writable ∧ t.IsWritten text) ∧
    (∀ t, parse text = .ok t → ∃ count, t.keyword.Takes count ∧ Calls text t.keyword count) ∧
    ∀ keyword count, Calls text keyword count → ¬ keyword.Takes count →
      parse text = .error (.arity keyword.spelling keyword.expected count) := by
  refine ⟨fun t => ⟨isWritten_of_parse, fun written => parse_of_isWritten written.1 written.2⟩,
    fun t read => ?_, fun keyword count calls wrong => ?_⟩
  · obtain ⟨name, arguments, cut, called⟩ := parse_eq_ok_iff.mp read
    obtain ⟨_, _, _, separable⟩ := isCall_of_splitCall cut
    obtain ⟨rfl, has, filled⟩ := hasArguments_of_ofCall separable.free called
    exact ⟨arguments.length, has.takes filled, calls_iff.mpr ⟨arguments, cut, rfl⟩⟩
  · obtain ⟨arguments, cut, rfl⟩ := calls_iff.mp calls
    rw [parse, cut]
    exact ofCall_of_not_takes wrong

/-- A field may have brackets and a keyword capitals. A call with six arguments is refused. -/
theorem bracketed_field_read :
    parse " RangeAnd (load(1), 0,1e1 ,b,-inf,+.5, value)\t" =
        .ok (.rangeAnd [⟨"load(1)", 0, 10⟩, ⟨"b", Binary64.negInfinity, 0.5⟩] "value") ∧
      parse "rangeor(a,1,2,b,3,value)" = .error (.arity "rangeor" "3k+1" 6) := by
  have behind (part : List Char) : Padded part (' ' :: part) :=
    ⟨[' '], [], Text.blanks_of_all rfl, Text.blanks_nil, by simp⟩
  have before (part : List Char) : Padded part (part ++ [' ']) :=
    ⟨[], [' '], Text.blanks_nil, Text.blanks_of_all rfl, rfl⟩
  constructor
  · refine ((parse_eq_ok_iff_isWritten _).1 _).mpr ⟨⟨by decide, by decide, List.cons_ne_nil _ _⟩, ?_⟩
    have load : IsTriple ⟨"load(1)", 0, 10⟩ ["load(1)".toList, "0".toList, "1e1".toList] :=
      .triple ⟨by decide, by decide +kernel⟩ ⟨by decide, by decide +kernel⟩
    have b : IsTriple ⟨"b", Binary64.negInfinity, 0.5⟩ ["b".toList, "-inf".toList, "+.5".toList] :=
      .triple ⟨by decide, by decide +kernel⟩ ⟨by decide, by decide +kernel⟩
    refine ⟨"RangeAnd".toList, _, by decide, .rangeAnd (.cons load (.cons b .nil)), ?_⟩
    refine ⟨[' '], _, _, ['\t'], Text.blanks_of_all rfl, Text.blanks_of_all rfl, before _,
      .some (List.cons_ne_nil _ _) (.cons (Text.padded_self _) (.cons (behind _) (.cons (before _)
        (.cons (Text.padded_self _) (.cons (Text.padded_self _) (.cons (Text.padded_self _)
          (.cons (behind _) .nil))))))), by decide⟩
  · exact (parse_eq_ok_iff_isWritten _).2.2 .rangeOr 6
      ⟨"rangeor".toList, "a,1,2,b,3,value".toList, by decide, by decide, by decide, by decide⟩
      (by rintro ⟨k, -, six⟩; omega)

end AlertEngine.Transform
