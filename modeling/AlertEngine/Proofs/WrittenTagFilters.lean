import AlertEngine.Proofs.DispatchIndex
import AlertEngine.Proofs.TagFilterReading
import Mathlib.Data.List.Forall2

/-! # Tag filters from their text to the metrics they let in

A list of filters is written as one text, and a monitor whose strategy has that text accepts the
metrics that meet every one of the filters.

* `TagFilter.Writable`: filters that have a text; `TagFilter.IsWritten`, `TagFilter.IsText`: the
  texts of a filter and of a list of filters, with blanks between the parts.
* `TagFilter.parse_of_isText`: such a text is read as these filters, in their order.
* `Metric.HasTag`, `TagFilter.Wants`: what a metric says of a tag, and what a filter asks of it.
* `Monitor.accepts_of_written_filters`: the metrics that a monitor with such a text accepts.
-/

namespace AlertEngine

open Text (Blanks Padded trim)

/-! ## Texts of filters -/

namespace TagMatch

def marker : TagMatch → List Char
  | equal => []
  | notEqual => ['!']
  | startsWith => ['^']
  | endsWith => ['$']
  | contains => ['*']

theorem ofMarker?_eq_none {c : Char} (plain : c ∉ ['^', '$', '*', '!']) : ofMarker? c = none := by
  simp only [List.mem_cons, List.not_mem_nil, or_false, not_or] at plain
  obtain ⟨prefixed, suffixed, contained, negated⟩ := plain
  unfold ofMarker?
  split <;> trivial

/-- A kind of match has no marker, or one that stands for it. -/
theorem marker_cases (kind : TagMatch) :
    kind = equal ∧ kind.marker = [] ∨ ∃ c, kind.marker = [c] ∧ ofMarker? c = some kind := by
  cases kind with
  | equal => exact .inl ⟨rfl, rfl⟩
  | notEqual => exact .inr ⟨'!', rfl, rfl⟩
  | startsWith => exact .inr ⟨'^', rfl, rfl⟩
  | endsWith => exact .inr ⟨'$', rfl, rfl⟩
  | contains => exact .inr ⟨'*', rfl, rfl⟩

end TagMatch

namespace TagFilter

variable {f : TagFilter} {filters : List TagFilter} {cell : List Char} {cells : List (List Char)}
  {text : String}

structure Writable (f : TagFilter) : Prop where
  key : f.key ≠ ""
  keyTrimmed : trim f.key.toList = f.key.toList
  keyFree : ',' ∉ f.key.toList ∧ '=' ∉ f.key.toList
  keyUnmarked : f.kind = .equal → ∀ c, f.key.toList.getLast? = some c → c ∉ ['^', '$', '*', '!']
  needles : f.needles ≠ []
  needlesTrimmed : ∀ needle ∈ f.needles, trim needle.toList = needle.toList
  needlesFree : ∀ needle ∈ f.needles, ',' ∉ needle.toList ∧ '|' ∉ needle.toList

/-- A text of a filter: the key and its marker, an equals sign, and the needles in brackets with
bars between them. There may be blanks around each of these. -/
def IsWritten (f : TagFilter) (cell : List Char) : Prop :=
  ∃ key gap needles value,
    Padded f.key.toList key ∧ Blanks gap ∧
    List.Forall₂ Padded (f.needles.map String.toList) needles ∧
    Padded ('[' :: (['|'].intercalate needles ++ [']'])) value ∧
    cell = key ++ (f.kind.marker ++ gap) ++ '=' :: value

inductive Listed : List TagFilter → List (List Char) → Prop
  | nil : Listed [] []
  | blank {filters : List TagFilter} {cell : List Char} {cells : List (List Char)}
    (blanks : Blanks cell) (rest : Listed filters cells) : Listed filters (cell :: cells)
  | filter {f : TagFilter} {filters : List TagFilter} {cell : List Char}
    {cells : List (List Char)} (written : f.IsWritten cell) (rest : Listed filters cells) :
    Listed (f :: filters) (cell :: cells)

def IsText (filters : List TagFilter) (text : String) : Prop :=
  ∃ cells, Listed filters cells ∧ text.toList = [','].intercalate cells

/-! ### Reading one filter -/

/-- What is neither a blank nor a marker stands before the equals sign only if it is in the key. -/
theorem not_mem_marked_key {key gap : List Char} {c : Char} (padded : Padded f.key.toList key)
    (blanks : Blanks gap) (visible : Text.isBlank c = false) (plain : c ∉ ['^', '$', '*', '!'])
    (free : c ∉ f.key.toList) : c ∉ key ++ (f.kind.marker ++ gap) := by
  have inKey := Text.not_mem_of_padded padded visible free
  have inGap := Text.not_mem_of_blanks blanks visible
  have inMarker : c ∉ f.kind.marker := by
    rcases f.kind.marker_cases with ⟨-, bare⟩ | ⟨mark, marked, marks⟩
    · simp [bare]
    · rw [marked, List.mem_singleton]
      rintro rfl
      rw [TagMatch.ofMarker?_eq_none plain] at marks
      cases marks
  simp [inKey, inGap, inMarker]

/-- The key of a written filter is cut from its marker, whatever blanks there are. -/
theorem cutMarker_of_written (writable : f.Writable) {key gap : List Char}
    (padded : Padded f.key.toList key) (blanks : Blanks gap) :
    ∃ rest, cutMarker (trim (key ++ (f.kind.marker ++ gap))) = (rest, f.kind) ∧
      trim rest = f.key.toList := by
  have trimmed : trim key = f.key.toList := (Text.trim_of_padded padded).trans writable.keyTrimmed
  rcases f.kind.marker_cases with ⟨equal, bare⟩ | ⟨c, marked, marks⟩
  · refine ⟨f.key.toList, ?_, writable.keyTrimmed⟩
    have whole : trim (key ++ ([] ++ gap)) = f.key.toList :=
      (Text.trim_padded Text.blanks_nil blanks key).trans trimmed
    rw [bare, whole, equal]
    exact cutMarker_unmarked fun c last =>
      TagMatch.ofMarker?_eq_none (writable.keyUnmarked equal c last)
  · refine ⟨Text.trimStart key, ?_, (Text.trim_trimStart key).trans trimmed⟩
    rw [marked, List.singleton_append, Text.trim_append_cons (TagMatch.marker_of_ofMarker? marks).1,
      Text.trimEnd_of_blanks blanks, cutMarker_marked marks]

theorem needlesOf_of_written (writable : f.Writable) {needles : List (List Char)}
    (padded : List.Forall₂ Padded (f.needles.map String.toList) needles) :
    (needlesOf ('[' :: (['|'].intercalate needles ++ [']']))).map String.ofList = f.needles := by
  have stripped : (Text.stripFirst? '[' ('[' :: (['|'].intercalate needles ++ [']']))).bind
      (Text.stripLast? ']') = some (['|'].intercalate needles) := by
    simp [Text.stripFirst?, Text.stripLast?_append]
  have cut : (Text.splitOn '|' (['|'].intercalate needles)).map trim =
      f.needles.map String.toList :=
    Text.splitOn_of_padded padded (by decide)
      (List.forall_mem_map.mpr fun needle member => (writable.needlesFree needle member).2)
      (List.forall_mem_map.mpr writable.needlesTrimmed)
      (by simpa using writable.needles)
  rw [needlesOf, stripped]
  simp [cut]

theorem parseOne_of_isWritten (writable : f.Writable) (written : f.IsWritten cell) :
    parseOne (trim cell) = .ok f := by
  obtain ⟨key, gap, needles, value, padded, blanks, listed, paddedValue, rfl⟩ := written
  obtain ⟨rest, marked, trimmed⟩ := cutMarker_of_written writable padded blanks
  have free : '=' ∉ key ++ (f.kind.marker ++ gap) :=
    not_mem_marked_key padded blanks (by decide) (by decide) writable.keyFree.2
  have brackets : trim value = '[' :: (['|'].intercalate needles ++ [']']) :=
    (Text.trim_of_padded paddedValue).trans
      (Text.trim_enclosed (by decide) (by decide) Text.blanks_nil Text.blanks_nil _)
  have present : f.key.toList.isEmpty = false := by
    simpa [List.isEmpty_eq_false_iff] using writable.key
  rw [parseOne_trim free, ofParts?, marked, brackets]
  simp only [trimmed, present, Bool.false_eq_true, if_false, needlesOf_of_written writable listed,
    String.ofList_toList]
  rfl

/-! ### Reading a list of filters -/

theorem comma_not_mem_of_isWritten (writable : f.Writable) (written : f.IsWritten cell) :
    ',' ∉ cell := by
  obtain ⟨key, gap, needles, value, padded, blanks, listed, paddedValue, rfl⟩ := written
  have inKey := not_mem_marked_key padded blanks (by decide) (by decide) writable.keyFree.1
  have inNeedles : ',' ∉ ['|'].intercalate needles :=
    Text.not_mem_intercalate (by decide) (Text.not_mem_of_forall_padded listed (by decide)
      (List.forall_mem_map.mpr fun needle member => (writable.needlesFree needle member).1))
  have inValue := Text.not_mem_of_padded paddedValue (c := ',') (by decide) (by simp [inNeedles])
  rw [List.mem_append, not_or]
  exact ⟨inKey, by simp [inValue]⟩

theorem isEmpty_trim_of_isWritten (written : f.IsWritten cell) : (trim cell).isEmpty = false := by
  obtain ⟨key, gap, needles, value, -, -, -, -, rfl⟩ := written
  rw [Text.trim_append_cons (by decide)]
  simp

theorem mapM_of_listed (writable : ∀ f ∈ filters, f.Writable) (listed : Listed filters cells) :
    (∀ cell ∈ cells, ',' ∉ cell) ∧
      ((cells.map trim).filter fun part => !part.isEmpty).mapM parseOne = .ok filters := by
  induction listed with
  | nil => exact ⟨by simp, rfl⟩
  | blank blanks _ inductionHypothesis =>
    obtain ⟨free, read⟩ := inductionHypothesis writable
    rw [List.forall_mem_cons, List.map_cons, Text.trim_of_blanks blanks]
    exact ⟨⟨Text.not_mem_of_blanks blanks (by decide), free⟩, read⟩
  | filter written _ inductionHypothesis =>
    rw [List.forall_mem_cons] at writable
    obtain ⟨free, read⟩ := inductionHypothesis writable.2
    rw [List.forall_mem_cons]
    refine ⟨⟨comma_not_mem_of_isWritten writable.1 written, free⟩, ?_⟩
    rw [List.map_cons, List.filter_cons_of_pos (by rw [isEmpty_trim_of_isWritten written]; rfl),
      List.mapM_cons, parseOne_of_isWritten writable.1 written, read]
    rfl

/-- A text of filters is read as these filters, in their order. -/
theorem parse_of_isText (writable : ∀ f ∈ filters, f.Writable) (written : IsText filters text) :
    parse text = .ok filters := by
  obtain ⟨cells, listed, joined⟩ := written
  obtain ⟨free, read⟩ := mapM_of_listed writable listed
  rcases eq_or_ne cells [] with rfl | nonempty
  · cases listed
    rw [parse, joined]
    rfl
  · rw [parse, joined, Text.splitOn_intercalate free nonempty, read]

/-! ## What filters ask of metrics -/

def Wants (f : TagFilter) (value : String) : Prop :=
  match f.kind with
  | .equal => ∃ needle ∈ f.needles, value = needle
  | .notEqual => value ≠ "" ∧ ∀ needle ∈ f.needles, value ≠ needle
  | .startsWith => ∃ needle ∈ f.needles, needle.toList <+: value.toList
  | .endsWith => ∃ needle ∈ f.needles, needle.toList <:+ value.toList
  | .contains => ∃ needle ∈ f.needles, needle.toList <:+: value.toList

instance (f : TagFilter) (value : String) : Decidable (f.Wants value) :=
  match f with
  | ⟨_, .equal, needles⟩ => inferInstanceAs (Decidable (∃ needle ∈ needles, value = needle))
  | ⟨_, .notEqual, needles⟩ =>
    inferInstanceAs (Decidable (value ≠ "" ∧ ∀ needle ∈ needles, value ≠ needle))
  | ⟨_, .startsWith, needles⟩ =>
    inferInstanceAs (Decidable (∃ needle ∈ needles, needle.toList <+: value.toList))
  | ⟨_, .endsWith, needles⟩ =>
    inferInstanceAs (Decidable (∃ needle ∈ needles, needle.toList <:+ value.toList))
  | ⟨_, .contains, needles⟩ =>
    inferInstanceAs (Decidable (∃ needle ∈ needles, needle.toList <:+: value.toList))

theorem admits_iff (nonempty : f.needles ≠ []) (value : String) :
    f.admits value = true ↔ f.Wants value := by
  obtain ⟨key, kind, needles⟩ := f
  cases kind with
  | equal => simp [admits, Wants, TagMatch.hits]
  | notEqual =>
    simp only [admits, Wants, TagMatch.hits, Bool.and_eq_true, Bool.not_eq_true',
      Bool.and_eq_false_iff, List.any_eq_false, String.isEmpty_iff, beq_iff_eq, ne_eq,
      Bool.not_eq_false]
    refine and_congr_left fun differs => ?_
    constructor
    · rintro (present | empty) rfl
      · simp at present
      · obtain ⟨needle, member⟩ := List.exists_mem_of_ne_nil needles nonempty
        have own : needle = "" := by simpa using empty needle member
        exact differs needle member own.symm
    · intro present
      exact .inl (by simpa [String.isEmpty_iff] using present)
  | startsWith => simp [admits, Wants, TagMatch.hits]
  | endsWith => simp [admits, Wants, TagMatch.hits]
  | contains => simp [admits, Wants, TagMatch.hits, Text.isInfix_iff]

end TagFilter

/-- A metric has a tag with a value. The endpoint is a tag as well, and hides one of that name. -/
def Metric.HasTag (m : Metric) (key value : String) : Prop :=
  if key = "endpoint" then value = m.endpoint else m.tags[key]? = some value

instance (m : Metric) (key value : String) : Decidable (m.HasTag key value) :=
  inferInstanceAs (Decidable (ite _ _ _))

theorem Metric.resolvedTags_eq_some {m : Metric} {key value : String} :
    m.resolvedTags[key]? = some value ↔ m.HasTag key value := by
  rw [resolvedTags, Std.ExtTreeMap.getElem?_insert, HasTag, endpointTag]
  by_cases endpoint : key = "endpoint"
  · simp [endpoint, eq_comm]
  · have other : ¬ compare "endpoint" key = .eq := fun same =>
      endpoint (Std.LawfulEqCmp.eq_of_compare same).symm
    rw [if_neg other, if_neg endpoint]

theorem TagFilter.accepts_iff {f : TagFilter} (nonempty : f.needles ≠ []) (m : Metric) :
    f.accepts m.resolvedTags = true ↔ ∃ value, m.HasTag f.key value ∧ f.Wants value := by
  simp only [← Metric.resolvedTags_eq_some, ← admits_iff nonempty]
  rw [accepts]
  cases m.resolvedTags[f.key]? with
  | none => simp
  | some value => simp

/-! ## Monitors with written filters -/

namespace Monitor

theorem accepts_run (u : Monitor) (calls : List Call) (m : Metric) :
    (u.run calls).accepts m = u.accepts m := by
  induction calls using List.reverseRecOn with
  | nil => rfl
  | append_singleton calls call inductionHypothesis =>
    rw [run_snoc, ← inductionHypothesis]
    cases call with
    | check other => exact accepts_check _ other m
    | evictIdle cutoff => rfl

/-- Tag filters that can be read bring no fault to a strategy. -/
theorem ofStrategy_of_parse {s : Strategy} {filters : List TagFilter}
    (read : TagFilter.parse s.tags = .ok filters) :
    ofStrategy s = (ofStrategy { s with tags := "" }).map fun u =>
      { u with strategy := s, rule := { u.rule with filters := filters } } := by
  have untagged : TagFilter.parse "" = .ok [] := rfl
  simp only [ofStrategy, Rule.compile, read, untagged]
  cases Transform.parse s.fieldTransform with
  | error fault => rfl
  | ok transform =>
    cases WindowFunction.parse s.func with
    | error fault => rfl
    | ok function =>
      cases Comparison.ofText s.op <;> rfl

/-- The text of a list of filters is read as these filters, in their order. A strategy with this
text is refused only for what is wrong without the filters as well. Its monitor accepts, at any
time, the metrics of its name that have for every filter the tag with a value that the filter
asks for. -/
theorem accepts_of_written_filters {filters : List TagFilter} {text : String}
    (writable : ∀ f ∈ filters, f.Writable) (written : TagFilter.IsText filters text) :
    TagFilter.parse text = .ok filters ∧
    ∀ s : Strategy, s.tags = text →
      (∃ fault, ofStrategy s = .error fault ∧ ofStrategy { s with tags := "" } = .error fault) ∨
      ∃ u, ofStrategy s = .ok u ∧ ∀ calls m, (u.run calls).accepts m = true ↔
        m.name = s.metric ∧ ∀ f ∈ filters, ∃ value, m.HasTag f.key value ∧ f.Wants value := by
  have read := TagFilter.parse_of_isText writable written
  refine ⟨read, fun s tags => ?_⟩
  have made := ofStrategy_of_parse (s := s) (tags ▸ read)
  cases untagged : ofStrategy { s with tags := "" } with
  | error fault =>
    rw [untagged] at made
    exact .inl ⟨fault, made, rfl⟩
  | ok u =>
    rw [untagged] at made
    refine .inr ⟨_, made, fun calls m => ?_⟩
    rw [accepts_run]
    simp only [accepts, Rule.acceptsTags, Bool.and_eq_true, beq_iff_eq, List.all_eq_true]
    refine and_congr_right' (forall₂_congr fun f member => ?_)
    exact TagFilter.accepts_iff (writable f member).needles m

def outerHosts : List TagFilter :=
  [⟨"host", .startsWith, ["web", "api"]⟩, ⟨"idc", .notEqual, ["bj", "sh"]⟩]

/-- The filters are written with blanks and an empty part. A host of the first kind is let in, and
one without a place is not. -/
theorem outerHosts_let_in :
    let text := " host^=[web|api] ,,idc ! = [ bj | sh ]"
    let s : Strategy :=
      { id := 1, metric := "cpu", func := "all(#1)", op := ">", rightValue := 90, tags := text }
    let host (place : List (String × String)) : Metric :=
      { name := "cpu", tags := Dictionary.ofEntries (("host", "web-1") :: place) }
    TagFilter.parse text = .ok outerHosts ∧
      ∃ u, ofStrategy s = .ok u ∧ ∀ calls, (u.run calls).accepts (host [("idc", "gz")]) = true ∧
        ¬ (u.run calls).accepts (host []) = true := by
  intro text s host
  have writable : ∀ f ∈ outerHosts, f.Writable := by
    rw [outerHosts, List.forall_mem_cons, List.forall_mem_singleton]
    exact ⟨⟨by decide, by decide, by decide, by decide, by decide, by decide, by decide⟩,
      ⟨by decide, by decide, by decide, by decide, by decide, by decide, by decide⟩⟩
  have bare (part : List Char) : Padded part part :=
    ⟨[], [], Text.blanks_nil, Text.blanks_nil, (List.append_nil _).symm⟩
  have blank : Blanks [' '] := Text.blanks_of_all rfl
  have written : TagFilter.IsText outerHosts text := by
    refine ⟨[" host^=[web|api] ".toList, [], "idc ! = [ bj | sh ]".toList],
      .filter ?_ (.blank Text.blanks_nil (.filter ?_ .nil)), by decide⟩
    · exact ⟨" host".toList, [], ["web".toList, "api".toList], "[web|api] ".toList,
        ⟨[' '], [], blank, Text.blanks_nil, by decide⟩, Text.blanks_nil,
        .cons (bare _) (.cons (bare _) .nil), ⟨[], [' '], Text.blanks_nil, blank, by decide⟩,
        by decide⟩
    · exact ⟨"idc ".toList, [' '], [" bj ".toList, " sh ".toList], " [ bj | sh ]".toList,
        ⟨[], [' '], Text.blanks_nil, blank, by decide⟩, blank,
        .cons ⟨[' '], [' '], blank, blank, by decide⟩
          (.cons ⟨[' '], [' '], blank, blank, by decide⟩ .nil),
        ⟨[' '], [], blank, Text.blanks_nil, by decide⟩, by decide⟩
  obtain ⟨read, monitors⟩ := accepts_of_written_filters writable written
  refine ⟨read, ?_⟩
  rcases monitors s rfl with ⟨fault, refused, -⟩ | ⟨u, made, accepts⟩
  · have accepted : (ofStrategy s).toOption.isSome = true := by decide +kernel
    rw [refused] at accepted
    cases accepted
  · refine ⟨u, made, fun calls => ⟨(accepts calls _).mpr ⟨rfl, ?_⟩, fun accepted => ?_⟩⟩
    · rw [outerHosts, List.forall_mem_cons, List.forall_mem_singleton]
      exact ⟨⟨"web-1", by decide +kernel, by decide +kernel⟩,
        ⟨"gz", by decide +kernel, by decide +kernel⟩⟩
    · obtain ⟨value, has, -⟩ := ((accepts calls _).mp accepted).2 ⟨"idc", .notEqual, ["bj", "sh"]⟩
        (by decide)
      have absent : ¬ (host []).HasTag "idc" value := by
        have none : (host []).tags["idc"]? = none := by decide +kernel
        rw [Metric.HasTag, if_neg (by decide), none]
        exact nofun
      exact absent has

end Monitor

end AlertEngine
