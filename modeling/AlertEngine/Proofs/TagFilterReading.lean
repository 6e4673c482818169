import AlertEngine.Proofs.TextCutting
import AlertEngine.TagFilter

/-! # Reading tag filters

A filter can be read by `TagFilter.compile`, from one text that has its key and its value, and by
`TagFilter.parse`, as a list with one filter in it. Both cut the text at its first equals sign and
trim what they get, but at different moments.

* `TagFilter.ofParts?`: the filter of a key part and a value part.
* `TagFilter.compileChars_of_parts`, `compileChars_whole`, `compileChars_bare`: what `compile` makes
  of a key without an equals sign, of one with more behind it, and of one that ends in it.
* `TagFilter.parse_of_cut`: what `parse` makes of a text with one filter.
* `TagFilter.Gapped`: texts of which the two make different filters.
* `TagFilter.compile_agrees_with_parse`: on all other texts they agree.
-/

namespace AlertEngine

open Text (Blanks isBlank trim trimStart trimEnd cutAt?)

namespace TagMatch

variable {marker : Char} {kind : TagMatch}

theorem marker_of_ofMarker? (marks : ofMarker? marker = some kind) :
    isBlank marker = false ∧ marker ≠ '=' ∧ kind ≠ equal := by
  unfold ofMarker? at marks
  split at marks <;> cases marks <;> decide

theorem ofMarker?_of_isBlank (blank : isBlank marker = true) : ofMarker? marker = none := by
  cases marks : ofMarker? marker with
  | none => rfl
  | some kind =>
    rw [(marker_of_ofMarker? marks).1] at blank
    cases blank

end TagMatch

namespace TagFilter

variable {key value before : List Char} {marker : Char} {kind : TagMatch}

/-! ## Markers -/

theorem cutMarker_marked (marks : TagMatch.ofMarker? marker = some kind) (key : List Char) :
    cutMarker (key ++ [marker]) = (key, kind) := by
  simp [cutMarker, marks]

theorem cutMarker_unmarked {key : List Char}
    (unmarked : ∀ c, key.getLast? = some c → TagMatch.ofMarker? c = none) :
    cutMarker key = (key, .equal) := by
  cases last : key.getLast? with
  | none => simp [cutMarker, last]
  | some c => simp [cutMarker, last, unmarked c last]

/-! ## Parts of a filter -/

def ofParts? (key value : List Char) : Option TagFilter :=
  let (key, kind) := cutMarker key
  if (trim key).isEmpty then none
  else some ⟨String.ofList (trim key), kind, (needlesOf value).map String.ofList⟩

def orMalformed (rest : List Char) (f : Option TagFilter) : Except RuleError TagFilter :=
  f.elim (.error (.malformedTagFilter (String.ofList ('=' :: rest)))) .ok

theorem orMalformed_ofParts? (rest key value : List Char) :
    orMalformed rest (ofParts? key value) =
      let (key, kind) := cutMarker key
      if (trim key).isEmpty then
        .error (.malformedTagFilter (String.ofList (trim key ++ '=' :: rest)))
      else .ok ⟨String.ofList (trim key), kind, (needlesOf value).map String.ofList⟩ := by
  simp only [ofParts?, orMalformed]
  split
  · rename_i empty
    rw [List.isEmpty_iff.mp empty]
    rfl
  · rfl

/-- A key without an equals sign is trimmed, and so is the value. -/
theorem compileChars_of_parts (free : '=' ∉ key) (value : List Char) :
    compileChars key value = orMalformed value (ofParts? (trim key) (trim value)) := by
  have uncut : cutKey key value = (key, value) := by
    rw [cutKey, Text.cutAt?_eq_none_iff.mpr free]
  have unstripped : (Text.stripLast? '=' (trim key)).getD (trim key) = trim key := by
    rw [Text.stripLast?_of_not_mem fun member => free (Text.mem_of_mem_trim member),
      Option.getD_none]
  simp only [compileChars, uncut, unstripped, orMalformed_ofParts?]

/-- A key with an equals sign and more behind it is cut there, if it comes without a value. -/
theorem compileChars_whole (free : '=' ∉ key) (present : value ≠ []) :
    compileChars (key ++ '=' :: value) [] =
      orMalformed value (ofParts? (trim key) (trim value)) := by
  have cut : cutKey (key ++ '=' :: value) [] = (key, value) := by
    simp [cutKey, Text.cutAt?_append free, present]
  have uncut : cutKey key value = (key, value) := by
    rw [cutKey, Text.cutAt?_eq_none_iff.mpr free]
  rw [← compileChars_of_parts free]
  simp only [compileChars, cut, uncut]

/-- A key that ends in its equals sign loses that, and keeps the blanks before it. -/
theorem compileChars_bare (free : '=' ∉ key) :
    compileChars (key ++ ['=']) [] = orMalformed [] (ofParts? (trimStart key) []) := by
  have uncut : cutKey (key ++ ['=']) [] = (key ++ ['='], []) := by
    simp [cutKey, Text.cutAt?_append free]
  have trimmed : trim (key ++ ['=']) = trimStart key ++ ['='] :=
    Text.trim_append_cons (by decide) key []
  simp only [compileChars, uncut, trimmed, Text.stripLast?_append, Option.getD_some,
    Text.trim_nil, orMalformed_ofParts?]

/-- One filter of a list is cut at its first equals sign after it has been trimmed. -/
theorem parseOne_trim (free : '=' ∉ key) (value : List Char) :
    parseOne (trim (key ++ '=' :: value)) =
      orMalformed (trimEnd value) (ofParts? (trim key) (trim value)) := by
  have freeStart : '=' ∉ trimStart key := fun member => free (Text.mem_of_mem_trimStart member)
  rw [Text.trim_append_cons (by decide), parseOne, Text.cutAt?_append freeStart]
  simp only [compileChars_of_parts freeStart, Text.trim_trimStart, Text.trim_trimEnd]

theorem parse_of_cut {text : String} (single : ',' ∉ text.toList) (free : '=' ∉ key)
    (cut : text.toList = key ++ '=' :: value) :
    parse text =
      (orMalformed (trimEnd value) (ofParts? (trim key) (trim value))).map fun f => [f] := by
  have present : (trim (key ++ '=' :: value)).isEmpty = false := by
    simp [Text.trim_append_cons (c := '=') (by decide)]
  rw [parse, Text.splitOn_eq, List.splitOn_eq_singleton single, cut, ← parseOne_trim free]
  simp only [List.map_cons, List.map_nil, List.filter_cons, present, Bool.not_false, if_true,
    List.filter_nil, List.mapM_cons, List.mapM_nil]
  cases parseOne (trim (key ++ '=' :: value)) <;> rfl

/-! ## Two ways to read a filter -/

inductive Agree : Except RuleError TagFilter → Except RuleError (List TagFilter) → Prop
  | refused (text other : String) :
    Agree (.error (.malformedTagFilter text)) (.error (.malformedTagFilter other))
  | read (f : TagFilter) : Agree (.ok f) (.ok [f])

theorem Agree.eq_singleton {f : TagFilter} {fs : List TagFilter} (agree : Agree (.ok f) (.ok fs)) :
    fs = [f] := by
  cases agree
  rfl

theorem agree_orMalformed (rest other : List Char) (f : Option TagFilter) :
    Agree (orMalformed rest f) ((orMalformed other f).map fun f => [f]) := by
  cases f with
  | none => exact .refused _ _
  | some f => exact .read f

/-- A text that ends in its only equals sign, with blanks between a marker and that. -/
structure Gapped (text before : List Char) (marker : Char) (kind : TagMatch) : Prop where
  free : '=' ∉ before
  marks : TagMatch.ofMarker? marker = some kind
  gap : ∃ blanks, Blanks blanks ∧ blanks ≠ [] ∧ text = before ++ marker :: (blanks ++ ['='])

/-- Blanks behind a key hide its marker from a reader that does not trim them. -/
theorem ofParts?_blanks {blanks : List Char} (blank : Blanks blanks) (gap : blanks ≠ [])
    (key value : List Char) :
    ofParts? (key ++ blanks) value =
      if (trim key).isEmpty then none
      else some ⟨String.ofList (trim key), .equal, (needlesOf value).map String.ofList⟩ := by
  have unmarked : cutMarker (key ++ blanks) = (key ++ blanks, .equal) := by
    refine cutMarker_unmarked fun c last => TagMatch.ofMarker?_of_isBlank (blank c ?_)
    rw [List.getLast?_append_of_ne_nil _ gap] at last
    exact List.mem_of_getLast? last
  have trimmed : trim (key ++ blanks) = trim key := Text.trim_padded Text.blanks_nil blank key
  simp only [ofParts?, unmarked, trimmed]

/-- A key whose last character before some blanks is a marker makes a gapped text. -/
theorem exists_gapped {blanks : List Char} {c : Char} (free : '=' ∉ key) (blank : Blanks blanks)
    (gap : blanks ≠ []) (behind : trimStart key = trim key ++ blanks)
    (last : (trim key).getLast? = some c) (marks : TagMatch.ofMarker? c = some kind) :
    ∃ before, Gapped (key ++ ['=']) before c kind := by
  obtain ⟨inner, ends⟩ := List.getLast?_eq_some_iff.mp last
  obtain ⟨leading, -, whole⟩ := Text.exists_trimStart key
  rw [behind, ends] at whole
  have freeBefore : '=' ∉ leading ++ inner := by
    rw [whole] at free
    simp only [List.mem_append, not_or] at free ⊢
    exact ⟨free.1, free.2.1.1⟩
  have shape : key ++ ['='] = leading ++ inner ++ c :: (blanks ++ ['=']) := by
    rw [whole]
    simp
  exact ⟨leading ++ inner, freeBefore, marks, blanks, blank, gap, shape⟩

/-- If no marker has blanks behind it, it makes no difference whether the key is trimmed there. -/
theorem ofParts?_trim (free : '=' ∉ key)
    (together : ¬ ∃ before marker kind, Gapped (key ++ ['=']) before marker kind)
    (value : List Char) : ofParts? (trimStart key) value = ofParts? (trim key) value := by
  obtain ⟨blanks, blank, behind⟩ := Text.exists_trimEnd (trimStart key)
  change trimStart key = trim key ++ blanks at behind
  rcases eq_or_ne blanks [] with rfl | gap
  · rw [behind, List.append_nil]
  · -- The blanks hide the last character from the one reader, so it must be no marker.
    have unmarked : ∀ c, (trim key).getLast? = some c → TagMatch.ofMarker? c = none := by
      intro c last
      cases marks : TagMatch.ofMarker? c with
      | none => rfl
      | some kind =>
        obtain ⟨before, gapped⟩ := exists_gapped free blank gap behind last marks
        exact absurd ⟨before, c, kind, gapped⟩ together
    rw [behind, ofParts?_blanks blank gap]
    simp only [ofParts?, cutMarker_unmarked unmarked]

/-- What the two readers make of a text with blanks behind a marker. -/
theorem read_of_gapped {e : String} (single : ',' ∉ e.toList)
    (gapped : Gapped e.toList before marker kind) :
    compile e "" = .ok ⟨String.ofList (trim (before ++ [marker])), .equal, [""]⟩ ∧
      parse e =
        if (trim before).isEmpty then .error (.malformedTagFilter "=")
        else .ok [⟨String.ofList (trim before), kind, [""]⟩] := by
  obtain ⟨free, marks, blanks, blank, gap, text⟩ := gapped
  obtain ⟨visible, noEquals, -⟩ := TagMatch.marker_of_ofMarker? marks
  have freeKey : '=' ∉ before ++ marker :: blanks := by
    simp [free, Ne.symm noEquals, Text.not_mem_of_blanks blank (c := '=') (by decide)]
  have whole : e.toList = (before ++ marker :: blanks) ++ '=' :: [] := by
    rw [text]
    simp
  constructor
  · have trimmed : trim (before ++ [marker]) = trimStart before ++ [marker] :=
      Text.trim_append_cons visible before []
    have behind : trimStart (before ++ marker :: blanks) = trim (before ++ [marker]) ++ blanks := by
      rw [Text.trimStart_append_cons visible, trimmed]
      simp
    have present : (trim (before ++ [marker])).isEmpty = false := by simp [trimmed]
    rw [compile, whole, String.toList_empty, compileChars_bare freeKey, behind,
      ofParts?_blanks blank gap, Text.trim_trim, present]
    rfl
  · have trimmed : trim (before ++ marker :: blanks) = trimStart before ++ [marker] := by
      rw [Text.trim_append_cons visible, Text.trimEnd_of_blanks blank]
    rw [parse_of_cut single freeKey whole, trimmed, ofParts?, cutMarker_marked marks]
    simp only [Text.trim_trimStart]
    split <;> rfl

/-- A text with an equals sign and without commas is read alike as one filter and as a list of
filters, unless it ends in its only equals sign and has blanks between a marker and that. Then the
one reader takes the marker for a part of the key, and the other one takes it for a marker. -/
theorem compile_agrees_with_parse (e : String) (marked : '=' ∈ e.toList)
    (single : ',' ∉ e.toList) :
    (Agree (compile e "") (parse e) ↔ ¬ ∃ before marker kind, Gapped e.toList before marker kind) ∧
    ∀ before marker kind, Gapped e.toList before marker kind →
      compile e "" = .ok ⟨String.ofList (trim (before ++ [marker])), .equal, [""]⟩ ∧
      parse e =
        if (trim before).isEmpty then .error (.malformedTagFilter "=")
        else .ok [⟨String.ofList (trim before), kind, [""]⟩] := by
  refine ⟨⟨?_, fun together => ?_⟩, fun before marker kind => read_of_gapped single⟩
  · rintro agree ⟨before, marker, kind, gapped⟩
    obtain ⟨compiled, parsed⟩ := read_of_gapped single gapped
    rw [compiled, parsed] at agree
    split at agree
    · cases agree
    · have same := agree.eq_singleton
      simp only [List.cons.injEq, TagFilter.mk.injEq] at same
      exact (TagMatch.marker_of_ofMarker? gapped.marks).2.2 same.1.2.1
  · obtain ⟨key, value, cut⟩ : ∃ key value, cutAt? '=' e.toList = some (key, value) := by
      cases cut : cutAt? '=' e.toList with
      | none => exact absurd marked (Text.cutAt?_eq_none_iff.mp cut)
      | some parts => exact ⟨parts.1, parts.2, rfl⟩
    obtain ⟨whole, free⟩ := Text.eq_of_cutAt?_eq_some cut
    rw [parse_of_cut single free whole, compile, whole, String.toList_empty]
    -- Only a text that ends in its equals sign is trimmed in another order.
    rcases eq_or_ne value [] with rfl | present
    · rw [whole] at together
      rw [compileChars_bare free, ofParts?_trim free together]
      exact agree_orMalformed _ _ _
    · rw [compileChars_whole free present]
      exact agree_orMalformed _ _ _

theorem agree_on_prefix_list :
    Agree (compile "user^=[a|b]" "") (parse "user^=[a|b]") ∧
      parse "user^=[a|b]" = .ok [⟨"user", .startsWith, ["a", "b"]⟩] := by
  refine ⟨(compile_agrees_with_parse "user^=[a|b]" (by decide) (by decide)).1.mpr ?_, by decide⟩
  rintro ⟨before, marker, kind, gapped⟩
  obtain ⟨blanks, -, -, text⟩ := gapped.gap
  rw [← List.cons_append, ← List.append_assoc] at text
  have last := congrArg List.getLast? text
  rw [List.getLast?_concat] at last
  exact absurd last (by decide)

theorem blank_hides_marker :
    ¬ ∀ e : String, '=' ∈ e.toList → ',' ∉ e.toList → Agree (compile e "") (parse e) := by
  intro agree
  have compiled : compile "host^ =" "" = .ok ⟨"host^", .equal, [""]⟩ := by decide
  have parsed : parse "host^ =" = .ok [⟨"host", .startsWith, [""]⟩] := by decide
  have same := agree "host^ =" (by decide) (by decide)
  rw [compiled, parsed] at same
  exact absurd same.eq_singleton (by decide)

end TagFilter

end AlertEngine
