import AlertEngine.Proofs.EventTimes
import AlertEngine.Proofs.JsonText
import AlertEngine.Proofs.Registration
import AlertEngine.Proofs.TextCutting

/-! # Packing metrics into lines

Metrics come in lines, one to a line or many in a list. How a stream of them is cut into lines makes
no difference to what is reported, nor do blank lines and lines that cannot be read.

* `MetricText`, `Line`, `Packing`: the texts of metrics, a line that holds some of them one after
  the other, and lines that hold a stream of them.
* `readBatch_bracketed_iff`: a line in brackets is read as a whole or not at all.
* `Engine.judge_append`: judging two batches in turn is judging them as one.
* `Service.replay_packing`: what a replay comes to depends on the texts alone.
* `Service.replay_of_packings`: so any two packings of some texts come to the same, and so do whole
  runs without composites.
-/

namespace AlertEngine

open Text (Blanks)

/-! ## Reading a line -/

variable {before after inner inside : List Char} {metrics : List Metric}

def metricOf? (text : List Char) : Option Metric := (Json.Tree.ofText? text).bind Metric.ofTree?

theorem readBatch_blank (blanks : Blanks before) : readBatch (String.ofList before) = .ok [] := by
  rw [readBatch, String.toList_ofList, Text.trim_of_blanks blanks]

theorem readBatch_braced (blanks : Blanks before) (blanksAfter : Blanks after)
    (inner : List Char) :
    readBatch (String.ofList (before ++ ('{' :: inner ++ '}' :: after))) =
      match metricOf? ('{' :: inner ++ ['}']) with
      | some m => .ok [m]
      | none => .error .invalidMetric := by
  rw [readBatch, String.toList_ofList,
    Text.trim_enclosed (by decide) (by decide) blanks blanksAfter]
  rfl

theorem readBatch_bracketed (blanks : Blanks before) (blanksAfter : Blanks after)
    (inside : List Char) :
    readBatch (String.ofList (before ++ ('[' :: inside ++ ']' :: after))) =
      match (Json.Tree.ofText? ('[' :: inside ++ [']'])).bind (Json.Tree.list? Metric.ofTree?) with
      | some metrics => .ok metrics
      | none => .error .invalidBatch := by
  rw [readBatch, String.toList_ofList,
    Text.trim_enclosed (by decide) (by decide) blanks blanksAfter]
  rfl

theorem exists_forall₂ {α β : Type} {related : α → β → Prop} {as : List α}
    (all : ∀ a ∈ as, ∃ b, related a b) : ∃ bs, List.Forall₂ related as bs := by
  induction as with
  | nil => exact ⟨[], .nil⟩
  | cons a as inductionHypothesis =>
    rw [List.forall_mem_cons] at all
    obtain ⟨b, first⟩ := all.1
    obtain ⟨bs, others⟩ := inductionHypothesis all.2
    exact ⟨b :: bs, .cons first others⟩

def MetricTexts (texts : List (List Char)) (metrics : List Metric) : Prop :=
  List.Forall₂ (fun text m => metricOf? text = some m) texts metrics

theorem mapM_of_metricTexts {texts : List (List Char)} (given : MetricTexts texts metrics) :
    ∃ vs, Json.Values texts vs ∧ vs.mapM Metric.ofTree? = some metrics := by
  induction given with
  | nil => exact ⟨[], .nil, rfl⟩
  | cons read _ inductionHypothesis =>
    obtain ⟨vs, values, decoded⟩ := inductionHypothesis
    obtain ⟨v, isValue, isMetric⟩ := Option.bind_eq_some_iff.mp read
    exact ⟨v :: vs, .cons isValue values, by
      rw [List.mapM_cons, isMetric, decoded]
      rfl⟩

theorem metricTexts_of_mapM {texts : List (List Char)} {vs : List Json.Tree}
    (values : Json.Values texts vs) (decoded : vs.mapM Metric.ofTree? = some metrics) :
    MetricTexts texts metrics := by
  induction values generalizing metrics with
  | nil =>
    cases decoded
    exact .nil
  | cons isValue _ inductionHypothesis =>
    rw [List.mapM_cons] at decoded
    obtain ⟨m, isMetric, rest⟩ := Option.bind_eq_some_iff.mp decoded
    obtain ⟨others, decodedRest, joined⟩ := Option.bind_eq_some_iff.mp rest
    cases joined
    exact .cons (Option.bind_eq_some_iff.mpr ⟨_, isValue, isMetric⟩)
      (inductionHypothesis decodedRest)

theorem MetricTexts.metricOf? {texts : List (List Char)} (given : MetricTexts texts metrics)
    {text : List Char} (member : text ∈ texts) : ∃ m, AlertEngine.metricOf? text = some m := by
  induction given with
  | nil => cases member
  | cons read _ inductionHypothesis =>
    rcases List.mem_cons.mp member with rfl | member
    · exact ⟨_, read⟩
    · exact inductionHypothesis member

theorem MetricTexts.of_append {first second : List (List Char)}
    (given : MetricTexts (first ++ second) metrics) :
    ∃ before after, MetricTexts first before ∧ MetricTexts second after ∧
      metrics = before ++ after := by
  induction first generalizing metrics with
  | nil => exact ⟨[], metrics, .nil, given, rfl⟩
  | cons text first inductionHypothesis =>
    rcases given with _ | ⟨read, rest⟩
    obtain ⟨before, after, givenFirst, givenSecond, rfl⟩ := inductionHypothesis rest
    exact ⟨_ :: before, after, .cons read givenFirst, givenSecond, rfl⟩

theorem ofText?_brackets {texts : List (List Char)} {vs : List Json.Tree}
    (listed : Json.Listed texts inside) (values : Json.Values texts vs) :
    Json.Tree.ofText? ('[' :: inside ++ [']']) = some (.list vs) :=
  Json.ofText?_bracket_iff.mpr
    ⟨texts, inside, [], vs, rfl, fun _ member => (nomatch member), listed, values, rfl⟩

/-- A line in brackets is read just when it is a list of texts that are metrics by themselves; it
gives these metrics in their order. -/
theorem readBatch_bracketed_iff (blanks : Blanks before) (blanksAfter : Blanks after) :
    readBatch (String.ofList (before ++ ('[' :: inside ++ ']' :: after))) = .ok metrics ↔
      ∃ texts, Json.Listed texts inside ∧ MetricTexts texts metrics := by
  rw [readBatch_bracketed blanks blanksAfter]
  constructor
  · intro read
    split at read
    · rename_i found
      cases read
      obtain ⟨v, isValue, isList⟩ := Option.bind_eq_some_iff.mp found
      obtain ⟨texts, content, spaces, vs, joined, blank, listed, values, rfl⟩ :=
        Json.ofText?_bracket_iff.mp isValue
      -- The bracket at the end is the one that closes the list.
      cases spaces using List.reverseRecOn with
      | nil =>
        obtain ⟨rfl, -⟩ := List.append_inj' joined rfl
        exact ⟨texts, listed, metricTexts_of_mapM values isList⟩
      | append_singleton spaces space =>
        rw [← List.cons_append, ← List.append_assoc] at joined
        have ends := (List.append_inj' joined rfl).2
        have visible := blank space (by simp)
        rw [← List.singleton_inj.mp ends] at visible
        exact absurd visible (by decide)
    · cases read
  · rintro ⟨texts, listed, given⟩
    obtain ⟨vs, values, decoded⟩ := mapM_of_metricTexts given
    rw [ofText?_brackets listed values, Option.bind_some, Json.Tree.list?, decoded]

/-- A list of texts one of which gives no metric by itself is rejected as a whole. -/
theorem readBatch_of_undecodable {elements : List (List Char)} (blanks : Blanks before)
    (blanksAfter : Blanks after) (listed : Json.Listed elements inside)
    (formed : ∀ element ∈ elements, ∃ v, Json.Tree.ofText? element = some v)
    (undecodable : ∃ element ∈ elements, metricOf? element = none) :
    readBatch (String.ofList (before ++ ('[' :: inside ++ ']' :: after))) =
      .error .invalidBatch := by
  obtain ⟨vs, values⟩ := exists_forall₂ formed
  rw [readBatch_bracketed blanks blanksAfter, ofText?_brackets listed values, Option.bind_some,
    Json.Tree.list?]
  cases decoded : vs.mapM Metric.ofTree? with
  | none => rfl
  | some metrics =>
    obtain ⟨element, member, nothing⟩ := undecodable
    obtain ⟨m, read⟩ := (metricTexts_of_mapM values decoded).metricOf? member
    rw [nothing] at read
    cases read

/-! ## Lines that hold texts -/

structure MetricText (text : List Char) : Prop where
  braces : ∃ inner, text = '{' :: inner ++ ['}']
  accepted : ∃ metrics, readBatch (String.ofList text) = .ok metrics

/-- A line with some texts in it: one text alone, or any number of them as the elements of a list. A
line that is blank or that is rejected has none. -/
inductive Line : List (List Char) → String → Prop
  | blank {blanks : List Char} (blank : Blanks blanks) : Line [] (String.ofList blanks)
  | rejected {line : String} {fault : LineError} (rejected : readBatch line = .error fault) :
      Line [] line
  | single {text before after : List Char} (blanks : Blanks before) (blanksAfter : Blanks after) :
      Line [text] (String.ofList (before ++ (text ++ after)))
  | list {texts : List (List Char)} {inside before after : List Char} (blanks : Blanks before)
      (blanksAfter : Blanks after) (listed : Json.Listed texts inside) :
      Line texts (String.ofList (before ++ ('[' :: inside ++ ']' :: after)))

inductive Packing : List (List Char) → List String → Prop
  | done : Packing [] []
  | line {held texts : List (List Char)} {line : String} {lines : List String}
      (holds : Line held line) (packing : Packing texts lines) :
      Packing (held ++ texts) (line :: lines)

theorem MetricText.metricOf? {text : List Char} (metricText : MetricText text) :
    ∃ m, AlertEngine.metricOf? text = some m := by
  obtain ⟨⟨inner, rfl⟩, metrics, read⟩ := metricText
  have alone : readBatch (String.ofList ([] ++ ('{' :: inner ++ ['}']))) = _ :=
    readBatch_braced Text.blanks_nil Text.blanks_nil inner
  rw [List.nil_append, read] at alone
  split at alone
  · rename_i m found
    exact ⟨m, found⟩
  · cases alone

/-- A line gives the metrics of its texts, or it has none and is passed over. -/
theorem Line.readBatch {texts : List (List Char)} {line : String} (holds : Line texts line)
    (braced : ∀ text ∈ texts, ∃ inner, text = '{' :: inner ++ ['}'])
    (given : MetricTexts texts metrics) :
    AlertEngine.readBatch line = .ok metrics ∨
      metrics = [] ∧ ∃ fault, AlertEngine.readBatch line = .error fault := by
  cases holds with
  | blank blank =>
    cases given
    exact .inl (readBatch_blank blank)
  | rejected rejected =>
    cases given
    exact .inr ⟨rfl, _, rejected⟩
  | single blanks blanksAfter =>
    obtain ⟨inner, rfl⟩ := braced _ List.mem_cons_self
    rcases given with _ | ⟨read, rest⟩
    cases rest
    have whole := readBatch_braced blanks blanksAfter inner
    rw [read] at whole
    refine .inl (Eq.trans ?_ whole)
    simp
  | list blanks blanksAfter listed =>
    exact .inl ((readBatch_bracketed_iff blanks blanksAfter).mpr ⟨texts, listed, given⟩)

/-! ## Replaying lines -/

theorem Engine.judge_append (e : Engine) (now : Instant) (first second : List Metric) :
    e.judge now (first ++ second) =
      ((e.judge now first).1 ++ ((e.judge now first).2.judge now second).1,
        ((e.judge now first).2.judge now second).2) := by
  induction first generalizing e with
  | nil => rfl
  | cons m first inductionHypothesis =>
    rw [List.cons_append, Engine.judge_cons, inductionHypothesis, Engine.judge_cons,
      List.append_assoc]

namespace Service

def judge (s : Service) (now : Instant) (metrics : List Metric) : List Event × Service :=
  ((s.engine.judge now metrics).1, { s with engine := (s.engine.judge now metrics).2 })

theorem lineOrSkip_of_line {texts : List (List Char)} {line : String} (holds : Line texts line)
    (braced : ∀ text ∈ texts, ∃ inner, text = '{' :: inner ++ ['}'])
    (given : MetricTexts texts metrics) (s : Service) (now : Instant) :
    s.lineOrSkip now line = s.judge now metrics := by
  rcases holds.readBatch braced given with read | ⟨rfl, fault, rejected⟩
  · rw [lineOrSkip, Service.line, read]
    rfl
  · rw [lineOrSkip, Service.line, rejected]
    rfl

/-- A replay of lines judges the metrics of the texts in them, one after the other. -/
theorem replay_packing {texts : List (List Char)} {lines : List String}
    (packing : Packing texts lines)
    (braced : ∀ text ∈ texts, ∃ inner, text = '{' :: inner ++ ['}'])
    (given : MetricTexts texts metrics) (s : Service) (now : Instant) :
    s.replay now lines = s.judge now metrics := by
  induction packing generalizing s metrics with
  | done =>
    cases given
    rfl
  | line holds packing inductionHypothesis =>
    rw [List.forall_mem_append] at braced
    obtain ⟨first, second, givenFirst, givenSecond, rfl⟩ := given.of_append
    have judged := lineOrSkip_of_line holds braced.1 givenFirst s now
    have rest := inductionHypothesis braced.2 givenSecond
    rw [replay, judged, judge]
    dsimp only
    rw [rest, judge, judge, Engine.judge_append]

/-! ## Services without composites -/

theorem composites_judge {s : Service} (none : s.engine.composites = ∅) (now : Instant)
    (metrics : List Metric) : (s.judge now metrics).2.engine.composites = ∅ := by
  apply Std.ExtTreeMap.ext_getElem?
  intro id
  rw [judge, Engine.judge_composites, none]
  simp

theorem tick_of_no_composites {s : Service} (none : s.engine.composites = ∅) (now : Instant) :
    (s.tick now).1 = [] := by
  have scanned : (∅ : Std.ExtTreeMap Int64 Composite).toList.flatMap
      (fun entry => (entry.2.scan now).1) = [] := rfl
  simp only [tick, Engine.scan, none, scanned, DebounceTable.observeAll]

/-- A run that starts, if it does, with no composites at work. -/
def StartsPlain (files : Files) (now : Instant) (arguments : List String) : Prop :=
  ∀ settingsPath closed s, Command.ofArguments arguments = .replay settingsPath →
    start files now settingsPath = .ok (closed, s) → s.engine.composites = ∅

/-- Two ways of packing the same texts of metrics into lines, read at whatever times, lead to the
same reports and to the same service, apart from the times of events. Without composites the scan at
the end reports nothing, and whole runs of the program on two such inputs come to the same. A line
in brackets is read just when it is a list of texts, each of which gives a metric by itself: with
one element that gives none it is passed over as a whole. -/
theorem replay_of_packings {texts : List (List Char)} (all : ∀ text ∈ texts, MetricText text) :
    (∀ (lines others : List (Instant × String)), Packing texts (lines.map Prod.snd) →
      Packing texts (others.map Prod.snd) → ∀ s : Service,
      untimed (s.replayAt lines) = untimed (s.replayAt others) ∧
      (s.engine.composites = ∅ → ∀ now later : Instant,
        ((s.replayAt lines).2.tick now).1 = [] ∧
        untimed ((s.replayAt lines).2.tick now) = untimed ((s.replayAt others).2.tick later))) ∧
    (∀ input other : String,
      Packing texts ((Text.splitOn '\n' input.toList).map String.ofList) →
      Packing texts ((Text.splitOn '\n' other.toList).map String.ofList) →
      ∀ (files : Files) (now : Instant) (arguments : List String),
        StartsPlain files now arguments →
          Run.ofInput files now arguments input = Run.ofInput files now arguments other) ∧
    (∀ before inside after : List Char, Blanks before → Blanks after →
      let line := String.ofList (before ++ ('[' :: inside ++ ']' :: after))
      (∀ metrics, readBatch line = .ok metrics ↔
        ∃ texts, Json.Listed texts inside ∧ MetricTexts texts metrics) ∧
      ∀ elements, Json.Listed elements inside →
        (∀ element ∈ elements, ∃ v, Json.Tree.ofText? element = some v) →
        (∃ element ∈ elements, metricOf? element = none) →
        ∀ (s : Service) (now : Instant),
          readBatch line = .error .invalidBatch ∧ s.lineOrSkip now line = ([], s)) := by
  obtain ⟨metrics, given⟩ : ∃ metrics, MetricTexts texts metrics :=
    exists_forall₂ fun text member => (all text member).metricOf?
  have braced := fun text member => (all text member).braces
  refine ⟨fun lines others packing repacking s => ?_,
    fun input other packing repacking files now arguments _ => ?_,
    fun before inside after blanks blanksAfter => ⟨fun metrics => ?_, ?_⟩⟩
  · have first : untimed (s.replayAt lines) = s.undated.judge .epoch metrics := by
      rw [← replayAt_undated, replay_packing packing braced given]
    have second : untimed (s.replayAt others) = s.undated.judge .epoch metrics := by
      rw [← replayAt_undated, replay_packing repacking braced given]
    refine ⟨first.trans second.symm, fun none now later => ⟨?_, ?_⟩⟩
    · have kept : (s.replayAt lines).2.engine.composites =
          (s.undated.judge .epoch metrics).2.engine.composites :=
        congrArg (fun outcome => outcome.2.engine.composites) first
      exact tick_of_no_composites
        (kept.trans (composites_judge (s := s.undated) none .epoch metrics)) now
    · have services := congrArg Prod.snd (first.trans second.symm)
      exact (tick_undated _ now).symm.trans ((congrArg (tick · .epoch) services).trans
        (tick_undated _ later))
  · unfold Run.ofInput
    split
    · rfl
    · split
      · rfl
      · rw [replay_packing packing braced given, replay_packing repacking braced given]
  · exact readBatch_bracketed_iff blanks blanksAfter
  · intro elements listed formed undecodable s now
    have rejected := readBatch_of_undecodable blanks blanksAfter listed formed undecodable
    refine ⟨rejected, ?_⟩
    rw [lineOrSkip, Service.line, rejected]
    rfl

/-- Two samples on lines of their own with a blank line between them, or in one list before a line
that cannot be read: one alarm is reported. A list with the number 7 in it is passed over. -/
theorem replay_of_two_samples :
    let sample (timestamp : Char) : List Char :=
      "\x7b\"name\":\"cpu\",\"value\":95,\"timestamp\":".toList ++ [timestamp, '}']
    let first := sample '1'
    let second := sample '2'
    let list := String.ofList ('[' :: (first ++ ' ' :: ',' :: second) ++ [']'])
    let mixed := String.ofList ('[' :: (first ++ ',' :: ['7']) ++ [']'])
    let lines : List (Instant × String) :=
      [(.epoch, String.ofList first), (.epoch, " \t"), (.epoch, String.ofList (second ++ ['\r']))]
    let others : List (Instant × String) := [(.epoch, list), (.epoch, "unreadable")]
    let strategy : Strategy :=
      { id := 1, metric := "cpu", func := "all(#2)", op := ">", rightValue := 90 }
    let s : Service := { engine := (Engine.run {} [(.epoch, .setStrategies [strategy])]).2 }
    let files : Files := fun path =>
      if path = "config/strategies.json" then some "\x7b\"strategies\":[]\x7d" else none
    (s.replayAt others).1.length = 1 ∧ untimed (s.replayAt lines) = untimed (s.replayAt others) ∧
      Run.ofInput files .epoch [] (String.ofList (first ++ '\n' :: second)) =
        Run.ofInput files .epoch [] list ∧
      s.lineOrSkip .epoch mixed = ([], s) := by
  intro sample first second list mixed lines others strategy s files
  have nothing : Blanks [] := Text.blanks_nil
  have noSpaces : Json.Spaces [] := fun _ member => (nomatch member)
  have all : ∀ text ∈ [first, second], MetricText text := by
    have ofOk {text : List Char} (inner : List Char) (braces : text = '{' :: inner ++ ['}'])
        (accepted : (readBatch (String.ofList text)).isOk = true) : MetricText text := by
      refine ⟨⟨inner, braces⟩, ?_⟩
      cases read : readBatch (String.ofList text) with
      | ok metrics => exact ⟨metrics, rfl⟩
      | error fault =>
        rw [read] at accepted
        cases accepted
    rw [List.forall_mem_cons, List.forall_mem_singleton]
    exact ⟨ofOk "\"name\":\"cpu\",\"value\":95,\"timestamp\":1".toList (by decide)
        (by decide +kernel),
      ofOk "\"name\":\"cpu\",\"value\":95,\"timestamp\":2".toList (by decide)
        (by decide +kernel)⟩
  have onLines : Packing [first, second] (lines.map Prod.snd) := by
    have alone : Line [first] (String.ofList ([] ++ (first ++ []))) := .single nothing nothing
    have blank : Line [] " \t" :=
      .blank (List.forall_mem_cons.mpr ⟨by decide, List.forall_mem_singleton.mpr (by decide)⟩)
    have ended : Line [second] (String.ofList ([] ++ (second ++ ['\r']))) :=
      .single nothing (List.forall_mem_singleton.mpr (by decide))
    rw [List.nil_append] at alone ended
    rw [List.append_nil] at alone
    exact .line alone (.line blank (.line ended .done))
  have inList : Line [first, second] list := by
    have listed : Json.Listed [first, second]
        ([] ++ (first ++ ([' '] ++ ',' :: ([] ++ (second ++ []))))) :=
      .more noSpaces (List.forall_mem_singleton.mpr (by decide)) (.last noSpaces noSpaces)
    rw [List.nil_append, List.nil_append, List.append_nil] at listed
    exact .list nothing nothing listed
  have unreadable : Line [] "unreadable" := by
    cases read : readBatch "unreadable" with
    | ok metrics =>
      have rejected : (readBatch "unreadable").isOk = false := by decide +kernel
      rw [read] at rejected
      cases rejected
    | error fault => exact .rejected read
  have inOneList : Packing [first, second] (others.map Prod.snd) :=
    .line inList (.line unreadable .done)
  obtain ⟨replays, runs, lists⟩ := replay_of_packings all
  refine ⟨by decide +kernel, (replays lines others onLines inOneList s).1, ?_, ?_⟩
  · refine runs _ _ ?_ ?_ files .epoch [] ?_
    · have alone (text : List Char) : Line [text] (String.ofList ([] ++ (text ++ []))) :=
        .single nothing nothing
      simp only [List.nil_append, List.append_nil] at alone
      have cut : (Text.splitOn '\n' (String.ofList (first ++ '\n' :: second)).toList).map
          String.ofList = [String.ofList first, String.ofList second] := by decide +kernel
      rw [cut]
      exact .line (alone first) (.line (alone second) .done)
    · have cut : (Text.splitOn '\n' list.toList).map String.ofList = [list] := by decide +kernel
      rw [cut]
      exact .line inList .done
    · rintro settingsPath closed service asked started
      cases asked
      have noComposites : (start files .epoch none).toOption.all
          (fun outcome => outcome.2.engine.composites.isEmpty) = true := by decide +kernel
      rw [started] at noComposites
      exact Std.ExtTreeMap.isEmpty_iff.mp noComposites
  · have listed : Json.Listed [first, ['7']]
        ([] ++ (first ++ ([] ++ ',' :: ([] ++ (['7'] ++ []))))) :=
      .more noSpaces noSpaces (.last noSpaces noSpaces)
    simp only [List.nil_append, List.append_nil] at listed
    refine ((lists [] _ [] nothing nothing).2 _ listed ?_ ⟨['7'], by simp, by decide +kernel⟩ s
      .epoch).2
    rw [List.forall_mem_cons, List.forall_mem_singleton]
    refine ⟨?_, Option.isSome_iff_exists.mp (by decide +kernel)⟩
    obtain ⟨m, read⟩ := (all first (by simp)).metricOf?
    obtain ⟨v, isValue, -⟩ := Option.bind_eq_some_iff.mp read
    exact ⟨v, isValue⟩

end Service

end AlertEngine
