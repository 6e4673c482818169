import AlertEngine.Proofs.Registration

/-! # Identities of series

Windows, last events and items are kept under the fingerprint of a text that names the series. The
text joins name, tags and endpoint with marks that are not escaped, so that it names the series only
as long as the parts are free of marks.

* `Metric.SameSeries`, `Metric.Plain`: one series, and metrics without marks.
* `Metric.sameSeries_of_identityText`: the text without marks in its parts names the series.
* `Holdings`, `Engine.holdings`: all that an engine holds under one identity.
* `Engine.holdings_judge`: judging metrics of other identities leaves it as it is, call by call.
* `Engine.series_kept_apart`: both together; `Engine.equals_sign_merges_series`: a mark in a key.
-/

namespace AlertEngine

/-! ## Texts of series -/

def unitSeparator : Char := '\x1f'

def tagPart (t : String × String) : List Char := t.1.toList ++ '=' :: t.2.toList

namespace Metric

structure SameSeries (m n : Metric) : Prop where
  name : m.name = n.name
  tags : m.tags = n.tags
  endpoint : m.endpoint = n.endpoint

/-- A metric whose name, tags and endpoint have no mark of the text of a series in them. An equals
sign is a mark in keys alone. -/
structure Plain (m : Metric) : Prop where
  name : unitSeparator ∉ m.name.toList
  parts : ∀ t ∈ m.tags.toList, unitSeparator ∉ tagPart t
  keys : ∀ t ∈ m.tags.toList, '=' ∉ t.1.toList
  endpoint : unitSeparator ∉ m.endpoint.toList

variable {m n : Metric}

theorem SameSeries.identityText (same : m.SameSeries n) : m.identityText = n.identityText := by
  rw [Metric.identityText, Metric.identityText, same.name, same.tags, same.endpoint]

theorem toList_identityText (m : Metric) :
    m.identityText.toList =
      m.name.toList ++ (m.tags.toList.flatMap (fun t => unitSeparator :: tagPart t) ++
        unitSeparator :: m.endpoint.toList) := by
  simp [Metric.identityText, tagPart, unitSeparator, List.flatMap_map]

/-- Parts with a mark between them, split at the marks. -/
theorem splitOn_parts {first last : List Char} {tags : List (String × String)}
    (plainFirst : unitSeparator ∉ first) (plain : ∀ t ∈ tags, unitSeparator ∉ tagPart t)
    (plainLast : unitSeparator ∉ last) :
    (first ++ (tags.flatMap (fun t => unitSeparator :: tagPart t) ++
        unitSeparator :: last)).splitOn unitSeparator =
      first :: (tags.map tagPart ++ [last]) := by
  induction tags generalizing first with
  | nil =>
    rw [List.flatMap_nil, List.nil_append, List.splitOn_append_cons_self_of_not_mem plainFirst,
      List.splitOn_eq_singleton plainLast]
    rfl
  | cons t ts inductionHypothesis =>
    rw [List.forall_mem_cons] at plain
    rw [List.flatMap_cons, List.append_assoc, List.cons_append,
      List.splitOn_append_cons_self_of_not_mem plainFirst, inductionHypothesis plain.1 plain.2]
    rfl

theorem eq_of_tagParts {tags others : List (String × String)} (plain : ∀ t ∈ tags, '=' ∉ t.1.toList)
    (plain' : ∀ t ∈ others, '=' ∉ t.1.toList) (same : tags.map tagPart = others.map tagPart) :
    tags = others := by
  induction tags generalizing others with
  | nil =>
    cases others with
    | nil => rfl
    | cons u us => cases same
  | cons t ts inductionHypothesis =>
    cases others with
    | nil => cases same
    | cons u us =>
      rw [List.forall_mem_cons] at plain plain'
      rw [List.map_cons, List.map_cons, List.cons.injEq] at same
      obtain ⟨keys, values⟩ := append_mark_inj plain.1 plain'.1 same.1
      rw [inductionHypothesis plain.2 plain'.2 same.2,
        Prod.ext (String.toList_injective keys) (String.toList_injective values)]

/-- The text of a series without marks in its parts names the series. -/
theorem sameSeries_of_identityText (plain : m.Plain) (plain' : n.Plain)
    (same : m.identityText = n.identityText) : m.SameSeries n := by
  have parts := congrArg (fun text => text.toList.splitOn unitSeparator) same
  simp only [toList_identityText, splitOn_parts plain.name plain.parts plain.endpoint,
    splitOn_parts plain'.name plain'.parts plain'.endpoint, List.cons.injEq] at parts
  obtain ⟨names, rest⟩ := parts
  obtain ⟨tags, endpoints⟩ := List.append_inj' rest rfl
  exact {
    name := String.toList_injective names
    tags := Std.ExtTreeMap.ext_toList (by rw [eq_of_tagParts plain.keys plain'.keys tags])
    endpoint := String.toList_injective (List.cons.inj endpoints).1 }

end Metric

/-! ## What is held of a series -/

/-- All that an engine holds under the identity of a series: windows of monitors, last events of
strategies, windows of the rules of composites, and items of groups. -/
@[ext] structure Holdings where
  window : Int64 → Option SlidingWindow
  entry : Int64 → Option Event
  ruleWindow : Int64 → Nat → Option SlidingWindow
  item : Int64 → String → String → Option ScoreItem

theorem Monitor.windows_checkSeries_of_ne {series other : String} (apart : other ≠ series)
    (u : Monitor) (m : Metric) :
    (u.checkSeries other m).2.windows[series]? = u.windows[series]? := by
  rcases Engine.checkSeries_cases u other m with same | ⟨w, changed⟩
  · rw [same]
  · rw [changed]
    simp [Std.ExtTreeMap.getElem?_insert, apart]

namespace Composite

variable {m : Metric} {series : String}

def ruleWindow? (c : Composite) (place : Nat) (series : String) : Option SlidingWindow :=
  (c.subs[place]?).bind fun sub => sub.monitor.windows[series]?

theorem subs_record (c : Composite) (sub : SubRule) (judgment : Judgment) :
    (c.record sub m.identity m judgment).subs = c.subs := by
  unfold record
  split
  · rfl
  · dsimp only
    split <;> rfl
  · rfl

/-- A check changes the windows of one rule, as if the rule were a monitor of its own. -/
theorem subs_check {c : Composite} {place : Nat} {sub : SubRule}
    (found : c.subs[place]? = some sub) :
    (c.check place m).2.subs = (c.watched place sub m).subs := by
  cases outcome : (sub.monitor.checkSeries m.identity m).1 with
  | error fault => simp only [check, found, outcome, watched]
  | ok judgment => simp only [check, found, outcome, watched, subs_record]

theorem ruleWindow?_check (apart : m.identity ≠ series) (c : Composite) (checked place : Nat) :
    (c.check checked m).2.ruleWindow? place series = c.ruleWindow? place series := by
  cases found : c.subs[checked]? with
  | none => simp only [check, found]
  | some sub =>
    rw [ruleWindow?, subs_check found, watched, ruleWindow?, List.getElem?_set]
    split
    · rename_i own
      obtain ⟨inside, -⟩ := List.getElem?_eq_some_iff.mp found
      rw [if_pos inside, ← own, found]
      exact Monitor.windows_checkSeries_of_ne apart sub.monitor m
    · rfl

theorem item?_check (apart : m.identity ≠ series) (c : Composite) (checked : Nat)
    (group key : String) :
    (c.check checked m).2.item? group key series = c.item? group key series := by
  cases spoken : c.verdict? (.check checked m) with
  | none => exact item?_perform_of_none spoken
  | some v =>
    obtain ⟨_, _, changed⟩ := item?_perform_of_some spoken
    obtain ⟨-, rfl⟩ := Call.check.inj (call_of_verdict? spoken)
    exact (changed group key series).trans (if_neg fun concerns => apart concerns.2.2)

end Composite

namespace Engine

variable {e : Engine} {now : Instant} {m n : Metric} {series : String}

def holdings (e : Engine) (series : String) : Holdings where
  window id := (e.monitors[id]?).bind fun u => u.windows[series]?
  entry id := e.table.get? (idStart id ++ series)
  ruleWindow id place := (e.composites[id]?).bind fun c => c.ruleWindow? place series
  item id group key := (e.composites[id]?).bind fun c => c.item? group key series

theorem holdings_judgeBy (apart : m.identity ≠ series) (e : Engine) (now : Instant) (id : Int64) :
    (e.judgeBy now m id).2.holdings series = e.holdings series := by
  have advanced {u : Monitor} (found : e.monitors[id]? = some u) (other : Int64) :
      ((e.monitors.insert id (u.checkSeries m.identity m).2)[other]?).bind
          (fun u => u.windows[series]?) =
        (e.monitors[other]?).bind fun u => u.windows[series]? := by
    rw [Std.ExtTreeMap.getElem?_insert]
    split
    · rename_i own
      rw [← Std.compare_eq_iff_eq.mp own, found]
      exact Monitor.windows_checkSeries_of_ne apart u m
    · rfl
  rcases judgeBy_cases e now m id with same | ⟨u, found, changed | ⟨judgment, _, observed⟩⟩
  · rw [same]
  · rw [changed]
    exact Holdings.ext (funext (advanced found)) rfl rfl rfl
  · rw [observed]
    refine Holdings.ext (funext (advanced found)) (funext fun k => ?_) rfl rfl
    exact DebounceTable.get?_observe_of_ne fun same =>
      apart (idStart_append_inj.mp same).2.symm

theorem holdings_judgeByAll (apart : m.identity ≠ series) (e : Engine) (now : Instant)
    (ids : List Int64) : (e.judgeByAll now m ids).2.holdings series = e.holdings series := by
  induction ids generalizing e with
  | nil => rfl
  | cons id ids inductionHypothesis =>
    rw [judgeByAll_cons, inductionHypothesis, holdings_judgeBy apart]

theorem holdings_feed (apart : m.identity ≠ series) (e : Engine) :
    ({ e with composites := e.composites.map fun _ c => c.feed m } : Engine).holdings series =
      e.holdings series := by
  have ruleWindow (c : Composite) (place : Nat) :
      (c.feed m).ruleWindow? place series = c.ruleWindow? place series := by
    rcases Composite.feed_cases c m with idle | ⟨checked, fed⟩
    · rw [idle]
    · rw [fed]
      exact Composite.ruleWindow?_check apart c checked place
  have item (c : Composite) (group key : String) :
      (c.feed m).item? group key series = c.item? group key series := by
    rcases Composite.feed_cases c m with idle | ⟨checked, fed⟩
    · rw [idle]
    · rw [fed]
      exact Composite.item?_check apart c checked group key
  refine Holdings.ext rfl rfl (funext fun id => funext fun place => ?_)
    (funext fun id => funext fun group => funext fun key => ?_)
  · simp only [holdings, Std.ExtTreeMap.getElem?_map]
    cases e.composites[id]? with
    | none => rfl
    | some c => exact ruleWindow c place
  · simp only [holdings, Std.ExtTreeMap.getElem?_map]
    cases e.composites[id]? with
    | none => rfl
    | some c => exact item c group key

theorem holdings_judgeMetric (apart : m.identity ≠ series) (e : Engine) (now : Instant) :
    (e.judgeMetric now m).2.holdings series = e.holdings series := by
  rw [judgeMetric, holdings_feed apart, holdings_judgeByAll apart]
  rfl

/-- Judging metrics of other identities leaves all that is held under an identity. -/
theorem holdings_judge {metrics : List Metric} (apart : ∀ m ∈ metrics, m.identity ≠ series)
    (e : Engine) (now : Instant) : (e.judge now metrics).2.holdings series = e.holdings series := by
  induction metrics generalizing e with
  | nil => rfl
  | cons m metrics inductionHypothesis =>
    rw [List.forall_mem_cons] at apart
    rw [judge_cons, inductionHypothesis apart.2, holdings_judgeMetric apart.1]

/-- Metrics of one series have the same text. The converse holds as far as no mark of the text
stands in their names, tags and endpoints; and as far as the fingerprint keeps the texts apart,
judging metrics of other series leaves the windows, the last events and the items of a series as
they are, in any state of the engine. -/
theorem series_kept_apart (n : Metric) :
    (∀ m : Metric, m.SameSeries n → m.identityText = n.identityText) ∧
    (n.Plain →
      (∀ m : Metric, m.Plain → (m.identityText = n.identityText ↔ m.SameSeries n)) ∧
      ∀ (e : Engine) (now : Instant) (metrics : List Metric),
        (∀ m ∈ metrics, m.Plain ∧ ¬ m.SameSeries n) →
        (∀ m ∈ metrics, Digest.fingerprint m.identityText = Digest.fingerprint n.identityText →
          m.identityText = n.identityText) →
        (e.judge now metrics).2.holdings n.identity = e.holdings n.identity) := by
  refine ⟨fun m => Metric.SameSeries.identityText, fun plain => ⟨fun m plainM =>
    ⟨Metric.sameSeries_of_identityText plainM plain, Metric.SameSeries.identityText⟩,
    fun e now metrics others distinct => ?_⟩⟩
  apply holdings_judge
  intro m member same
  obtain ⟨plainM, other⟩ := others m member
  exact other (Metric.sameSeries_of_identityText plainM plain (distinct m member same))

/-- A sample of another host leaves the window of a host as it is. -/
theorem window_beside_other_host :
    let cpu (host : String) (timestamp : Int64) : Metric :=
      { name := "cpu", endpoint := host, value := 95, timestamp := timestamp }
    let own := (cpu "web-01" 1).identity
    let u : Monitor :=
      { strategy := { id := 1, metric := "cpu", func := "all(#2)", op := ">", rightValue := 90 }
        rule := ⟨.select "value", ⟨.all, 2, none⟩, .greater, 90, []⟩
        windows := (∅ : Dictionary SlidingWindow).insert own ⟨2, [⟨95, 1⟩]⟩ }
    let e : Engine :=
      { monitors := (∅ : Std.ExtTreeMap Int64 Monitor).insert 1 u
        dispatch := (∅ : Dictionary (List Int64)).insert "cpu" [1] }
    ¬ (cpu "web-02" 2).SameSeries (cpu "web-01" 1) ∧
      ((e.judge .epoch [cpu "web-02" 2]).2.holdings own).window 1 = some ⟨2, [⟨95, 1⟩]⟩ := by
  intro cpu own u e
  have plain (host : String) (without : unitSeparator ∉ host.toList) (timestamp : Int64) :
      (cpu host timestamp).Plain := by
    have untagged : (cpu host timestamp).tags.toList = [] :=
      Std.ExtTreeMap.toList_eq_nil_iff.mpr rfl
    have name : unitSeparator ∉ "cpu".toList := by decide
    constructor
    case name => exact name
    case parts => simp [untagged]
    case keys => simp [untagged]
    case endpoint => exact without
  have other : ¬ (cpu "web-02" 2).SameSeries (cpu "web-01" 1) := fun same =>
    absurd same.endpoint (by decide)
  have apart : Digest.fingerprint (cpu "web-02" 2).identityText ≠
      Digest.fingerprint (cpu "web-01" 1).identityText := by decide +kernel
  obtain ⟨-, kept⟩ := (series_kept_apart (cpu "web-01" 1)).2 (plain "web-01" (by decide) 1)
  have same := kept e .epoch [cpu "web-02" 2]
    (by
      rw [List.forall_mem_singleton]
      exact ⟨plain "web-02" (by decide) 2, other⟩)
    (by
      rw [List.forall_mem_singleton]
      exact fun merged => absurd merged apart)
  refine ⟨other, ?_⟩
  rw [same]
  simp only [holdings, e, u, Std.ExtTreeMap.getElem?_insert_self, Option.bind_some]
  exact Std.ExtTreeMap.getElem?_insert_self

/-- An equals sign in a key makes two series look alike. -/
theorem equals_sign_merges_series :
    let m : Metric := { name := "cpu", tags := Dictionary.ofEntries [("a", "b=c")] }
    let n : Metric := { name := "cpu", tags := Dictionary.ofEntries [("a=b", "c")] }
    m.identityText = n.identityText ∧ ¬ m.SameSeries n := by
  intro m n
  refine ⟨by decide +kernel, fun same => ?_⟩
  have differs : m.tags["a"]? ≠ n.tags["a"]? := by decide +kernel
  exact differs (by rw [same.tags])

end Engine

end AlertEngine
