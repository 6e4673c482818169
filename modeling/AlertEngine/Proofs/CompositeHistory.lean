import AlertEngine.Proofs.EngineRuns
import AlertEngine.Proofs.EventIds

/-! # Composites and the verdicts on their series

A composite keeps one item for every rule that fails on a series, in the group of the series. This
module proves that the items are what the last verdicts say, after any run of checks, scans and
evictions.

* `Composite.Call`, `Composite.run`: the calls, one after the other.
* `Verdict`, `verdicts`, `latest?`: the checks that ended with `ok` or `problem`, and the last of
  them by one rule on one series in one group.
* `check_cases`: everything that a check can do.
* `item?_perform_of_none`, `item?_perform_of_some`: what a call does to one item.
* `items_after_run`: the items after any run, in terms of the last verdicts.
-/

namespace AlertEngine

def SubRule.idle (sub : SubRule) : SubRule :=
  { sub with monitor := { sub.monitor with windows := ∅ } }

namespace Composite

/-! ## Calls -/

inductive Call where
  | check (place : Nat) (m : Metric)
  | scan (now : Instant)
  | evictIdle (cutoff : Int64)

def perform (c : Composite) : Call → Composite
  | .check place m => (c.check place m).2
  | .scan now => (c.scan now).2
  | .evictIdle cutoff => c.evictIdle cutoff

def run (c : Composite) (calls : List Call) : Composite := calls.foldl perform c

/-! ## Verdicts -/

structure Verdict where
  place : Nat
  metric : Metric
  judgment : Judgment

def verdict? (c : Composite) : Call → Option Verdict
  | .check place m =>
    match (c.check place m).1 with
    | .ok judgment =>
      if judgment.status = .ok ∨ judgment.status = .problem then some ⟨place, m, judgment⟩
      else none
    | .error _ => none
  | .scan _ => none
  | .evictIdle _ => none

def verdicts (c : Composite) : List Call → List Verdict
  | [] => []
  | call :: calls => (c.verdict? call).toList ++ (c.perform call).verdicts calls

def groupOf (c : Composite) (m : Metric) : String := groupKey (c.groupTags m)

/-- The last verdict of the rule in a place on a series in a group. -/
def latest? (c : Composite) (calls : List Call) (group : String) (place : Nat) (series : String) :
    Option Verdict :=
  ((c.verdicts calls).filter fun v =>
    v.place == place && v.metric.identity == series && c.groupOf v.metric == group).getLast?

/-! ## Items -/

def item? (c : Composite) (group key series : String) : Option ScoreItem :=
  (c.groups[group]?).bind fun g => g.items[(key, series)]?

def itemOf (sub : SubRule) (m : Metric) (value : Float) : ScoreItem where
  ruleKey := sub.key
  ruleHash := sub.hash
  weight := sub.weight
  value := value
  identity := m.identity
  timestamp := m.timestamp

def definition (c : Composite) : CompositeStrategy × Comparison × List SubRule :=
  (c.strategy, c.comparison, c.subs.map SubRule.idle)

variable {c d : Composite} {sub : SubRule} {m : Metric} {judgment : Judgment} {call : Call}
  {group key series : String}

theorem groupOf_congr (same : d.definition = c.definition) (m : Metric) :
    d.groupOf m = c.groupOf m := by
  have strategy : d.strategy = c.strategy := congrArg Prod.fst same
  rw [groupOf, groupOf, groupTags, groupTags, strategy]

theorem subs_congr (same : d.definition = c.definition) (place : Nat) :
    (d.subs[place]?).map SubRule.idle = (c.subs[place]?).map SubRule.idle := by
  have subs : d.subs.map SubRule.idle = c.subs.map SubRule.idle :=
    congrArg (fun parts => parts.2.2) same
  rw [← List.getElem?_map, subs, List.getElem?_map]

/-! ## Recording -/

theorem record_of_not_judged (calm : judgment.status ≠ .ok) (quiet : judgment.status ≠ .problem) :
    c.record sub m.identity m judgment = c := by
  unfold record
  cases status : judgment.status <;> simp_all

theorem record_problem (alarm : judgment.status = .problem) :
    c.record sub m.identity m judgment =
      { c with
        groups := c.groups.insert (c.groupOf m)
          (((c.groups[c.groupOf m]?).getD {}).fail (c.groupTags m) m
            (itemOf sub m judgment.leftValue)) } := by
  simp only [record, alarm]
  rfl

theorem record_ok_of_none (calm : judgment.status = .ok) (absent : c.groups[c.groupOf m]? = none) :
    c.record sub m.identity m judgment = c := by
  rw [groupOf] at absent
  simp only [record, calm, absent]

theorem record_ok_of_some {g : ScoreGroup} (calm : judgment.status = .ok)
    (present : c.groups[c.groupOf m]? = some g) :
    c.record sub m.identity m judgment =
      { c with groups := c.groups.insert (c.groupOf m) (g.clear sub.key m.identity m) } := by
  rw [groupOf] at present
  simp only [record, calm, present]
  rfl

theorem definition_record :
    (c.record sub m.identity m judgment).definition = c.definition := by
  by_cases alarm : judgment.status = .problem
  · rw [record_problem alarm]
    rfl
  by_cases calm : judgment.status = .ok
  · cases present : c.groups[c.groupOf m]? with
    | none => rw [record_ok_of_none calm present]
    | some g =>
      rw [record_ok_of_some calm present]
      rfl
  · rw [record_of_not_judged calm alarm]

theorem groups_record_problem (alarm : judgment.status = .problem) :
    (c.record sub m.identity m judgment).groups[group]? =
      if c.groupOf m = group then
        some (((c.groups[group]?).getD {}).fail (c.groupTags m) m
          (itemOf sub m judgment.leftValue))
      else c.groups[group]? := by
  rw [record_problem alarm]
  simp only [Std.ExtTreeMap.getElem?_insert, Std.compare_eq_iff_eq]
  split
  · rename_i own
    rw [own]
  · rfl

theorem groups_record_ok (calm : judgment.status = .ok) :
    (c.record sub m.identity m judgment).groups[group]? =
      if c.groupOf m = group then (c.groups[group]?).map fun g => g.clear sub.key m.identity m
      else c.groups[group]? := by
  cases present : c.groups[c.groupOf m]? with
  | none =>
    rw [record_ok_of_none calm present]
    split
    · rename_i own
      rw [← own, present, Option.map_none]
    · rfl
  | some g =>
    rw [record_ok_of_some calm present]
    simp only [Std.ExtTreeMap.getElem?_insert, Std.compare_eq_iff_eq]
    split
    · rename_i own
      rw [← own, present, Option.map_some]
    · rfl

theorem item?_record_problem (alarm : judgment.status = .problem) :
    (c.record sub m.identity m judgment).item? group key series =
      if c.groupOf m = group ∧ sub.key = key ∧ m.identity = series then
        some (itemOf sub m judgment.leftValue)
      else c.item? group key series := by
  rw [item?, groups_record_problem alarm]
  by_cases own : c.groupOf m = group
  · simp only [own, true_and, if_true, Option.bind_some, ScoreGroup.fail, itemOf,
      Std.ExtTreeMap.getElem?_insert, Std.compare_eq_iff_eq, Prod.mk.injEq]
    split
    · rfl
    · rw [item?]
      cases c.groups[group]? <;> simp
  · rw [if_neg own, if_neg fun all => own all.1, item?]

theorem item?_record_ok (calm : judgment.status = .ok) :
    (c.record sub m.identity m judgment).item? group key series =
      if c.groupOf m = group ∧ sub.key = key ∧ m.identity = series then none
      else c.item? group key series := by
  rw [item?, groups_record_ok calm]
  by_cases own : c.groupOf m = group
  · simp only [own, true_and, if_true, item?]
    cases c.groups[group]? with
    | none => simp
    | some g =>
      simp only [Option.map_some, Option.bind_some, ScoreGroup.clear,
        Std.ExtTreeMap.getElem?_erase, Std.compare_eq_iff_eq, Prod.mk.injEq]
  · rw [if_neg own, if_neg fun all => own all.1, item?]

/-! ## One call -/

/-- The composite when the rule in a place has taken in a metric and nothing is recorded yet. -/
def watched (c : Composite) (place : Nat) (sub : SubRule) (m : Metric) : Composite :=
  { c with
    subs := c.subs.set place
      { sub with monitor := (sub.monitor.checkSeries m.identity m).2 } }

theorem definition_watched {place : Nat} (found : c.subs[place]? = some sub) :
    (c.watched place sub m).definition = c.definition := by
  have idle : ({ sub with monitor := (sub.monitor.checkSeries m.identity m).2 } : SubRule).idle =
      sub.idle := by
    rcases Engine.checkSeries_cases sub.monitor m.identity m with same | ⟨w, changed⟩
    · rw [same]
    · rw [changed]
      rfl
  have subs : (c.watched place sub m).subs.map SubRule.idle = c.subs.map SubRule.idle := by
    apply List.ext_getElem?
    intro other
    simp only [watched, List.map_set, idle, List.getElem?_set, List.getElem?_map, List.length_map]
    split
    · rename_i own
      obtain ⟨inside, _⟩ := List.getElem?_eq_some_iff.mp found
      rw [if_pos inside, ← own, found, Option.map_some]
    · rfl
  rw [definition, subs]
  rfl

/-- A check without a verdict changes windows alone; a verdict is recorded. -/
theorem check_cases (c : Composite) (place : Nat) (m : Metric) :
    (c.verdict? (.check place m) = none ∧ (c.check place m).2.groups = c.groups ∧
        (c.check place m).2.definition = c.definition) ∨
      ∃ sub judgment, c.subs[place]? = some sub ∧
        c.verdict? (.check place m) = some ⟨place, m, judgment⟩ ∧
        (judgment.status = .ok ∨ judgment.status = .problem) ∧
        (c.check place m).2 = (c.watched place sub m).record sub m.identity m judgment := by
  cases found : c.subs[place]? with
  | none =>
    have nothing : c.check place m = (.ok ⟨.ignored, m.value⟩, c) := by simp only [check, found]
    refine .inl ?_
    rw [verdict?, nothing]
    exact ⟨rfl, rfl, rfl⟩
  | some sub =>
    cases outcome : (sub.monitor.checkSeries m.identity m).1 with
    | error fault =>
      have failed : c.check place m = (.error fault, c.watched place sub m) := by
        simp only [check, found, outcome, watched]
      refine .inl ?_
      rw [verdict?, failed]
      exact ⟨rfl, rfl, definition_watched found⟩
    | ok judgment =>
      have judged : c.check place m =
          (.ok judgment, (c.watched place sub m).record sub m.identity m judgment) := by
        simp only [check, found, outcome, watched]
      by_cases spoken : judgment.status = .ok ∨ judgment.status = .problem
      · refine .inr ⟨sub, judgment, rfl, ?_, spoken, ?_⟩
        · simp only [verdict?, judged, spoken, if_true]
        · rw [judged]
      · rw [not_or] at spoken
        refine .inl ⟨?_, ?_, ?_⟩
        · simp only [verdict?, judged, spoken, or_self, if_false]
        · rw [judged, record_of_not_judged spoken.1 spoken.2]
          rfl
        · rw [judged, record_of_not_judged spoken.1 spoken.2]
          exact definition_watched found

theorem call_of_verdict? {v : Verdict} (spoken : c.verdict? call = some v) :
    call = .check v.place v.metric := by
  cases call with
  | check place m =>
    rcases check_cases c place m with ⟨silent, _⟩ | ⟨_, judgment, _, verdict, _⟩
    · rw [silent] at spoken
      cases spoken
    · rw [verdict, Option.some.injEq] at spoken
      rw [← spoken]
  | scan now => cases spoken
  | evictIdle cutoff => cases spoken

theorem definition_perform (c : Composite) (call : Call) :
    (c.perform call).definition = c.definition := by
  cases call with
  | check place m =>
    rcases check_cases c place m with ⟨_, _, same⟩ | ⟨sub, judgment, found, _, _, recorded⟩
    · exact same
    · rw [perform, recorded, definition_record, definition_watched found]
  | scan now => rfl
  | evictIdle cutoff =>
    rw [perform, definition, evictIdle, List.map_map]
    rfl

theorem item?_perform_of_none (silent : c.verdict? call = none) :
    (c.perform call).item? group key series = c.item? group key series := by
  cases call with
  | check place m =>
    rcases check_cases c place m with ⟨_, same, _⟩ | ⟨sub, judgment, _, spoken, _⟩
    · rw [item?, item?, perform, same]
    · rw [silent] at spoken
      cases spoken
  | scan now =>
    simp only [item?, perform, scan, Std.ExtTreeMap.getElem?_filter']
    cases c.groups[group]? with
    | none => rfl
    | some g =>
      rw [Option.filter_some]
      split
      · rfl
      · rename_i empty
        rw [Bool.not_eq_true', Bool.not_eq_false, Std.ExtTreeMap.isEmpty_iff] at empty
        simp [empty]
  | evictIdle cutoff => rfl

/-- A verdict sets the item of its rule on its series in its group, or takes it away, and leaves
every other item as it is. -/
theorem item?_perform_of_some {v : Verdict} (spoken : c.verdict? call = some v) :
    ∃ sub, c.subs[v.place]? = some sub ∧ ∀ group key series,
      (c.perform call).item? group key series =
        if c.groupOf v.metric = group ∧ sub.key = key ∧ v.metric.identity = series then
          if v.judgment.status = .problem then some (itemOf sub v.metric v.judgment.leftValue)
          else none
        else c.item? group key series := by
  cases call with
  | check place m =>
    rcases check_cases c place m with
      ⟨silent, _⟩ | ⟨sub, judgment, found, verdict, judged, recorded⟩
    · rw [silent] at spoken
      cases spoken
    · rw [verdict, Option.some.injEq] at spoken
      subst spoken
      refine ⟨sub, found, fun group key series => ?_⟩
      rw [perform, recorded]
      rcases judged with calm | alarm
      · have differs : judgment.status ≠ .problem := by
          rw [calm]
          decide
        rw [item?_record_ok calm, if_neg differs]
        rfl
      · rw [item?_record_problem alarm, if_pos alarm]
        rfl
  | scan now => cases spoken
  | evictIdle cutoff => cases spoken

theorem groups_perform (present : group ∈ c.groups) (gone : group ∉ (c.perform call).groups) :
    (∃ now, call = .scan now) ∧ ∀ g, c.groups[group]? = some g → g.items = ∅ := by
  cases call with
  | check place m =>
    exfalso
    apply gone
    rcases check_cases c place m with ⟨_, same, _⟩ | ⟨sub, judgment, _, _, judged, recorded⟩
    · rw [perform, same]
      exact present
    · obtain ⟨g, found⟩ := mem_iff_exists_getElem?.mp present
      have before : (c.watched place sub m).groups[group]? = some g := found
      rw [perform, recorded, Std.ExtTreeMap.mem_iff_isSome_getElem?]
      rcases judged with calm | alarm
      · rw [groups_record_ok calm, before]
        split <;> rfl
      · rw [groups_record_problem alarm, before]
        split <;> rfl
  | scan now =>
    refine ⟨⟨now, rfl⟩, fun g found => ?_⟩
    by_contra filled
    apply gone
    have kept : g.items.isEmpty = false := by
      rw [Bool.eq_false_iff, ne_eq, Std.ExtTreeMap.isEmpty_iff]
      exact filled
    rw [Std.ExtTreeMap.mem_iff_isSome_getElem?]
    simp only [perform, scan, Std.ExtTreeMap.getElem?_filter', found, Option.filter_some, kept,
      Bool.not_false, if_true, Option.isSome_some]
  | evictIdle cutoff => exact absurd present gone

/-! ## Keys of rules -/

theorem subKey_injective {id : Int64} {p q : Nat} (same : subKey id p = subKey id q) : p = q := by
  unfold subKey at same
  have lists := List.append_cancel_left (String.ofList_injective same)
  exact Int.ofNat_inj.mp (writeInteger_injective (List.cons.inj lists).2)

theorem key_of_subRules {id : Int64} {start : Nat} {strategies : List Strategy}
    {subs : List SubRule} (read : subRules id start strategies = .ok subs) {place : Nat}
    (found : subs[place]? = some sub) : sub.key = subKey id (start + place) := by
  induction strategies generalizing start subs place with
  | nil =>
    cases read
    cases found
  | cons s rest inductionHypothesis =>
    obtain ⟨monitor, _, read⟩ := bind_eq_ok_iff.mp read
    obtain ⟨others, readOthers, built⟩ := bind_eq_ok_iff.mp read
    cases pure_eq_ok_iff.mp built
    cases place with
    | zero =>
      cases found
      rfl
    | succ place =>
      rw [inductionHypothesis readOthers found, Nat.add_right_comm, Nat.add_assoc]

theorem place_of_key {s : CompositeStrategy} (accepted : ofStrategy s = .ok c) {p q : Nat}
    {first second : SubRule} (foundFirst : c.subs[p]? = some first)
    (foundSecond : c.subs[q]? = some second) (same : first.key = second.key) : p = q := by
  obtain ⟨_, _, definitions, _, read⟩ := fresh_of_ofStrategy accepted
  rw [key_of_subRules read foundFirst, key_of_subRules read foundSecond, Nat.zero_add,
    Nat.zero_add] at same
  exact subKey_injective same

/-! ## Runs -/

theorem run_snoc (c : Composite) (calls : List Call) (call : Call) :
    c.run (calls ++ [call]) = (c.run calls).perform call := by
  rw [run, List.foldl_append]
  rfl

theorem definition_run (c : Composite) (calls : List Call) :
    (c.run calls).definition = c.definition := by
  induction calls using List.reverseRecOn with
  | nil => rfl
  | append_singleton calls call inductionHypothesis =>
    rw [run_snoc, definition_perform, inductionHypothesis]

theorem verdicts_snoc (c : Composite) (calls : List Call) (call : Call) :
    c.verdicts (calls ++ [call]) = c.verdicts calls ++ ((c.run calls).verdict? call).toList := by
  induction calls generalizing c with
  | nil => simp [verdicts, run]
  | cons first calls inductionHypothesis =>
    rw [List.cons_append, verdicts, verdicts, inductionHypothesis, List.append_assoc]
    rfl

theorem latest?_snoc_of_none {calls : List Call} (silent : (c.run calls).verdict? call = none)
    (group : String) (place : Nat) (series : String) :
    c.latest? (calls ++ [call]) group place series = c.latest? calls group place series := by
  rw [latest?, verdicts_snoc, silent, Option.toList_none, List.append_nil, latest?]

theorem latest?_snoc_of_some {calls : List Call} {v : Verdict}
    (spoken : (c.run calls).verdict? call = some v) (group : String) (place : Nat)
    (series : String) :
    c.latest? (calls ++ [call]) group place series =
      if v.place = place ∧ v.metric.identity = series ∧ c.groupOf v.metric = group then some v
      else c.latest? calls group place series := by
  rw [latest?, verdicts_snoc, spoken, Option.toList_some, List.filter_append]
  split
  · rename_i own
    obtain ⟨rfl, rfl, rfl⟩ := own
    rw [List.filter_cons_of_pos (by simp), List.filter_nil, List.getLast?_concat]
  · rename_i apart
    rw [List.filter_cons_of_neg (by simpa [and_assoc] using apart), List.filter_nil,
      List.append_nil, latest?]

theorem identity_of_latest? {calls : List Call} {place : Nat} {v : Verdict}
    (last : c.latest? calls group place series = some v) : v.metric.identity = series := by
  have chosen := (List.mem_filter.mp (List.mem_of_getLast? last)).2
  simp only [Bool.and_eq_true, beq_iff_eq] at chosen
  exact chosen.1.2

def itemFrom (sub : SubRule) (last : Option Verdict) : Option ScoreItem :=
  last.bind fun v =>
    if v.judgment.status = .problem then some (itemOf sub v.metric v.judgment.leftValue) else none

/-- The items of a composite are what the last verdicts of a run say, and all of them are of its
rules. -/
structure Reflects (c d : Composite) (calls : List Call) : Prop where
  items : ∀ group place (sub : SubRule) series, c.subs[place]? = some sub →
    d.item? group sub.key series = itemFrom sub (c.latest? calls group place series)
  keys : ∀ group key series, d.item? group key series ≠ none →
    ∃ (place : Nat) (sub : SubRule), c.subs[place]? = some sub ∧ sub.key = key

theorem sub_of_run {calls : List Call} {place : Nat}
    (found : (c.run calls).subs[place]? = some sub) :
    ∃ first, c.subs[place]? = some first ∧ first.idle = sub.idle :=
  exists_of_map_eq (subs_congr (definition_run c calls) place) found

theorem Reflects.perform {s : CompositeStrategy} (accepted : ofStrategy s = .ok c)
    {calls : List Call} (reflects : Reflects c (c.run calls) calls) (call : Call) :
    Reflects c ((c.run calls).perform call) (calls ++ [call]) := by
  cases spoken : (c.run calls).verdict? call with
  | none =>
    refine ⟨fun group place sub series found => ?_, fun group key series present => ?_⟩
    · rw [item?_perform_of_none spoken, latest?_snoc_of_none spoken]
      exact reflects.items group place sub series found
    · rw [item?_perform_of_none spoken] at present
      exact reflects.keys group key series present
  | some v =>
    -- The rule that speaks has kept its key, its weight and its hash since the start.
    obtain ⟨later, foundLater, changed⟩ := item?_perform_of_some spoken
    obtain ⟨speaker, foundSpeaker, same⟩ := sub_of_run foundLater
    have sameKey : speaker.key = later.key := congrArg (fun sub => sub.idle.key) same
    have sameItem : itemOf speaker v.metric v.judgment.leftValue =
        itemOf later v.metric v.judgment.leftValue :=
      calc
        itemOf speaker v.metric v.judgment.leftValue
        _ = itemOf speaker.idle v.metric v.judgment.leftValue := rfl
        _ = itemOf later.idle v.metric v.judgment.leftValue := by rw [same]
    refine ⟨fun group place sub series found => ?_, fun group key series present => ?_⟩
    · have own : speaker.key = sub.key ↔ v.place = place := by
        constructor
        · exact place_of_key accepted foundSpeaker found
        · rintro rfl
          rw [foundSpeaker, Option.some.injEq] at found
          rw [found]
      rw [changed, latest?_snoc_of_some spoken, groupOf_congr (definition_run c calls), ← sameKey,
        ← sameItem]
      by_cases concerns : v.place = place ∧ v.metric.identity = series ∧
          c.groupOf v.metric = group
      · obtain ⟨rfl, rfl, rfl⟩ := concerns
        rw [foundSpeaker, Option.some.injEq] at found
        simp [itemFrom, found]
      · rw [if_neg concerns, if_neg fun all => concerns ⟨own.mp all.2.1, all.2.2, all.1⟩]
        exact reflects.items group place sub series found
    · rw [changed] at present
      split at present
      · rename_i concerns
        exact ⟨v.place, speaker, foundSpeaker, sameKey.trans concerns.2.1⟩
      · exact reflects.keys group key series present

theorem reflects_run {s : CompositeStrategy} (accepted : ofStrategy s = .ok c)
    (calls : List Call) : Reflects c (c.run calls) calls := by
  induction calls using List.reverseRecOn with
  | nil =>
    have empty : c.groups = ∅ := (fresh_of_ofStrategy accepted).2.1
    refine ⟨fun group place sub series _ => ?_, fun group key series present => ?_⟩
    · simp [run, item?, empty, latest?, verdicts, itemFrom]
    · simp [run, item?, empty] at present
  | append_singleton calls call inductionHypothesis =>
    rw [run_snoc]
    exact inductionHypothesis.perform accepted call

/-- After any run of a composite, a group holds an item of a rule and a series exactly when the last
verdict of that rule on that series in that group is a failure, and the item is as the verdict and
the rule say; there are items of the composite's own rules alone. A call without a verdict, such as
a check in a place without a rule, changes no item, and a group goes only by a scan that finds it
without items. -/
theorem items_after_run {s : CompositeStrategy} {c : Composite} (accepted : ofStrategy s = .ok c)
    (calls : List Call) :
    let d := c.run calls
    (∀ group place (sub : SubRule) series, c.subs[place]? = some sub → ∀ item,
      d.item? group sub.key series = some item ↔
        ∃ v, c.latest? calls group place series = some v ∧ v.judgment.status = .problem ∧
          item =
            { ruleKey := sub.key
              ruleHash := sub.hash
              weight := sub.weight
              value := v.judgment.leftValue
              identity := series
              timestamp := v.metric.timestamp }) ∧
    (∀ group key series, d.item? group key series ≠ none →
      ∃ (place : Nat) (sub : SubRule), c.subs[place]? = some sub ∧ sub.key = key) ∧
    (∀ call, d.verdict? call = none → ∀ group key series,
      (d.perform call).item? group key series = d.item? group key series) ∧
    (∀ place m, c.subs.length ≤ place → d.verdict? (.check place m) = none) ∧
    ∀ call group, group ∈ d.groups → group ∉ (d.perform call).groups →
      (∃ now, call = .scan now) ∧ ∀ g, d.groups[group]? = some g → g.items = ∅ := by
  intro d
  have reflects : Reflects c d calls := reflects_run accepted calls
  refine ⟨fun group place sub series found item => ?_, reflects.keys,
    fun call silent group key series => item?_perform_of_none silent, fun place m outside => ?_,
    fun call group present gone => groups_perform present gone⟩
  · rw [reflects.items group place sub series found, itemFrom, Option.bind_eq_some_iff]
    refine exists_congr fun v => and_congr_right fun last => ?_
    rw [Option.ite_none_right_eq_some, Option.some.injEq, itemOf, identity_of_latest? last,
      eq_comm (b := item)]
  · rcases check_cases d place m with ⟨silent, _⟩ | ⟨sub, judgment, found, _⟩
    · exact silent
    · obtain ⟨first, foundFirst, _⟩ := sub_of_run found
      rw [List.getElem?_eq_none outside] at foundFirst
      cases foundFirst

/-- A rule fails on a series and a scan passes: there is an item, and it tells of the failure. When
the rule then finds the series in order, the item goes, and its last verdict is no failure. -/
theorem item_after_failure :
    let rule : Strategy :=
      { id := 1, metric := "cpu", func := "all(#1)", op := ">", rightValue := 90, weight := 40 }
    let s : CompositeStrategy := { id := 7, strategies := [rule], op := ">=", rightValue := 60 }
    let sub : SubRule :=
      { key := subKey 7 0
        hash := Digest.fingerprint (ruleText rule)
        weight := 40
        monitor :=
          { strategy := rule, rule := ⟨.select "value", ⟨.all, 1, none⟩, .greater, 90, []⟩ } }
    let c : Composite := { strategy := s, comparison := .greaterEqual, subs := [sub] }
    let cpu (timestamp : Int64) (value : Float) : Metric :=
      { name := "cpu", value := value, timestamp := timestamp }
    let series := (cpu 10 95).identity
    let failing : List Call := [.check 0 (cpu 10 95), .scan .epoch]
    let recovered : List Call := failing ++ [.check 0 (cpu 20 5)]
    ofStrategy s = .ok c ∧
      (c.run failing).item? groupOfAll sub.key series =
        some ⟨sub.key, sub.hash, 40, 95, series, 10⟩ ∧
      (∃ v, c.latest? failing groupOfAll 0 series = some v ∧ v.judgment.status = .problem) ∧
      (c.run recovered).item? groupOfAll sub.key series = none ∧
      ∀ v, c.latest? recovered groupOfAll 0 series = some v → v.judgment.status ≠ .problem := by
  intro rule s sub c cpu series failing recovered
  have transform : Transform.parse "select(value)" = .ok sub.monitor.rule.transform := by
    decide +kernel
  have function : WindowFunction.parse "all(#1)" = .ok sub.monitor.rule.function := by
    decide +kernel
  have comparison : Comparison.ofText ">" = .ok sub.monitor.rule.comparison := by decide +kernel
  have filters : TagFilter.parse "" = .ok sub.monitor.rule.filters := by decide +kernel
  have threshold : Comparison.ofText ">=" = .ok c.comparison := by decide +kernel
  have accepted : ofStrategy s = .ok c := by
    have monitor : Monitor.ofStrategy rule = .ok sub.monitor := by
      simp only [Monitor.ofStrategy, Rule.compile, rule, transform, function, comparison, filters]
      rfl
    have rules : subRules 7 0 [rule] = .ok [sub] := by
      simp only [subRules, monitor]
      rfl
    exact bind_eq_ok_iff.mpr ⟨c.comparison, threshold, bind_eq_ok_iff.mpr
      ⟨[rule], rfl, bind_eq_ok_iff.mpr ⟨[sub], rules, rfl⟩⟩⟩
  have present : (c.run failing).item? groupOfAll sub.key series =
      some ⟨sub.key, sub.hash, 40, 95, series, 10⟩ := by decide +kernel
  have absent : (c.run recovered).item? groupOfAll sub.key series = none := by decide +kernel
  refine ⟨accepted, present, ?_, absent, ?_⟩
  · obtain ⟨v, last, alarm, _⟩ :=
      ((items_after_run accepted failing).1 groupOfAll 0 sub series rfl _).mp present
    exact ⟨v, last, alarm⟩
  · intro v last alarm
    have failed := ((items_after_run accepted recovered).1 groupOfAll 0 sub series rfl _).mpr
      ⟨v, last, alarm, rfl⟩
    rw [absent] at failed
    cases failed

end Composite

end AlertEngine
