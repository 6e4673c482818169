import AlertEngine.Proofs.CompositeHistory
import AlertEngine.Proofs.ScanOutcomes
import AlertEngine.Proofs.WrittenEvents

/-! # Reports of scans

A scan reports on every group of a composite. The report breaks the score of the group down by the
rules and series that make it up, under names that put a colon between the two. Afterwards the
groups without items are dropped, and a scan that follows reports on the others again.

* `ScoreItem.name`: the name of an item in a report; `Placed`, `placed_run`: the items of a group
  stand under the keys of rules and under their series.
* `Placed.name_injective`: no two items of a group share a name.
* `Tells`: what the report on a group says of it; `tells_reportScoring`.
* `Filled`: a composite without empty groups; `groups_scan_of_filled`, `groups_run_of_filled`.
* `MayReport.exists_tells`, `MayReport.mem_again_iff`: what scans in any order say, and what a second
  one says again.
* `scan_reports`: scans after any run.
-/

namespace AlertEngine

def ScoreItem.name (item : ScoreItem) : String := item.ruleKey ++ ":" ++ item.identity

namespace Composite

variable {c d : Composite} {g : ScoreGroup} {key : String} {now : Instant} {id : Int64}

/-! ## Items of a group -/

theorem colon_not_mem_subKey (id : Int64) (place : Nat) : ':' ∉ (subKey id place).toList := by
  rw [subKey, String.toList_ofList, List.mem_append, List.mem_cons]
  have notInNumber (n : Int) : ':' ∉ writeInteger n := not_mem_writeInteger rfl (by decide) n
  rintro (member | sign | member)
  · exact notInNumber _ member
  · exact absurd sign (by decide)
  · exact notInNumber _ member

structure Placed (id : Int64) (g : ScoreGroup) : Prop where
  own : ∀ (key : String × String) (item : ScoreItem), g.items[key]? = some item →
    key = (item.ruleKey, item.identity)
  rule : ∀ (key : String × String) (item : ScoreItem), g.items[key]? = some item →
    ∃ place, item.ruleKey = subKey id place

theorem placed_run {s : CompositeStrategy} (accepted : ofStrategy s = .ok c) (calls : List Call)
    (found : (c.run calls).groups[key]? = some g) : Placed s.id g := by
  have reflects : Reflects c (c.run calls) calls := reflects_run accepted calls
  obtain ⟨_, _, definitions, _, read⟩ := fresh_of_ofStrategy accepted
  have told (ruleKey series : String) (item : ScoreItem)
      (held : g.items[(ruleKey, series)]? = some item) :
      item.ruleKey = ruleKey ∧ item.identity = series ∧ ∃ place, ruleKey = subKey s.id place := by
    have present : (c.run calls).item? key ruleKey series = some item := by
      rw [item?, found, Option.bind_some, held]
    obtain ⟨place, sub, foundSub, rfl⟩ := reflects.keys key ruleKey series (by simp [present])
    rw [reflects.items key place sub series foundSub, itemFrom, Option.bind_eq_some_iff] at present
    obtain ⟨v, last, recorded⟩ := present
    rw [Option.ite_none_right_eq_some, Option.some.injEq] at recorded
    rw [← recorded.2]
    exact ⟨rfl, identity_of_latest? last, 0 + place, key_of_subRules read foundSub⟩
  constructor
  · rintro ⟨ruleKey, series⟩ item held
    obtain ⟨rule, identity, _⟩ := told ruleKey series item held
    rw [rule, identity]
  · rintro ⟨ruleKey, series⟩ item held
    obtain ⟨rule, _, place, named⟩ := told ruleKey series item held
    exact ⟨place, rule.trans named⟩

namespace Placed

variable {a b : (String × String) × ScoreItem}

/-- No two items of a group share a name. -/
theorem name_injective (placed : Placed id g) (first : a ∈ g.items.toList)
    (second : b ∈ g.items.toList) (same : a.2.name = b.2.name) : a = b := by
  rw [Std.ExtTreeMap.mem_toList_iff_getElem?_eq_some] at first second
  obtain ⟨place, firstRule⟩ := placed.rule _ _ first
  obtain ⟨place', secondRule⟩ := placed.rule _ _ second
  -- The colon behind the key of the rule is the first one of the name.
  have texts := congrArg String.toList same
  simp only [ScoreItem.name, String.toList_append, List.append_assoc] at texts
  have parts := append_mark_inj (by rw [firstRule]; exact colon_not_mem_subKey id place)
    (by rw [secondRule]; exact colon_not_mem_subKey id place') texts
  have keys : a.1 = b.1 := by
    rw [placed.own _ _ first, placed.own _ _ second, String.toList_injective parts.1,
      String.toList_injective parts.2]
  rw [keys, second, Option.some.injEq] at first
  exact Prod.ext keys first.symm

theorem nodup_names (placed : Placed id g) :
    (g.items.toList.map fun entry => entry.2.name).Nodup :=
  List.Nodup.map_on (fun _ first _ second same => placed.name_injective first second same)
    (nodup_toList g.items)

end Placed

/-! ## The report on a group -/

/-- What the report on a group says of it. Numbers stand as JSON has them, which is `null` for one
that is not finite. -/
structure Tells (c : Composite) (key : String) (g : ScoreGroup) (event : Event) : Prop where
  id : event.id = idStart c.id ++ key
  score : ScoreItem.IsScore (g.items.toList.map Prod.snd) event.leftValue
  status : event.status =
    if c.comparison.holds event.leftValue c.strategy.rightValue then .problem else .ok
  tags : event.tags = g.tags
  timestamp : event.timestamp = g.timestamp
  /-- The score is broken down to the items, each once and under a name of its own. -/
  breakdown : ∃ members, event.fields["scores"]? = some (.object members) ∧
    (members.map Prod.fst).Nodup ∧
    members.Perm (g.items.toList.map fun entry => (entry.2.name,
      .object [("value", .ofFloat entry.2.value), ("weight", .ofFloat entry.2.weight)]))

theorem tells_reportScoring (placed : Placed id g) {score : Float}
    (isScore : ScoreItem.IsScore (g.items.toList.map Prod.snd) score) :
    Tells c key g (c.reportScoring now key g score) where
  id := rfl
  score := isScore
  status := rfl
  tags := rfl
  timestamp := rfl
  breakdown := by
    let entries := g.items.toList.map fun entry => itemField entry.2
    have nodup : (entries.map Prod.fst).Nodup := by
      rw [List.map_map]
      exact placed.nodup_names
    have perm : (Dictionary.ofEntries entries).toList.Perm entries :=
      Dictionary.toList_ofEntries_perm nodup
    refine ⟨(Dictionary.ofEntries entries).toList, ?_, ?_, perm⟩
    · exact Dictionary.getElem?_ofEntries_of_mem (by simp) List.mem_cons_self
    · exact (perm.map Prod.fst).nodup_iff.mpr nodup

/-! ## A scan -/

/-- What a scan drops are the groups without items. -/
theorem groups_scan :
    (c.scan now).2.groups[key]? = some g ↔ c.groups[key]? = some g ∧ g.items ≠ ∅ := by
  simp only [scan, Std.ExtTreeMap.getElem?_filter', Option.filter_eq_some_iff, Bool.not_eq_true',
    Bool.eq_false_iff, ne_eq, Std.ExtTreeMap.isEmpty_iff]

/-! ## Scans without checks in between -/

def Filled (c : Composite) : Prop :=
  ∀ (key : String) (g : ScoreGroup), c.groups[key]? = some g → g.items ≠ ∅

theorem filled_scan (c : Composite) (now : Instant) : (c.scan now).2.Filled :=
  fun _ _ found => (groups_scan.mp found).2

theorem groups_scan_of_filled (filled : c.Filled) (now : Instant) :
    (c.scan now).2.groups = c.groups := by
  apply Std.ExtTreeMap.ext_getElem?
  intro key
  apply Option.ext
  intro g
  rw [groups_scan]
  exact ⟨And.left, fun found => ⟨found, filled key g found⟩⟩

/-- Only checks change groups that have items. -/
theorem groups_run_of_filled (filled : c.Filled) {calls : List Call}
    (unchecked : ∀ call ∈ calls, ∀ place m, call ≠ .check place m) :
    (c.run calls).groups = c.groups := by
  induction calls using List.reverseRecOn with
  | nil => rfl
  | append_singleton calls call inductionHypothesis =>
    rw [List.forall_mem_append, List.forall_mem_singleton] at unchecked
    -- The groups have been as they are now ever since, so a scan finds none that is empty.
    have before : (c.run calls).groups = c.groups := inductionHypothesis unchecked.1
    rw [run_snoc]
    cases call with
    | check place m => exact absurd rfl (unchecked.2 place m)
    | scan now =>
      have stillFilled : (c.run calls).Filled := by
        rw [Filled, before]
        exact filled
      rw [perform, groups_scan_of_filled stillFilled, before]
    | evictIdle cutoff => exact before

theorem reportScoring_run (c : Composite) (calls : List Call) (score : Float) :
    (c.run calls).reportScoring now key g score = c.reportScoring now key g score := by
  have strategy : (c.run calls).strategy = c.strategy := congrArg Prod.fst (definition_run c calls)
  have comparison : (c.run calls).comparison = c.comparison :=
    congrArg (fun parts => parts.2.1) (definition_run c calls)
  simp only [reportScoring, report, Composite.id, strategy, comparison]

theorem MayReport.exists_tells {events : List Event} (calls : List Call)
    (reports : (c.run calls).MayReport now events) (placed : Placed id g)
    (found : (c.run calls).groups[key]? = some g) : ∃ event ∈ events, Tells c key g event := by
  obtain ⟨score, isScore, reported⟩ := reports.exists_mem found
  rw [reportScoring_run] at reported
  exact ⟨_, reported, tells_reportScoring placed isScore⟩

/-- Apart from the scores, a second scan says again what the first one has said of the groups that
have items. -/
theorem MayReport.mem_again_iff {events reports : List Event} {later : Instant}
    {between : List Call} (unchecked : ∀ call ∈ between, ∀ place m, call ≠ .check place m)
    (before : c.MayReport now events)
    (behind : ((c.scan now).2.run between).MayReport later reports) {event : Event} :
    event ∈ reports.map Event.unscored ↔
      event ∈ events.map Event.unscored ∧ ∃ (key : String) (g : ScoreGroup),
        c.groups[key]? = some g ∧ g.items ≠ ∅ ∧ event.id = idStart c.id ++ key := by
  have groups := groups_run_of_filled (filled_scan c now) unchecked
  have told (key : String) (g : ScoreGroup) :
      (((c.scan now).2.run between).report .epoch key g).unscored =
        (c.report .epoch key g).unscored := by
    rw [← unscored_reportScoring _ .epoch key g 0, reportScoring_run, unscored_reportScoring]
    rfl
  rw [before.mem_unscored_iff, behind.mem_unscored_iff]
  simp only [told, groups]
  constructor
  · rintro ⟨key, g, kept, rfl⟩
    obtain ⟨found, filled⟩ := groups_scan.mp kept
    exact ⟨⟨key, g, found, rfl⟩, key, g, found, filled, rfl⟩
  · rintro ⟨⟨other, h, foundOther, rfl⟩, key, g, found, filled, named⟩
    have own : idStart c.id ++ other = idStart c.id ++ key := named
    obtain ⟨_, rfl⟩ := composite_idStart_append_inj.mp own
    rw [found, Option.some.injEq] at foundOther
    subst foundOther
    exact ⟨other, g, groups_scan.mpr ⟨found, filled⟩, rfl⟩

/-! ## After a run -/

theorem comparison_of_ofStrategy {s : CompositeStrategy} (accepted : ofStrategy s = .ok c) :
    Comparison.ofText s.op = .ok c.comparison := by
  obtain ⟨comparison, read, accepted⟩ := bind_eq_ok_iff.mp accepted
  obtain ⟨definitions, _, accepted⟩ := bind_eq_ok_iff.mp accepted
  obtain ⟨subs, _, accepted⟩ := bind_eq_ok_iff.mp accepted
  cases pure_eq_ok_iff.mp accepted
  exact read

/-- After any run, a scan reports on every group, once and under an id of its own, whatever the
order in which it takes groups, items and weights: a score of the items, alarming as the comparison
says, with the tags and the time of the group and with the items that make up the score, each under
its own name. What the scan drops are the groups without items; all else stays as it is. A second
scan without a check in between reports on the groups that have items, and on no others. Apart from
the score it says the same of them. -/
theorem scan_reports {s : CompositeStrategy} {c : Composite} (accepted : ofStrategy s = .ok c)
    (calls : List Call) (now : Instant) :
    let d := c.run calls
    let after := (d.scan now).2
    (d.strategy = s ∧ Comparison.ofText s.op = .ok d.comparison) ∧
    d.MayReport now (d.scan now).1 ∧
    (∀ events, d.MayReport now events →
      (events.map Event.id).Perm (d.groups.keys.map (idStart s.id ++ ·)) ∧
      (events.map Event.id).Nodup ∧
      ∀ (key : String) (g : ScoreGroup), d.groups[key]? = some g →
        ∃ event ∈ events, Tells d key g event) ∧
    (∀ (key : String) (g : ScoreGroup), d.groups[key]? = some g →
      ∀ a ∈ g.items.toList, ∀ b ∈ g.items.toList, a.2.name = b.2.name → a = b) ∧
    after = { d with groups := after.groups } ∧
    (∀ (key : String) (g : ScoreGroup),
      after.groups[key]? = some g ↔ d.groups[key]? = some g ∧ g.items ≠ ∅) ∧
    ∀ between : List Call, (∀ call ∈ between, ∀ place m, call ≠ .check place m) →
      let again := after.run between
      again.groups = after.groups ∧
      ∀ later events reports, d.MayReport now events → again.MayReport later reports →
        (reports.map Event.id).Nodup ∧
        (∀ (key : String) (g : ScoreGroup), d.groups[key]? = some g → g.items ≠ ∅ →
          ∃ event ∈ reports, Tells d key g event) ∧
        ∀ event, event ∈ reports.map Event.unscored ↔
          event ∈ events.map Event.unscored ∧
            ∃ (key : String) (g : ScoreGroup), d.groups[key]? = some g ∧ g.items ≠ ∅ ∧
              event.id = idStart s.id ++ key := by
  intro d after
  have strategy : d.strategy = s :=
    (congrArg Prod.fst (definition_run c calls)).trans (fresh_of_ofStrategy accepted).1
  have id : d.id = s.id := congrArg CompositeStrategy.id strategy
  have comparison : d.comparison = c.comparison :=
    congrArg (fun parts => parts.2.1) (definition_run c calls)
  have placed {key : String} {g : ScoreGroup} (found : d.groups[key]? = some g) : Placed s.id g :=
    placed_run accepted calls found
  refine ⟨⟨strategy, by rw [comparison, comparison_of_ofStrategy accepted]⟩, d.mayReport_scan now,
    fun events reports => ⟨id ▸ reports.ids_perm, reports.nodup_ids, fun key g found => ?_⟩,
    fun key g found _ first _ second same => (placed found).name_injective first second same,
    rfl, fun key g => groups_scan, fun between unchecked => ?_⟩
  · exact reports.exists_tells [] (placed found) found
  intro again
  have groups : again.groups = after.groups := groups_run_of_filled (filled_scan d now) unchecked
  refine ⟨groups, fun later events reports before behind => ⟨behind.nodup_ids, ?_, ?_⟩⟩
  · intro key g found filled
    have kept : again.groups[key]? = some g := by
      rw [groups]
      exact groups_scan.mpr ⟨found, filled⟩
    exact behind.exists_tells (c := d) (.scan now :: between) (placed found) kept
  · rw [← id]
    exact fun event => before.mem_again_iff unchecked behind

/-- Two hosts fail and one of them recovers: the first scan reports on both, a second one only on
the host that still fails. -/
theorem scans_of_two_hosts :
    let s : CompositeStrategy :=
      { id := 7, rules := ["cpu;select(value);all(#1);>;90;70"], op := ">=", rightValue := 60
        groupBy := ["host"] }
    let cpu (host : String) (timestamp : Int64) (value : Float) : Metric :=
      { name := "cpu", value := value, tags := Dictionary.ofEntries [("host", host)]
        timestamp := timestamp }
    let calls : List Call :=
      [.check 0 (cpu "a" 1 95), .check 0 (cpu "b" 1 95), .check 0 (cpu "b" 2 5)]
    ∃ c, ofStrategy s = .ok c ∧
      let d := c.run calls
      let again := (d.scan .epoch).2.run [.evictIdle 0]
      ∀ events reports, d.MayReport .epoch events → again.MayReport .epoch reports →
        events.length = 2 ∧ (events.map Event.id).Nodup ∧ reports.length = 1 ∧
          ∀ event ∈ reports.map Event.unscored, event ∈ events.map Event.unscored := by
  intro s cpu calls
  have computed : (ofStrategy s).toOption.any (fun c =>
      (c.run calls).groups.keys.length == 2 &&
        (((c.run calls).scan .epoch).2.run [.evictIdle 0]).groups.keys.length == 1) = true := by
    decide +kernel
  cases accepted : ofStrategy s with
  | error fault =>
    rw [accepted] at computed
    cases computed
  | ok c =>
    rw [accepted, Except.toOption, Option.any_some, Bool.and_eq_true, beq_iff_eq,
      beq_iff_eq] at computed
    refine ⟨c, rfl, fun events reports before behind => ?_⟩
    obtain ⟨_, _, first, _, _, _, later⟩ := scan_reports accepted calls .epoch
    obtain ⟨ids, distinct, _⟩ := first events before
    obtain ⟨_, _, same⟩ := (later [.evictIdle 0] (by simp)).2 .epoch events reports before behind
    have two := ids.length_eq
    have one := behind.ids_perm.length_eq
    rw [List.length_map, List.length_map] at two one
    exact ⟨two.trans computed.1, distinct, one.trans computed.2,
      fun event reported => ((same event).mp reported).1⟩

end Composite

end AlertEngine
