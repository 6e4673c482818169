import AlertEngine.Proofs.CompositeHistory

/-! # Groups and their tags

A composite scores metrics together when the texts of their group-by tags have one fingerprint. The
text joins the tags with commas that are not escaped, so that it tells the values apart only as long
as they have no commas; the last value in the order of the keys may have some.

* `joined_inj`: tags without commas can be read back from the joined text.
* `Composite.Agree`, `Composite.Plain`: equal group-by values, and values without commas.
* `Composite.tags_perform_cases`, `Composite.tags_run`: the tags of a group are those of a metric
  that has failed in it, after one call and after any run.
* `Composite.groups_separate`: which metrics share a group, and whose tags its event has;
  `Composite.comma_merges_groups`: commas in values.
-/

namespace AlertEngine

/-! ## Joined texts -/

def joined (tags : List (String × String)) : String :=
  ",".intercalate (tags.map fun t => t.1 ++ "=" ++ t.2)

theorem toList_joined_singleton (t : String × String) :
    (joined [t]).toList = t.1.toList ++ '=' :: t.2.toList := by
  simp [joined]

theorem toList_joined_cons_cons (t u : String × String) (ts : List (String × String)) :
    (joined (t :: u :: ts)).toList =
      t.1.toList ++ '=' :: (t.2.toList ++ ',' :: (joined (u :: ts)).toList) := by
  simp [joined]

/-- Tags of the same keys, joined with commas, can be told apart if no value but the last one has a
comma. -/
theorem joined_inj {tags others : List (String × String)}
    (keys : tags.map Prod.fst = others.map Prod.fst)
    (plain : ∀ t ∈ tags.dropLast, ',' ∉ t.2.toList)
    (plain' : ∀ t ∈ others.dropLast, ',' ∉ t.2.toList)
    (same : (joined tags).toList = (joined others).toList) : tags = others := by
  induction tags generalizing others with
  | nil =>
    cases others with
    | nil => rfl
    | cons u us => cases keys
  | cons t ts inductionHypothesis =>
    cases others with
    | nil => cases keys
    | cons u us =>
      obtain ⟨key, value⟩ := t
      obtain ⟨key', value'⟩ := u
      simp only [List.map_cons, List.cons.injEq] at keys
      obtain ⟨rfl, keys⟩ := keys
      -- The first values begin in the same place; each ends at the first comma or with the text.
      cases ts with
      | nil =>
        cases us with
        | nil =>
          rw [toList_joined_singleton, toList_joined_singleton, List.append_cancel_left_eq,
            List.cons.injEq] at same
          obtain rfl : value = value' := String.toList_injective same.2
          rfl
        | cons u' us => cases keys
      | cons t' ts =>
        cases us with
        | nil => cases keys
        | cons u' us =>
          rw [List.dropLast_cons_cons, List.forall_mem_cons] at plain plain'
          rw [toList_joined_cons_cons, toList_joined_cons_cons, List.append_cancel_left_eq,
            List.cons.injEq] at same
          obtain ⟨values, rest⟩ := append_mark_inj plain.1 plain'.1 same.2
          obtain rfl : value = value' := String.toList_injective values
          rw [inductionHypothesis keys plain.2 plain'.2 rest]

/-! ## Group-by values -/

theorem getElem?_ofEntries_map {α : Type} (keys : List String) (f : String → α) (key : String) :
    (Dictionary.ofEntries (keys.map fun k => (k, f k)))[key]? =
      if key ∈ keys then some (f key) else none := by
  induction keys using List.reverseRecOn with
  | nil => simp [Dictionary.ofEntries]
  | append_singleton keys last inductionHypothesis =>
    rw [Dictionary.ofEntries] at inductionHypothesis ⊢
    rw [List.map_append, List.foldl_append, List.map_singleton, List.foldl_cons, List.foldl_nil,
      Std.ExtTreeMap.getElem?_insert, inductionHypothesis]
    by_cases own : last = key
    · simp [own]
    · simp [own, Ne.symm own]

namespace Composite

/-- The value under which a metric is grouped by a tag; a tag that the metric has not is empty. -/
def groupValue (m : Metric) (key : String) : String := (m.resolvedTags[key]?).getD ""

def Agree (c : Composite) (m n : Metric) : Prop :=
  ∀ key ∈ c.strategy.groupBy, groupValue m key = groupValue n key

/-- A metric whose group-by values have no comma, the last one in the order of the keys apart. -/
def Plain (c : Composite) (m : Metric) : Prop :=
  ∀ t ∈ (c.groupTags m).toList.dropLast, ',' ∉ t.2.toList

variable {c d : Composite} {m n : Metric}

theorem getElem?_groupTags (c : Composite) (m : Metric) (key : String) :
    (c.groupTags m)[key]? =
      if key ∈ c.strategy.groupBy then some (groupValue m key) else none :=
  getElem?_ofEntries_map c.strategy.groupBy (groupValue m) key

theorem groupTags_eq_iff : c.groupTags m = c.groupTags n ↔ c.Agree m n := by
  constructor
  · intro same key member
    have values := congrArg (fun tags : Dictionary String => tags[key]?) same
    simpa only [getElem?_groupTags, if_pos member, Option.some.injEq] using values
  · intro agree
    apply Std.ExtTreeMap.ext_getElem?
    intro key
    rw [getElem?_groupTags, getElem?_groupTags]
    split
    · rename_i member
      rw [agree key member]
    · rfl

/-- The group-by tags of two metrics have the same keys. -/
theorem keys_groupTags (c : Composite) (m n : Metric) :
    (c.groupTags m).keys = (c.groupTags n).keys := by
  have values : c.groupTags m = (c.groupTags n).map fun key _ => groupValue m key := by
    apply Std.ExtTreeMap.ext_getElem?
    intro key
    rw [Std.ExtTreeMap.getElem?_map, getElem?_groupTags, getElem?_groupTags]
    split <;> rfl
  rw [values, Std.ExtTreeMap.keys_map]

theorem isEmpty_groupTags (c : Composite) (m n : Metric) :
    (c.groupTags m).isEmpty = (c.groupTags n).isEmpty := by
  rw [← Std.ExtTreeMap.isEmpty_keys, keys_groupTags c m n, Std.ExtTreeMap.isEmpty_keys]

theorem groupText_of_filled {tags : Dictionary String} (filled : tags.isEmpty = false) :
    groupText tags = joined tags.toList := by
  rw [groupText, filled]
  rfl

theorem groupText_inj (plain : c.Plain m) (plain' : c.Plain n)
    (same : groupText (c.groupTags m) = groupText (c.groupTags n)) :
    c.groupTags m = c.groupTags n := by
  have keys := keys_groupTags c m n
  have isEmpty := isEmpty_groupTags c n m
  cases empty : (c.groupTags m).isEmpty with
  | true =>
    rw [empty] at isEmpty
    rw [Std.ExtTreeMap.isEmpty_iff.mp empty, Std.ExtTreeMap.isEmpty_iff.mp isEmpty]
  | false =>
    rw [empty] at isEmpty
    rw [groupText_of_filled empty, groupText_of_filled isEmpty] at same
    rw [← Std.ExtTreeMap.map_fst_toList_eq_keys, ← Std.ExtTreeMap.map_fst_toList_eq_keys] at keys
    apply Std.ExtTreeMap.ext_toList
    rw [joined_inj keys plain plain' (congrArg String.toList same)]

/-! ## Keys of groups -/

theorem groupText_of_groupOf
    (distinct : Digest.fingerprint (groupText (c.groupTags m)) =
        Digest.fingerprint (groupText (c.groupTags n)) →
      groupText (c.groupTags m) = groupText (c.groupTags n))
    (same : c.groupOf m = c.groupOf n) :
    groupText (c.groupTags m) = groupText (c.groupTags n) := by
  rw [groupOf, groupOf, groupKey, groupKey, isEmpty_groupTags c n m] at same
  cases empty : (c.groupTags m).isEmpty with
  | true => rw [groupText, groupText, isEmpty_groupTags c n m, empty, if_pos rfl, if_pos rfl]
  | false =>
    rw [empty] at same
    exact distinct same

/-! ## Tags of groups -/

/-- After a call a group has the tags that it had before, or those of a metric that has just
failed. -/
theorem tags_perform_cases {call : Call} {group : String} {g : ScoreGroup}
    (found : (d.perform call).groups[group]? = some g) :
    (∃ old, d.groups[group]? = some old ∧ g.tags = old.tags) ∨
      ∃ v, d.verdict? call = some v ∧ v.judgment.status = .problem ∧
        d.groupOf v.metric = group ∧ g.tags = d.groupTags v.metric := by
  cases call with
  | check place m =>
    rw [perform] at found
    rcases check_cases d place m with ⟨_, same, _⟩ | ⟨sub, judgment, _, spoken, judged, recorded⟩
    · rw [same] at found
      exact .inl ⟨g, found, rfl⟩
    · rw [recorded] at found
      rcases judged with calm | alarm
      · rw [groups_record_ok calm] at found
        split at found
        · obtain ⟨old, present, rfl⟩ := Option.map_eq_some_iff.mp found
          exact .inl ⟨old, present, rfl⟩
        · exact .inl ⟨g, found, rfl⟩
      · rw [groups_record_problem alarm] at found
        split at found
        · rename_i own
          obtain rfl := Option.some.inj found
          cases present : (d.watched place sub m).groups[group]? with
          | none => exact .inr ⟨_, spoken, alarm, own, rfl⟩
          | some old =>
            by_cases untagged : old.tags.isEmpty
            · exact .inr ⟨_, spoken, alarm, own, if_pos untagged⟩
            · exact .inl ⟨old, present, if_neg untagged⟩
        · exact .inl ⟨g, found, rfl⟩
  | scan now =>
    simp only [perform, scan, Std.ExtTreeMap.getElem?_filter', Option.filter_eq_some_iff] at found
    exact .inl ⟨g, found.1, rfl⟩
  | evictIdle cutoff => exact .inl ⟨g, found, rfl⟩

theorem groupTags_congr (same : d.definition = c.definition) (m : Metric) :
    d.groupTags m = c.groupTags m := by
  have strategy : d.strategy = c.strategy := congrArg Prod.fst same
  rw [groupTags, groupTags, strategy]

/-- Every group has the tags of some metric that failed in it. -/
theorem tags_run (fresh : c.groups = ∅) (calls : List Call) {group : String} {g : ScoreGroup}
    (found : (c.run calls).groups[group]? = some g) :
    ∃ v ∈ c.verdicts calls, v.judgment.status = .problem ∧ c.groupOf v.metric = group ∧
      g.tags = c.groupTags v.metric := by
  induction calls using List.reverseRecOn generalizing g with
  | nil => simp [run, fresh] at found
  | append_singleton calls call inductionHypothesis =>
    have definition := definition_run c calls
    rw [run_snoc] at found
    rw [verdicts_snoc]
    rcases tags_perform_cases found with ⟨old, present, same⟩ | ⟨v, spoken, alarm, own, tags⟩
    · obtain ⟨v, member, alarm, own, tags⟩ := inductionHypothesis present
      exact ⟨v, List.mem_append_left _ member, alarm, own, same.trans tags⟩
    · rw [groupOf_congr definition] at own
      rw [groupTags_congr definition] at tags
      exact ⟨v, List.mem_append_right _ (Option.mem_toList.mpr spoken), alarm, own, tags⟩

theorem check_of_verdict {calls : List Call} {v : Verdict} (member : v ∈ c.verdicts calls) :
    .check v.place v.metric ∈ calls := by
  induction calls generalizing c with
  | nil => cases member
  | cons call calls inductionHypothesis =>
    rw [verdicts, List.mem_append, Option.mem_toList] at member
    rcases member with spoken | later
    · rw [← call_of_verdict? spoken]
      exact List.mem_cons_self
    · exact List.mem_cons_of_mem call (inductionHypothesis later)

/-- The groups of a composite keep apart metrics that differ in a group-by tag, as far as their
values under these tags are plain and the fingerprint keeps the texts of the groups apart: metrics
are recorded in one group exactly when they agree on all group-by tags, and each event of a scan has
the group-by tags of every metric judged in its group, each item of the group among them. -/
theorem groups_separate {s : CompositeStrategy} {c : Composite} (accepted : ofStrategy s = .ok c) :
    (∀ m n, c.Agree m n → groupText (c.groupTags m) = groupText (c.groupTags n)) ∧
    (∀ m n, c.Plain m → c.Plain n →
      groupText (c.groupTags m) = groupText (c.groupTags n) → c.Agree m n) ∧
    ∀ calls, (∀ v ∈ c.verdicts calls, c.Plain v.metric) →
      (∀ v ∈ c.verdicts calls, ∀ w ∈ c.verdicts calls,
        Digest.fingerprint (groupText (c.groupTags v.metric)) =
            Digest.fingerprint (groupText (c.groupTags w.metric)) →
          groupText (c.groupTags v.metric) = groupText (c.groupTags w.metric)) →
      let d := c.run calls
      (∀ v ∈ c.verdicts calls, ∀ w ∈ c.verdicts calls,
        c.groupOf v.metric = c.groupOf w.metric ↔ c.Agree v.metric w.metric) ∧
      ∀ now, ∀ e ∈ (d.scan now).1, ∃ group g, d.groups[group]? = some g ∧
        e.id = idStart c.id ++ group ∧
        (∃ v ∈ c.verdicts calls, v.judgment.status = .problem ∧ c.groupOf v.metric = group) ∧
        (∀ v ∈ c.verdicts calls, c.groupOf v.metric = group → e.tags = c.groupTags v.metric) ∧
        ∀ key series item, d.item? group key series = some item →
          ∃ v ∈ c.verdicts calls, v.judgment.status = .problem ∧ v.metric.identity = series ∧
            c.groupOf v.metric = group ∧ e.tags = c.groupTags v.metric := by
  have agreed {m n : Metric} (agree : c.Agree m n) : c.groupTags m = c.groupTags n :=
    groupTags_eq_iff.mpr agree
  refine ⟨fun m n agree => by rw [agreed agree],
    fun m n plain plain' same => groupTags_eq_iff.mp (groupText_inj plain plain' same),
    fun calls plain distinct => ?_⟩
  intro d
  have together : ∀ v ∈ c.verdicts calls, ∀ w ∈ c.verdicts calls,
      c.groupOf v.metric = c.groupOf w.metric ↔ c.Agree v.metric w.metric := by
    intro v memberV w memberW
    constructor
    · intro same
      exact groupTags_eq_iff.mp (groupText_inj (plain v memberV) (plain w memberW)
        (groupText_of_groupOf (distinct v memberV w memberW) same))
    · intro agree
      rw [groupOf, agreed agree, groupOf]
  refine ⟨together, fun now e member => ?_⟩
  obtain ⟨⟨group, g⟩, entry, rfl⟩ := List.mem_map.mp member
  have found : d.groups[group]? = some g :=
    Std.ExtTreeMap.mem_toList_iff_getElem?_eq_some.mp entry
  obtain ⟨-, fresh, -⟩ := fresh_of_ofStrategy accepted
  obtain ⟨first, memberFirst, alarm, ownFirst, tags⟩ := tags_run fresh calls found
  have tagsOf : ∀ v ∈ c.verdicts calls, c.groupOf v.metric = group →
      g.tags = c.groupTags v.metric := fun v memberV own => by
    rw [tags, agreed ((together first memberFirst v memberV).mp (ownFirst.trans own.symm))]
  have id : d.id = c.id :=
    congrArg (fun parts => parts.1.id) (definition_run c calls)
  refine ⟨group, g, found, by rw [← id]; rfl, ⟨first, memberFirst, alarm, ownFirst⟩, tagsOf,
    fun key series item item? => ?_⟩
  have reflects := reflects_run accepted calls
  obtain ⟨place, sub, foundSub, rfl⟩ :=
    reflects.keys group key series (by rw [item?]; exact Option.some_ne_none item)
  rw [reflects.items group place sub series foundSub, itemFrom, Option.bind_eq_some_iff] at item?
  obtain ⟨v, last, recorded⟩ := item?
  rw [Option.ite_none_right_eq_some] at recorded
  obtain ⟨memberV, chosen⟩ := List.mem_filter.mp (List.mem_of_getLast? last)
  simp only [Bool.and_eq_true, beq_iff_eq] at chosen
  exact ⟨v, memberV, recorded.1, chosen.1.2, chosen.2, tagsOf v memberV chosen.2⟩

/-- A rule fails on two hosts, and each of them gets a group of its own. -/
theorem groups_of_two_hosts :
    let rule : Strategy :=
      { id := 1, metric := "cpu", func := "all(#1)", op := ">", rightValue := 90 }
    let s : CompositeStrategy :=
      { id := 7, strategies := [rule], groupBy := ["host"], op := ">", rightValue := 0 }
    let sub : SubRule :=
      { key := subKey 7 0
        hash := Digest.fingerprint (ruleText rule)
        weight := rule.weight
        monitor :=
          { strategy := rule, rule := ⟨.select "value", ⟨.all, 1, none⟩, .greater, 90, []⟩ } }
    let c : Composite := { strategy := s, comparison := .greater, subs := [sub] }
    let cpu (host : String) : Metric :=
      { name := "cpu", value := 95, tags := Dictionary.ofEntries [("host", host)] }
    let calls : List Call := [.check 0 (cpu "web-01"), .check 0 (cpu "web-02")]
    ofStrategy s = .ok c ∧
      groupText (c.groupTags (cpu "web-01")) ≠ groupText (c.groupTags (cpu "web-02")) ∧
      ∀ e ∈ ((c.run calls).scan .epoch).1,
        e.tags = c.groupTags (cpu "web-01") ∨ e.tags = c.groupTags (cpu "web-02") := by
  intro rule s sub c cpu calls
  have transform : Transform.parse "select(value)" = .ok sub.monitor.rule.transform := by
    decide +kernel
  have function : WindowFunction.parse "all(#1)" = .ok sub.monitor.rule.function := by
    decide +kernel
  have comparison : Comparison.ofText ">" = .ok sub.monitor.rule.comparison := by decide +kernel
  have filters : TagFilter.parse "" = .ok sub.monitor.rule.filters := by decide +kernel
  have accepted : ofStrategy s = .ok c := by
    have monitor : Monitor.ofStrategy rule = .ok sub.monitor := by
      simp only [Monitor.ofStrategy, Rule.compile, rule, transform, function, comparison, filters]
      rfl
    have rules : subRules 7 0 [rule] = .ok [sub] := by
      simp only [subRules, monitor]
      rfl
    exact bind_eq_ok_iff.mpr ⟨c.comparison, comparison, bind_eq_ok_iff.mpr
      ⟨[rule], rfl, bind_eq_ok_iff.mpr ⟨[sub], rules, rfl⟩⟩⟩
  have plain : c.Plain (cpu "web-01") ∧ c.Plain (cpu "web-02") := by
    unfold Plain
    decide +kernel
  have apart : Digest.fingerprint (groupText (c.groupTags (cpu "web-01"))) ≠
      Digest.fingerprint (groupText (c.groupTags (cpu "web-02"))) := by decide +kernel
  have judged : ∀ v ∈ c.verdicts calls, v.metric = cpu "web-01" ∨ v.metric = cpu "web-02" := by
    intro v member
    have called := check_of_verdict member
    simp only [calls, List.mem_cons, Call.check.injEq, List.not_mem_nil, or_false] at called
    exact called.imp And.right And.right
  obtain ⟨-, -, runs⟩ := groups_separate accepted
  obtain ⟨-, events⟩ := runs calls
    (fun v member => by rcases judged v member with h | h <;> rw [h]; exacts [plain.1, plain.2])
    (fun v memberV w memberW same => by
      rcases judged v memberV with hv | hv <;> rcases judged w memberW with hw | hw <;>
        rw [hv, hw] at same ⊢
      · exact absurd same apart
      · exact absurd same.symm apart)
  refine ⟨accepted, fun same => apart (congrArg Digest.fingerprint same), fun e member => ?_⟩
  obtain ⟨_, _, _, _, ⟨v, memberV, _, own⟩, tags, _⟩ := events .epoch e member
  rw [tags v memberV own]
  rcases judged v memberV with h | h <;> rw [h]
  · exact .inl rfl
  · exact .inr rfl

/-- Commas in the values of tags run into those between the tags: two metrics that agree on neither
group-by tag share the text of their groups. -/
theorem comma_merges_groups :
    let s : CompositeStrategy := { id := 9, groupBy := ["a", "b"], op := ">", rightValue := 0 }
    let c : Composite := { strategy := s, comparison := .greater, subs := [] }
    let m : Metric := { name := "cpu", tags := Dictionary.ofEntries [("a", "x,b=y"), ("b", "z")] }
    let n : Metric := { name := "cpu", tags := Dictionary.ofEntries [("a", "x"), ("b", "y,b=z")] }
    ofStrategy s = .ok c ∧ groupText (c.groupTags m) = groupText (c.groupTags n) ∧
      groupValue m "a" ≠ groupValue n "a" ∧ groupValue m "b" ≠ groupValue n "b" := by
  refine ⟨?_, by decide +kernel, by decide +kernel, by decide +kernel⟩
  have comparison : Comparison.ofText ">" = .ok .greater := by decide +kernel
  exact bind_eq_ok_iff.mpr ⟨.greater, comparison, rfl⟩

end Composite

end AlertEngine
