import AlertEngine.Proofs.Ownership

/-! # Alarms of groups

A scan reports on every group of a composite and then drops the groups without items. An alarm is
meant to end by a later scan that finds its group in order, which needs the group to be there. This
module says when it is, and how an alarm can lose its group.

* `Alarming`, `HasGroup`: the alarm of a group in the table, and the group itself.
* `Strands`: the two calls that take a group away and leave its alarm: a scan that finds the score
  of nothing alarming, and a new composite in place of a changed one.
* `hasGroup_perform`, `alarm_has_group`: no other call does.
* `Strands.leaves_alarm`: these two always do.
* `alarm_without_group`: an alarm that no scan ends.
-/

namespace AlertEngine

open DebounceTable (Records Action)

namespace Engine

variable {e : Engine} {now : Instant} {call : Call} {i : Int64} {group : String}

/-! ## Alarms and groups -/

def Alarming (e : Engine) (i : Int64) (group : String) : Prop :=
  ∃ entry, e.table.get? (Composite.idStart i ++ group) = some entry ∧ entry.status = .problem

def HasGroup (e : Engine) (i : Int64) (group : String) : Prop :=
  ∃ c, e.composites[i]? = some c ∧ group ∈ c.groups

instance : Decidable (Alarming e i group) :=
  decidable_of_iff
    ((e.table.get? (Composite.idStart i ++ group)).map Event.status = some .problem)
    Option.map_eq_some_iff

instance : Decidable (HasGroup e i group) :=
  decidable_of_iff ((e.composites[i]?).any (fun c => c.groups.contains group) = true) (by
    simp [HasGroup, Option.any_eq_true])

/-- A call takes a group away but not its alarm. -/
inductive Strands (e : Engine) : Call → Int64 → String → Prop
  /-- The group has no items, and the score of nothing is alarming. -/
  | emptied {i : Int64} {group : String} {c : Composite} {g : ScoreGroup}
      (atWork : e.composites[i]? = some c) (present : c.groups[group]? = some g)
      (empty : g.items = ∅)
      (holds : c.comparison.holds (ScoreItem.score []) c.strategy.rightValue = true) :
      Strands e .scan i group
  /-- The composite is made afresh, because its strategy has changed. -/
  | replaced {i : Int64} {group : String} {strategies : List CompositeStrategy} {c : Composite}
      {s : CompositeStrategy} (atWork : e.composites[i]? = some c) (present : group ∈ c.groups)
      (last : StrategyKind.composite.lastReadable? strategies i = some s)
      (changed : (c.strategy == s) = false) : Strands e (.setComposites strategies) i group

/-! ## One call -/

theorem HasGroup.perform (has : HasGroup e i group) (now : Instant)
    (other : ∀ strategies, call ≠ .setComposites strategies) (unscanned : call ≠ .scan) :
    HasGroup (e.perform now call).2 i group := by
  obtain ⟨c, atWork, present⟩ := has
  obtain ⟨asked, asks, same⟩ := perform_composites e now call other i
  rw [atWork, Option.map_some] at same
  refine ⟨c.run asked, same, Composite.mem_groups_run ?_ present⟩
  intro request member now scanned
  subst scanned
  cases call with
  | judge metrics =>
    obtain ⟨place, m, check⟩ := asks _ member
    cases check
  | setStrategies strategies =>
    rw [show asked = [] from asks] at member
    cases member
  | setComposites strategies => exact asks
  | scan => exact unscanned rfl
  | evictIdle cutoff =>
    rw [show asked = [.evictIdle cutoff] from asks, List.mem_singleton] at member
    cases member

/-- Only a scan brings a group into alarm. -/
theorem Alarming.earlier (keyed : e.table.Keyed) (unscanned : call ≠ .scan)
    (alarm : Alarming (e.perform now call).2 i group) : Alarming e i group := by
  obtain ⟨entry, found, status⟩ := alarm
  refine ⟨entry, ?_, status⟩
  cases call with
  | judge metrics =>
    have records : Records
        (Action.Observes fun event => ∃ j series, event.id = idStart j ++ series) e.policy e.table
        ((e.judge now metrics).1, (e.judge now metrics).2.table) :=
      judge_records (fun _ u _ _ m _ _ => ⟨u.id, m.identity, rfl⟩) metrics
    rcases records.get?_cases found with earlier | ⟨event, _, ⟨j, series, named⟩, own, _⟩
    · exact earlier
    · exact absurd (own.symm.trans named) (composite_idStart_append_ne i j group series)
  | setStrategies strategies => exact (closesGone_setStrategies keyed now strategies).earlier found
  | setComposites strategies => exact (closesGone_setComposites keyed now strategies).earlier found
  | scan => exact absurd rfl unscanned
  | evictIdle cutoff => exact found

/-! ## Scans -/

theorem report_id (registered : Registered e) {c : Composite} (atWork : e.composites[i]? = some c)
    (g : ScoreGroup) : (c.report now group g).id = Composite.idStart i ++ group := by
  have stands : c.id = i := (registered.composites i c atWork).1
  rw [Composite.report, stands]

theorem report_status_iff {c : Composite} {g : ScoreGroup} :
    (c.report now group g).status = .problem ↔
      c.comparison.holds g.score c.strategy.rightValue = true := by
  unfold Composite.report
  dsimp only
  split <;> simp_all

theorem eq_report (registered : Registered e) {event : Event}
    (reported : event ∈ e.composites.toList.flatMap fun entry => (entry.2.scan now).1)
    (own : event.id = Composite.idStart i ++ group) :
    ∃ c g, e.composites[i]? = some c ∧ c.groups[group]? = some g ∧
      event = c.report now group g := by
  obtain ⟨j, c, key, g, atWork, present, rfl⟩ := mem_scanReports_iff.mp reported
  rw [report_id registered atWork] at own
  obtain ⟨rfl, rfl⟩ := composite_idStart_append_inj.mp own
  exact ⟨c, g, atWork, present, rfl⟩

/-- A group is in alarm after a scan only if its score is alarming, or if there is no group and it
was in alarm before. -/
theorem alarming_scan (registered : Registered e) (alarm : Alarming (e.scan now).2 i group) :
    (∃ c g, e.composites[i]? = some c ∧ c.groups[group]? = some g ∧
        c.comparison.holds g.score c.strategy.rightValue = true) ∨
      Alarming e i group ∧ ¬ HasGroup e i group := by
  obtain ⟨entry, found, status⟩ := alarm
  rcases DebounceTable.get?_observeAll_cases found with
    ⟨event, reported, own, same⟩ | ⟨earlier, others⟩
  · obtain ⟨c, g, atWork, present, rfl⟩ := eq_report registered reported own
    rw [status] at same
    exact .inl ⟨c, g, atWork, present, report_status_iff.mp same⟩
  · refine .inr ⟨⟨entry, earlier, status⟩, ?_⟩
    rintro ⟨c, atWork, present⟩
    obtain ⟨g, held⟩ := mem_iff_exists_getElem?.mp present
    exact others (c.report now group g)
      (mem_scanReports_iff.mpr ⟨i, c, group, g, atWork, held, rfl⟩)
      (report_id registered atWork g)

theorem alarming_scan_of_holds (registered : Registered e) {c : Composite} {g : ScoreGroup}
    (atWork : e.composites[i]? = some c) (present : c.groups[group]? = some g)
    (holds : c.comparison.holds g.score c.strategy.rightValue = true) :
    Alarming (e.scan now).2 i group := by
  have named : (c.report now group g).id = Composite.idStart i ++ group :=
    report_id registered atWork g
  have reported : c.report now group g ∈ e.composites.toList.flatMap fun entry =>
      (entry.2.scan now).1 :=
    mem_scanReports_iff.mpr ⟨i, c, group, g, atWork, present, rfl⟩
  -- The entry has the status of a report on this group, and there is but one.
  obtain ⟨entry, found⟩ := DebounceTable.exists_get?_observeAll reported
  rw [named] at found
  refine ⟨entry, found, ?_⟩
  rcases DebounceTable.get?_observeAll_cases found with ⟨event, member, own, same⟩ | ⟨_, others⟩
  · obtain ⟨d, h, atWork', present', rfl⟩ := eq_report registered member own
    rw [atWork, Option.some.injEq] at atWork'
    subst atWork'
    rw [present, Option.some.injEq] at present'
    subst present'
    rw [← same]
    exact report_status_iff.mpr holds
  · exact absurd named (others _ reported)

/-! ## What strands an alarm -/

/-- Unless a call strands it, an alarm keeps its group. -/
theorem hasGroup_perform (keyed : e.table.Keyed) (registered : Registered e)
    (held : Alarming e i group → HasGroup e i group) (unstranded : ¬ Strands e call i group)
    (alarm : Alarming (e.perform now call).2 i group) :
    HasGroup (e.perform now call).2 i group := by
  cases call with
  | judge metrics => exact (held (alarm.earlier keyed (by simp))).perform now (by simp) (by simp)
  | setStrategies strategies =>
    exact (held (alarm.earlier keyed (by simp))).perform now (by simp) (by simp)
  | evictIdle cutoff => exact (held (alarm.earlier keyed (by simp))).perform now (by simp) (by simp)
  | setComposites strategies =>
    obtain ⟨c, atWork, present⟩ := held (alarm.earlier keyed (by simp))
    obtain ⟨entry, found, _⟩ := alarm
    have stays : i ∈ reconcileComposites e.composites strategies := by
      by_contra leaves
      exact (closesGone_setComposites keyed now strategies).stays found
        ⟨mem_iff_exists_getElem?.mpr ⟨c, atWork⟩, leaves⟩
    obtain ⟨next, foundNext⟩ := mem_iff_exists_getElem?.mp stays
    refine ⟨next, foundNext, ?_⟩
    rw [reconcileComposites_eq] at foundNext
    obtain ⟨s, last, ⟨kept, _⟩ | ⟨_, _, differs⟩⟩ :=
      StrategyKind.reconcile_cases StrategyKind.lawful_composite registered.composites foundNext
    · rw [atWork, Option.some.injEq] at kept
      rwa [← kept]
    · exact absurd (.replaced atWork present last (differs c atWork)) unstranded
  | scan =>
    rcases alarming_scan registered alarm with ⟨c, g, atWork, present, holds⟩ | ⟨earlier, lost⟩
    · -- A group that the scan drops would be empty, with the score of nothing.
      have filled : g.items.isEmpty = false := by
        rw [Bool.eq_false_iff, ne_eq, Std.ExtTreeMap.isEmpty_iff]
        intro empty
        refine unstranded (.emptied atWork present empty ?_)
        rw [ScoreGroup.score, empty] at holds
        exact holds
      refine ⟨(c.scan now).2, ?_, ?_⟩
      · rw [perform, scan, Std.ExtTreeMap.getElem?_map, atWork]
        rfl
      · simp [Composite.scan, Std.ExtTreeMap.mem_iff_isSome_getElem?, present, filled]
    · exact absurd (held earlier) lost

theorem Strands.leaves_alarm (strands : Strands e call i group) (keyed : e.table.Keyed)
    (registered : Registered e) (alarm : call ≠ .scan → Alarming e i group) (now : Instant) :
    Alarming (e.perform now call).2 i group ∧ ¬ HasGroup (e.perform now call).2 i group := by
  cases strands with
  | @emptied i group c g atWork present empty holds =>
    refine ⟨alarming_scan_of_holds registered atWork present ?_, ?_⟩
    · rw [ScoreGroup.score, empty]
      exact holds
    · rintro ⟨d, later, kept⟩
      rw [perform, scan, Std.ExtTreeMap.getElem?_map, atWork, Option.map_some,
        Option.some.injEq] at later
      subst later
      simp [Composite.scan, Std.ExtTreeMap.mem_iff_isSome_getElem?, present, empty] at kept
  | @replaced i group strategies c s atWork present last changed =>
    have settled := StrategyKind.reconcile_getElem? StrategyKind.lawful_composite
      registered.composites strategies i
    rw [last, Option.bind_some] at settled
    rcases StrategyKind.settle_cases StrategyKind.lawful_composite
      (StrategyKind.mem_of_lastReadable? last).2.2 e.composites[i]? with
      ⟨kept, before, equal, _⟩ | ⟨fresh, made, _, _, result⟩
    · rw [atWork, Option.some.injEq] at before
      subst before
      exact absurd equal (Bool.eq_false_iff.mp changed)
    · -- The new composite keeps the alarm from being closed, and it starts without groups.
      rw [result, ← reconcileComposites_eq] at settled
      have empty : fresh.groups = ∅ := (Composite.fresh_of_ofStrategy made).2.1
      refine ⟨?_, ?_⟩
      · obtain ⟨entry, found, status⟩ := alarm (by simp)
        refine ⟨entry, ?_, status⟩
        rw [← found]
        refine (closesGone_setComposites keyed now strategies).kept i group fun goes => goes.2 ?_
        exact mem_iff_exists_getElem?.mpr ⟨fresh, settled⟩
      · rintro ⟨d, later, kept⟩
        rw [perform, setComposites, settled, Option.some.injEq] at later
        subst later
        simp [empty] at kept

/-! ## Runs -/

/-- After any run, a group in alarm is there for the next scan, unless some call of the run has
stranded its alarm and the group has not come back since. -/
theorem alarm_has_group (policy : DebouncePolicy) (calls : List (Instant × Call)) (i : Int64)
    (group : String) (alarm : Alarming (run { policy := policy } calls).2 i group) :
    HasGroup (run { policy := policy } calls).2 i group ∨
      ∃ before call after, calls = before ++ call :: after ∧
        Strands (run { policy := policy } before).2 call.2 i group ∧
        ∀ later, later <+: after →
          Alarming (run { policy := policy } (before ++ call :: later)).2 i group ∧
            ¬ HasGroup (run { policy := policy } (before ++ call :: later)).2 i group := by
  induction calls using List.reverseRecOn with
  | nil =>
    obtain ⟨entry, found, _⟩ := alarm
    rw [run, DebounceTable.get?_empty] at found
    cases found
  | append_singleton calls call inductionHypothesis =>
    have keyed : (run { policy := policy } calls).2.table.Keyed :=
      (wellFormed_run (wellFormed_new policy) calls).table
    have registered : Registered (run { policy := policy } calls).2 :=
      registered_run (registered_new policy) calls
    by_cases has : HasGroup (run { policy := policy } (calls ++ [call])).2 i group
    · exact .inl has
    · refine .inr ?_
      by_cases strands : Strands (run { policy := policy } calls).2 call.2 i group
      · refine ⟨calls, call, [], rfl, strands, fun later isStart => ?_⟩
        rw [List.prefix_nil.mp isStart]
        exact ⟨alarm, has⟩
      · have lost : Alarming (run { policy := policy } calls).2 i group ∧
            ¬ HasGroup (run { policy := policy } calls).2 i group := by
          rw [run_snoc] at alarm has
          by_contra fine
          rw [not_and_not_right] at fine
          exact has (hasGroup_perform keyed registered fine strands alarm)
        obtain ⟨before, stranding, after, rfl, strands, since⟩ :=
          (inductionHypothesis lost.1).resolve_left lost.2
        refine ⟨before, stranding, after ++ [call], by simp, strands, fun later isStart => ?_⟩
        rcases List.prefix_concat_iff.mp isStart with rfl | isStart
        · rw [← List.cons_append, ← List.append_assoc]
          exact ⟨alarm, has⟩
        · exact since later isStart

/-- The group in alarm is not there when its composite has been made afresh with another
threshold. -/
theorem alarm_of_replaced_composite :
    let composite (threshold : Float) : CompositeStrategy :=
      { id := 9, rules := ["cpu;select(value);all(#1);>;90;70"], op := ">="
        rightValue := threshold }
    let calls : List (Instant × Call) :=
      [(.epoch, .setComposites [composite 60]),
       (.epoch, .judge [{ name := "cpu", value := 95 }]),
       (.epoch, .scan),
       (.epoch, .setComposites [composite 65])]
    Alarming (run {} calls).2 9 groupOfAll ∧
      ∃ before call after, calls = before ++ call :: after ∧
        Strands (run {} before).2 call.2 9 groupOfAll := by
  intro composite calls
  have lost : Alarming (run {} calls).2 9 groupOfAll ∧
      ¬ HasGroup (run {} calls).2 9 groupOfAll := by
    decide +kernel
  obtain ⟨before, call, after, split, strands, _⟩ :=
    (alarm_has_group {} calls 9 groupOfAll lost.1).resolve_left lost.2
  exact ⟨lost.1, before, call, after, split, strands⟩

/-- A group that has come in order is alarming under `<`, for the score of nothing is less than the
threshold. The scan that says so drops the group, and no later scan says anything about it. -/
theorem alarm_without_group :
    let composite : CompositeStrategy :=
      { id := 9, rules := ["cpu;select(value);all(#1);>;90;70"], op := "<", rightValue := 60 }
    let calls : List (Instant × Call) :=
      [(.epoch, .setComposites [composite]),
       (.epoch, .judge [{ name := "cpu", value := 95, timestamp := 1 }]),
       (.epoch, .judge [{ name := "cpu", value := 5, timestamp := 2 }]),
       (.epoch, .scan)]
    let e := (run {} calls).2
    Alarming e 9 groupOfAll ∧ ¬ HasGroup e 9 groupOfAll ∧ 9 ∈ e.composites ∧
      (e.scan .epoch).1.isEmpty = true ∧ Alarming (e.scan .epoch).2 9 groupOfAll := by
  decide +kernel

end Engine

end AlertEngine
