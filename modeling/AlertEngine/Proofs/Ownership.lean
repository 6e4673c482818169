import AlertEngine.Proofs.EventIds
import AlertEngine.Proofs.Registration

/-! # Owners of table entries

The table knows the owner of an entry by the start of its id alone. This module proves that every
entry of a reachable engine has an owner that is at work, and that bringing in a set of strategies
closes the entries of the owners that go, and nothing else.

* `get?_closeAll`, `closeAll_perm`: closing for several starts at once.
* `ClosesGone`: what is forgotten, kept and reported when some owners go; `closesGone_closeAll`.
* `Owned`: an entry is of a strategy or of a composite at work; `owned_perform`, `owned_run`.
* `entries_owned_and_closed`: both, for every reachable engine.
-/

namespace AlertEngine

open DebounceTable (belongsTo closing kept Records Action)

namespace Engine

variable {e : Engine} {t : DebounceTable} {now : Instant} {id : String} {entry : Event}

/-! ## Closing for several starts -/

theorem get?_closeAll (t : DebounceTable) (now : Instant) (starts : List String) (id : String) :
    (closeAll t now starts).2.get? id =
      if starts.any fun start => belongsTo start id then none else t.get? id := by
  induction starts generalizing t with
  | nil => rfl
  | cons start starts inductionHypothesis =>
    rw [closeAll_cons, inductionHypothesis, DebounceTable.get?_close, List.any_cons]
    cases belongsTo start id <;> simp

theorem toList_close (t : DebounceTable) (now : Instant) (start : String) :
    (t.close now start).2.events.toList =
      t.events.toList.filter fun found => !belongsTo start found.1 :=
  Std.ExtTreeMap.toList_filter

theorem close_fst (t : DebounceTable) (now : Instant) (start : String) :
    (t.close now start).1 =
      (t.events.toList.filter fun found =>
        belongsTo start found.1 && found.2.status.isAlarming).map
          fun found => closing now found.2 :=
  congrArg (List.map _) Std.ExtTreeMap.toList_filter

theorem closeAll_perm (t : DebounceTable) (now : Instant) (starts : List String) :
    (closeAll t now starts).1.Perm
      ((t.events.toList.filter fun found =>
        (starts.any fun start => belongsTo start found.1) && found.2.status.isAlarming).map
          fun found => closing now found.2) := by
  -- The closed alarms come start by start, those of the map by their ids; the alarms of the first
  -- start are split off.
  induction starts generalizing t with
  | nil => simp [closeAll]
  | cons start starts inductionHypothesis =>
    let belongs := fun found : String × Event => belongsTo start found.1
    let closes := fun found : String × Event =>
      ((start :: starts).any fun start => belongsTo start found.1) && found.2.status.isAlarming
    have first : (t.close now start).1 =
        ((t.events.toList.filter closes).filter belongs).map fun found => closing now found.2 := by
      rw [close_fst, List.filter_filter]
      refine congrArg (List.map _) (List.filter_congr fun found _ => ?_)
      simp only [belongs, closes, List.any_cons]
      cases belongsTo start found.1 <;> simp
    have rest : (closeAll (t.close now start).2 now starts).1.Perm
        (((t.events.toList.filter closes).filter fun found => !belongs found).map
          fun found => closing now found.2) := by
      refine (inductionHypothesis (t.close now start).2).trans (List.Perm.of_eq ?_)
      rw [toList_close, List.filter_filter, List.filter_filter]
      refine congrArg (List.map _) (List.filter_congr fun found _ => ?_)
      simp only [belongs, closes, List.any_cons]
      cases belongsTo start found.1 <;> simp
    rw [closeAll_cons, first]
    refine (List.Perm.append_left _ rest).trans ?_
    rw [← List.map_append]
    exact (List.filter_append_perm belongs _).map _

theorem nodup_closeAll (keyed : t.Keyed) (now : Instant) (starts : List String) :
    ((closeAll t now starts).1.map Event.id).Nodup := by
  rw [((closeAll_perm t now starts).map Event.id).nodup_iff, List.map_map]
  let closes := fun found : String × Event =>
    (starts.any fun start => belongsTo start found.1) && found.2.status.isAlarming
  -- The entries stand under their own ids, which are the keys.
  have byKey : (t.events.toList.filter closes).map (Event.id ∘ fun found => closing now found.2) =
      (t.events.toList.filter closes).map Prod.fst := by
    refine List.map_congr_left fun found member => ?_
    exact keyed found.1 found.2
      (Std.ExtTreeMap.mem_toList_iff_getElem?_eq_some.mp (List.mem_filter.mp member).1)
  rw [byKey]
  refine List.Nodup.sublist (List.filter_sublist.map Prod.fst) ?_
  rw [Std.ExtTreeMap.map_fst_toList_eq_keys]
  exact Std.ExtTreeMap.nodup_keys

/-- What is forgotten, kept and reported when the owners of some numbers go. -/
structure ClosesGone (start : Int64 → String) (gone : Int64 → Prop) (now : Instant)
    (t : DebounceTable) (reported : List Event) (after : DebounceTable) : Prop where
  removed : ∀ i rest, gone i → after.get? (start i ++ rest) = none
  kept : ∀ i rest, ¬ gone i → after.get? (start i ++ rest) = t.get? (start i ++ rest)
  /-- What is of no number at all stays as well. -/
  others : ∀ id, (∀ i rest, id ≠ start i ++ rest) → after.get? id = t.get? id
  closed : ∀ event, event ∈ reported ↔
    ∃ i rest entry, gone i ∧ t.get? (start i ++ rest) = some entry ∧ entry.status = .problem ∧
      event = { entry with status := .closed, step := 0, createdAt := now }
  once : (reported.map Event.id).Nodup

theorem closesGone_closeAll {start : Int64 → String} (free : PrefixFree start) (keyed : t.Keyed)
    {gone : Int64 → Prop} {ids : List Int64} (listed : ∀ i, i ∈ ids ↔ gone i) (now : Instant) :
    ClosesGone start gone now t (closeAll t now (ids.map start)).1
      (closeAll t now (ids.map start)).2 := by
  have belongs (id : String) : ((ids.map start).any fun start => belongsTo start id) = true ↔
      ∃ i rest, gone i ∧ id = start i ++ rest := by
    simp only [List.any_map, List.any_eq_true, Function.comp_apply, listed, belongsTo_iff,
      exists_and_left]
  refine ⟨fun i rest goes => ?_, fun i rest stays => ?_, fun id apart => ?_, fun event => ?_, ?_⟩
  · rw [get?_closeAll, if_pos ((belongs _).mpr ⟨i, rest, goes, rfl⟩)]
  · rw [get?_closeAll, if_neg]
    rw [belongs]
    rintro ⟨j, other, goes, same⟩
    rw [(free.append_inj.mp same).1] at stays
    exact stays goes
  · rw [get?_closeAll, if_neg]
    rw [belongs]
    rintro ⟨i, rest, _, same⟩
    exact apart i rest same
  · rw [(closeAll_perm t now (ids.map start)).mem_iff]
    simp only [List.mem_map, List.mem_filter, Prod.exists, Bool.and_eq_true, belongs,
      Std.ExtTreeMap.mem_toList_iff_getElem?_eq_some, Status.isAlarming, beq_iff_eq, closing]
    constructor
    · rintro ⟨id, entry, ⟨found, ⟨i, rest, goes, rfl⟩, alarm⟩, rfl⟩
      exact ⟨i, rest, entry, goes, found, alarm, rfl⟩
    · rintro ⟨i, rest, entry, goes, found, alarm, rfl⟩
      exact ⟨_, entry, ⟨found, ⟨i, rest, goes, rfl⟩, alarm⟩, rfl⟩
  · exact nodup_closeAll keyed now (ids.map start)

namespace ClosesGone

variable {start : Int64 → String} {gone : Int64 → Prop} {reported : List Event}
  {after : DebounceTable}

theorem earlier (closes : ClosesGone start gone now t reported after)
    (found : after.get? id = some entry) : t.get? id = some entry := by
  by_cases own : ∃ i rest, id = start i ++ rest
  · obtain ⟨i, rest, rfl⟩ := own
    by_cases goes : gone i
    · rw [closes.removed i rest goes] at found
      cases found
    · rwa [closes.kept i rest goes] at found
  · simp only [not_exists] at own
    rwa [closes.others id own] at found

theorem stays (closes : ClosesGone start gone now t reported after) {i : Int64} {rest : String}
    (found : after.get? (start i ++ rest) = some entry) : ¬ gone i := by
  intro goes
  rw [closes.removed i rest goes] at found
  cases found

end ClosesGone

/-! ## Bringing in a set -/

theorem mem_gone_iff {Worker : Type} {before after : Std.ExtTreeMap Int64 Worker} {i : Int64} :
    (i ∈ before.keys.filter fun id => !after.contains id) ↔ i ∈ before ∧ i ∉ after := by
  simp [← Std.ExtTreeMap.contains_iff_mem]

theorem closesGone_setStrategies (keyed : e.table.Keyed) (now : Instant)
    (strategies : List Strategy) :
    let result := e.setStrategies now strategies
    ClosesGone idStart (fun i => i ∈ e.monitors ∧ i ∉ result.2.monitors) now e.table result.1
      result.2.table := by
  exact closesGone_closeAll prefixFree_idStart keyed (fun _ => mem_gone_iff) now

theorem closesGone_setComposites (keyed : e.table.Keyed) (now : Instant)
    (strategies : List CompositeStrategy) :
    let result := e.setComposites now strategies
    ClosesGone Composite.idStart (fun i => i ∈ e.composites ∧ i ∉ result.2.composites) now e.table
      result.1 result.2.table := by
  exact closesGone_closeAll prefixFree_composite_idStart keyed (fun _ => mem_gone_iff) now

/-! ## Owners -/

/-- An entry names a strategy or a composite at work, both by its id and as its owner. -/
def Owned (e : Engine) (id : String) (entry : Event) : Prop :=
  (∃ i series, id = idStart i ++ series ∧ i ∈ e.monitors ∧ entry.strategyId = i) ∨
    ∃ i group, id = Composite.idStart i ++ group ∧ i ∈ e.composites ∧ entry.strategyId = i

def AllOwned (e : Engine) : Prop := ∀ id entry, e.table.get? id = some entry → Owned e id entry

theorem allOwned_new (policy : DebouncePolicy) : AllOwned { policy := policy } := by
  intro id entry found
  rw [DebounceTable.get?_empty] at found
  cases found

theorem Owned.mono {next : Engine} (owned : Owned e id entry)
    (monitors : ∀ i, i ∈ e.monitors → i ∈ next.monitors)
    (composites : ∀ i, i ∈ e.composites → i ∈ next.composites) : Owned next id entry := by
  rcases owned with ⟨i, series, named, atWork, owner⟩ | ⟨i, group, named, atWork, owner⟩
  · exact .inl ⟨i, series, named, monitors i atWork, owner⟩
  · exact .inr ⟨i, group, named, composites i atWork, owner⟩

theorem Owned.kept {event : Event} (owned : Owned e event.id event) (policy : DebouncePolicy)
    (step : UInt32) : Owned e event.id (kept policy event step) := by
  simpa only [Owned, DebounceTable.kept_strategyId] using owned

theorem AllOwned.of_records (owned : AllOwned e) {events : List Event} {after : DebounceTable}
    (records : Records (Action.Observes fun event => Owned e event.id event) e.policy e.table
      (events, after)) (found : after.get? id = some entry) : Owned e id entry := by
  rcases records.get?_cases found with earlier | ⟨event, step, ownedEvent, rfl, rfl⟩
  · exact owned id entry earlier
  · exact Owned.kept ownedEvent e.policy step

theorem owned_eventOf (formed : WellFormed e) {i : Int64} {u : Monitor}
    (atWork : (e.monitors[i]?).map Monitor.strategy = some u.strategy) (series : String)
    (m : Metric) (judgment : Judgment) :
    let event := eventOf now u series m judgment
    Owned e event.id event := by
  obtain ⟨v, found, same⟩ := Option.map_eq_some_iff.mp atWork
  have own : u.id = i := by
    rw [← formed.monitors i v found, Monitor.id, Monitor.id, same]
  exact .inl ⟨u.id, series, rfl, mem_iff_exists_getElem?.mpr ⟨v, own ▸ found⟩, rfl⟩

theorem owned_report (registered : Registered e) {i : Int64} {c : Composite}
    (found : e.composites[i]? = some c) (key : String) (g : ScoreGroup) :
    let event := c.report now key g
    Owned e event.id event := by
  have own : c.id = i := (registered.composites i c found).1
  exact .inr ⟨c.id, key, rfl, mem_iff_exists_getElem?.mpr ⟨c, own ▸ found⟩, rfl⟩

theorem owned_perform (formed : WellFormed e) (registered : Registered e) (owned : AllOwned e)
    (now : Instant) (call : Call) : AllOwned (e.perform now call).2 := by
  intro id entry found
  cases call with
  | judge metrics =>
    have before := owned.of_records
      (judge_records (fun _ u atWork now m judgment _ => owned_eventOf formed atWork _ m judgment)
        metrics) found
    exact before.mono
      (fun i => (mem_perform_monitors e now (.judge metrics) (by simp) i).mpr)
      (fun i => (mem_perform_composites e now (.judge metrics) (by simp) i).mpr)
  | setStrategies strategies =>
    have closes := closesGone_setStrategies formed.table now strategies
    rcases owned id entry (closes.earlier found) with
      ⟨i, series, rfl, atWork, owner⟩ | ⟨i, group, named, atWork, owner⟩
    · refine .inl ⟨i, series, rfl, ?_, owner⟩
      by_contra leaves
      exact closes.stays found ⟨atWork, leaves⟩
    · exact .inr ⟨i, group, named, atWork, owner⟩
  | setComposites strategies =>
    have closes := closesGone_setComposites formed.table now strategies
    rcases owned id entry (closes.earlier found) with
      ⟨i, series, named, atWork, owner⟩ | ⟨i, group, rfl, atWork, owner⟩
    · exact .inl ⟨i, series, named, atWork, owner⟩
    · refine .inr ⟨i, group, rfl, ?_, owner⟩
      by_contra leaves
      exact closes.stays found ⟨atWork, leaves⟩
  | scan =>
    have before := owned.of_records
      (scan_records fun _ c found key g _ => owned_report registered found key g) found
    exact before.mono
      (fun i => (mem_perform_monitors e now .scan (by simp) i).mpr)
      (fun i => (mem_perform_composites e now .scan (by simp) i).mpr)
  | evictIdle cutoff =>
    exact (owned id entry found).mono
      (fun i => (mem_perform_monitors e now (.evictIdle cutoff) (by simp) i).mpr)
      (fun i => (mem_perform_composites e now (.evictIdle cutoff) (by simp) i).mpr)

theorem owned_run (formed : WellFormed e) (registered : Registered e) (owned : AllOwned e)
    (calls : List (Instant × Call)) : AllOwned (e.run calls).2 := by
  have kept : WellFormed (e.run calls).2 ∧ Registered (e.run calls).2 ∧ AllOwned (e.run calls).2 :=
    run_invariant (P := fun e => WellFormed e ∧ Registered e ∧ AllOwned e)
      (fun _ now call kept => ⟨wellFormed_perform kept.1 call,
        registered_perform kept.2.1 now call, owned_perform kept.1 kept.2.1 kept.2.2 now call⟩)
      ⟨formed, registered, owned⟩ calls
  exact kept.2.2

/-- In every engine that calls can lead to, each table entry stands under its own id, which names a
strategy or a composite at work as the owner. A set of strategies that comes in therefore takes away
the entries of exactly those strategies that it drops or that can no longer be read; it reports each
of their alarms as closed, once and otherwise as recorded, and it leaves all other entries, those of
composites of the same number among them. A set of composites does the same with their entries. -/
theorem entries_owned_and_closed (policy : DebouncePolicy) (calls : List (Instant × Call)) :
    let e := (run { policy := policy } calls).2
    (∀ id entry, e.table.get? id = some entry → entry.id = id ∧ Owned e id entry) ∧
    (∀ now strategies,
      let result := e.setStrategies now strategies
      let gone := fun i : Int64 => i ∈ e.monitors ∧ i ∉ result.2.monitors
      ClosesGone idStart gone now e.table result.1 result.2.table ∧
      (∀ i, gone i ↔ i ∈ e.monitors ∧
        ∀ s ∈ strategies, s.id = i → (Monitor.ofStrategy s).isOk = false) ∧
      ∀ i group, result.2.table.get? (Composite.idStart i ++ group) =
        e.table.get? (Composite.idStart i ++ group)) ∧
    (∀ now strategies,
      let result := e.setComposites now strategies
      let gone := fun i : Int64 => i ∈ e.composites ∧ i ∉ result.2.composites
      ClosesGone Composite.idStart gone now e.table result.1 result.2.table ∧
      (∀ i, gone i ↔ i ∈ e.composites ∧
        ∀ s ∈ strategies, s.id = i → (Composite.ofStrategy s).isOk = false) ∧
      ∀ i series, result.2.table.get? (idStart i ++ series) =
        e.table.get? (idStart i ++ series)) := by
  intro e
  have formed : WellFormed e := wellFormed_run (wellFormed_new policy) calls
  have registered : Registered e := registered_run (registered_new policy) calls
  have owned : AllOwned e :=
    owned_run (wellFormed_new policy) (registered_new policy) (allOwned_new policy) calls
  refine ⟨fun id entry found => ⟨formed.table id entry found, owned id entry found⟩,
    fun now strategies => ?_, fun now strategies => ?_⟩
  · intro result gone
    have closes : ClosesGone idStart gone now e.table result.1 result.2.table :=
      closesGone_setStrategies formed.table now strategies
    refine ⟨closes, fun i => and_congr_right fun _ => ?_, fun i group => closes.others _ ?_⟩
    · rw [mem_setStrategies_iff registered]
      simp
    · exact fun j series => composite_idStart_append_ne i j group series
  · intro result gone
    have closes : ClosesGone Composite.idStart gone now e.table result.1 result.2.table :=
      closesGone_setComposites formed.table now strategies
    refine ⟨closes, fun i => and_congr_right fun _ => ?_, fun i series => closes.others _ ?_⟩
    · rw [mem_setComposites_iff registered]
      simp
    · exact fun j group => (composite_idStart_append_ne j i group series).symm

end Engine

end AlertEngine
