import Mathlib
import AlertEngine.Proofs.Registration

/-! # Sets of strategies in a run

The rules for bringing in a set, for every engine that calls can lead to. Strategies from their JSON
hold no NaN, so that each is equal to itself; without that a strategy would be made afresh with
every set that holds it.

* `Strategy.beq_self_iff`: which strategies are equal to themselves.
* `setStrategies_of_unchanged`: a set that brings in nothing new changes nothing.
* `setStrategies_reconciles`: what is at work after a set has come in, and after it has come twice.
-/

namespace AlertEngine

theorem Strategy.beq_self_iff {s : Strategy} :
    (s == s) = true ↔ s.rightValue.isNaN = false ∧ s.weight.isNaN = false := by
  have number (x : Float) : x.isNaN = false ↔ (x == x) = true := by
    rw [Float.isNaN_eq_decide_eq_nan, decide_eq_false_iff_not, Float.beq_self_iff]
  simp only [beq_eq, beq_self_eq_true, Bool.true_and, Bool.and_true, Bool.and_eq_true, number]

theorem StrategyKind.plain_lastReadable? (strategies : List Strategy) (id : Int64) :
    plain.lastReadable? strategies id =
      (strategies.filter fun s => s.id == id && (Monitor.ofStrategy s).isOk).getLast? := by
  simp only [lastReadable?, plain_reads]
  rw [plain]

namespace Engine

variable {e : Engine}

/-- When the monitors and their index are as the set asks, nothing is closed and nothing changes. -/
theorem setStrategies_of_unchanged {strategies : List Strategy}
    (monitors : reconcile e.monitors strategies = e.monitors)
    (dispatch : dispatchOf e.monitors = e.dispatch) (now : Instant) :
    e.setStrategies now strategies = ([], e) := by
  have none : (e.monitors.keys.filter fun id => !e.monitors.contains id) = [] := by
    simp [List.filter_eq_nil_iff]
  simp only [setStrategies, monitors, dispatch, none, List.map_nil, closeAll]

/-- After a set of strategies without NaN has come in, an id is at work just when some entry of the
set with that id can be read. Its monitor is of the last such entry: the one from before, with its
windows, just when that was of an equal strategy, and else a new one without windows. The same set
once more reports nothing and changes nothing. -/
theorem setStrategies_reconciles (policy : DebouncePolicy) (calls : List (Instant × Call))
    (now : Instant) (strategies : List Strategy)
    (numbers : ∀ s ∈ strategies, s.rightValue.isNaN = false ∧ s.weight.isNaN = false) :
    let e := (run { policy := policy } calls).2
    let next := (e.setStrategies now strategies).2
    (∀ id, id ∈ next.monitors ↔
      ∃ s ∈ strategies, s.id = id ∧ (Monitor.ofStrategy s).isOk = true) ∧
    (∀ id s,
      (strategies.filter fun s => s.id == id && (Monitor.ofStrategy s).isOk).getLast? = some s →
      ∃ u, next.monitors[id]? = some u ∧ (u.strategy == s) = true ∧
        (e.monitors[id]? = some u ↔
          ∃ old, e.monitors[id]? = some old ∧ (old.strategy == s) = true) ∧
        (e.monitors[id]? ≠ some u → Monitor.ofStrategy s = .ok u ∧ u.windows = ∅)) ∧
    ∀ later, next.setStrategies later strategies = ([], next) := by
  intro e next
  have registered : Registered e := registered_run (registered_new policy) calls
  have reflexive : ∀ s ∈ strategies, (s == s) = true := fun s member =>
    Strategy.beq_self_iff.mpr (numbers s member)
  have monitors : next.monitors = StrategyKind.plain.reconcile e.monitors strategies :=
    reconcile_eq e.monitors strategies
  refine ⟨mem_setStrategies_iff registered now strategies, fun id s last => ?_, fun later => ?_⟩
  · rw [← StrategyKind.plain_lastReadable?] at last
    obtain ⟨member, _, reads⟩ := StrategyKind.mem_of_lastReadable? last
    rw [monitors, StrategyKind.reconcile_getElem? StrategyKind.lawful_plain registered.monitors,
      last, Option.bind_some]
    rcases StrategyKind.settle_cases StrategyKind.lawful_plain reads e.monitors[id]? with
      ⟨kept, before, equal, settled⟩ | ⟨fresh, made, strategy, differs, settled⟩
    · exact ⟨kept, settled, equal, ⟨fun same => ⟨kept, same, equal⟩, fun _ => before⟩,
        fun other => absurd before other⟩
    · have equal : (fresh.strategy == s) = true := by
        rw [show fresh.strategy = s from strategy]
        exact reflexive s member
      obtain ⟨r, _, new⟩ := Monitor.eq_of_ofStrategy made
      refine ⟨fresh, settled, equal, ⟨fun same => ⟨fresh, same, equal⟩, ?_⟩,
        fun _ => ⟨made, by rw [new]⟩⟩
      rintro ⟨old, before, same⟩
      exact absurd same (Bool.eq_false_iff.mp (differs old before))
  · refine setStrategies_of_unchanged ?_ rfl later
    rw [reconcile_eq, monitors]
    exact StrategyKind.reconcile_reconcile StrategyKind.lawful_plain registered.monitors reflexive

/-- A set with three entries of one id, a changed one, the one at work and one that cannot be read:
the monitor stays, with its window. -/
theorem setStrategies_keeps_window :
    let strategy (func : String) (threshold : Float) : Strategy :=
      { id := 1, metric := "cpu", func := func, op := ">", rightValue := threshold }
    let calls : List (Instant × Call) :=
      [(.epoch, .setStrategies [strategy "all(#2)" 1]),
       (.epoch, .judge [{ name := "cpu", value := 5 }])]
    let snapshot := [strategy "all(#2)" 7, strategy "all(#2)" 1, strategy "most(#2)" 1]
    let e := (run {} calls).2
    let next := (e.setStrategies .epoch snapshot).2
    (∀ s ∈ snapshot, s.rightValue.isNaN = false ∧ s.weight.isNaN = false) ∧
      (∃ u, e.monitors[(1 : Int64)]? = some u ∧ next.monitors[(1 : Int64)]? = some u ∧
        u.windowCount = 1) ∧
      next.setStrategies .epoch snapshot = ([], next) := by
  intro strategy calls snapshot
  -- The engines are written out, so that no step has to run them to compare them.
  dsimp only
  have numbers : ∀ s ∈ snapshot, s.rightValue.isNaN = false ∧ s.weight.isNaN = false := by
    decide +kernel
  have readable : (Monitor.ofStrategy (strategy "all(#2)" 7)).isOk = true ∧
      (Monitor.ofStrategy (strategy "all(#2)" 1)).isOk = true ∧
      (Monitor.ofStrategy (strategy "most(#2)" 1)).isOk = false := by
    decide +kernel
  have last : (snapshot.filter fun s => s.id == 1 && (Monitor.ofStrategy s).isOk).getLast? =
      some (strategy "all(#2)" 1) := by
    simp [snapshot, readable, strategy]
  have before : ((run {} calls).2.monitors[(1 : Int64)]?).any (fun u =>
      (u.strategy == strategy "all(#2)" 1) && u.windowCount == 1) = true := by
    decide +kernel
  obtain ⟨old, atWork, same⟩ := Option.any_eq_true _ _ |>.mp before
  rw [Bool.and_eq_true] at same
  obtain ⟨_, settled, again⟩ := setStrategies_reconciles {} calls .epoch snapshot numbers
  obtain ⟨u, placed, _, stays, _⟩ := settled 1 _ last
  have kept : (run {} calls).2.monitors[(1 : Int64)]? = some u := stays.mpr ⟨old, atWork, same.1⟩
  rw [atWork, Option.some.injEq] at kept
  subst kept
  exact ⟨numbers, ⟨old, atWork, placed, beq_iff_eq.mp same.2⟩, again .epoch⟩

end Engine

end AlertEngine
