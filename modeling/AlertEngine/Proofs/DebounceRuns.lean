import AlertEngine.Debounce
import AlertEngine.Proofs.Shared
import Mathlib.Data.List.Induction

/-! # Runs of the debounce table

The table keeps one event for each identity, but the rules of debouncing speak about all judgments
of that identity so far. This module ties the two together for runs of any length.

* `Keyed`: every entry stands under its own identity; then `filter_close` says what closing
  reports about one identity.
* `Action`, `act`, `actAll`: observing and closing, one after the other.
* `streak`: how many observations of an identity in a row had one status.
* `Counted`: the invariant of a run. The step of an entry is the streak before its last
  observation, cut off at `lastStep`.
* `observe_after_run`: what an observation reports and leaves behind, in terms of the streak.
-/

namespace AlertEngine.DebounceTable

variable {policy : DebouncePolicy} {t : DebounceTable} {e : Event} {id : String}

/-! ## One action -/

theorem get?_empty (id : String) : ({} : DebounceTable).get? id = none := by
  simp [get?]

@[simp] theorem kept_id (step : UInt32) : (kept policy e step).id = e.id := by
  unfold kept; dsimp only; split <;> rfl

@[simp] theorem kept_status (step : UInt32) : (kept policy e step).status = e.status := by
  unfold kept; dsimp only; split <;> rfl

@[simp] theorem kept_step (step : UInt32) : (kept policy e step).step = step := by
  unfold kept; dsimp only; split <;> rfl

@[simp] theorem kept_strategyId (step : UInt32) :
    (kept policy e step).strategyId = e.strategyId := by
  unfold kept; dsimp only; split <;> rfl

theorem stepAfter_of_eq {last : Event} {status : Status} (same : last.status = status) :
    stepAfter (some last) status = nextStep last.step := by
  simp [stepAfter, same]

theorem stepAfter_of_ne {last : Event} {status : Status} (differs : last.status ≠ status) :
    stepAfter (some last) status = 0 := by
  simp [stepAfter, differs]

theorem get?_observe_self :
    (t.observe policy e).2.get? e.id =
      some (kept policy e (stepAfter (t.get? e.id) e.status)) := by
  simp [observe, get?]

theorem get?_observe_of_ne (other : id ≠ e.id) : (t.observe policy e).2.get? id = t.get? id := by
  simp [observe, get?, Std.ExtTreeMap.getElem?_insert, Ne.symm other]

/-- Closing forgets the identities that begin with the text, and no others. -/
theorem get?_close (now : Instant) (start : String) :
    (t.close now start).2.get? id = if belongsTo start id then none else t.get? id := by
  simp only [close, get?, Std.ExtTreeMap.getElem?_filter']
  cases t.events[id]? <;> cases belongsTo start id <;> rfl

theorem observe_fst :
    (t.observe policy e).1 =
      if isReported policy (t.get? e.id) e.status (stepAfter (t.get? e.id) e.status) then
        some (kept policy e (stepAfter (t.get? e.id) e.status))
      else none := rfl

/-- What an observation reports is about its own identity, in the form that is kept. -/
theorem mem_observe {reported : Event} (member : reported ∈ (t.observe policy e).1) :
    reported = kept policy e (stepAfter (t.get? e.id) e.status) := by
  rw [observe_fst] at member
  split at member
  · exact (Option.some.inj member).symm
  · cases member

theorem filter_observe_of_ne (other : e.id ≠ id) :
    (t.observe policy e).1.toList.filter (fun r => r.id == id) = [] := by
  rw [List.filter_eq_nil_iff]
  intro reported member
  rw [mem_observe (Option.mem_toList.mp member), kept_id, beq_iff_eq]
  exact other

/-! ## Entries under their own identity -/

def Keyed (t : DebounceTable) : Prop := ∀ id entry, t.get? id = some entry → entry.id = id

theorem keyed_empty : Keyed {} := by
  intro id entry found
  rw [get?_empty] at found
  cases found

theorem Keyed.observe (keyed : t.Keyed) (policy : DebouncePolicy) (e : Event) :
    (t.observe policy e).2.Keyed := by
  intro id entry found
  by_cases own : id = e.id
  · subst own
    rw [get?_observe_self, Option.some.injEq] at found
    rw [← found, kept_id]
  · rw [get?_observe_of_ne own] at found
    exact keyed id entry found

theorem Keyed.close (keyed : t.Keyed) (now : Instant) (start : String) :
    (t.close now start).2.Keyed := by
  intro id entry found
  rw [get?_close] at found
  split at found
  · cases found
  · exact keyed id entry found

/-- What closing reports about one identity: its alarm, if it is closed and in alarm. -/
theorem filter_close (keyed : t.Keyed) (now : Instant) (start id : String) :
    (t.close now start).1.filter (fun r => r.id == id) =
      ((t.get? id).filter fun entry => belongsTo start id && entry.status.isAlarming).toList.map
        (closing now) := by
  let alarms := t.events.filter fun id entry => belongsTo start id && entry.status.isAlarming
  have reports : (t.close now start).1 = alarms.toList.map fun entry => closing now entry.2 := rfl
  have byKey : alarms.toList.filter ((fun r => r.id == id) ∘ fun entry => closing now entry.2) =
      alarms.toList.filter fun entry => entry.1 == id := by
    apply List.filter_congr
    rintro ⟨key, entry⟩ member
    rw [Std.ExtTreeMap.mem_toList_iff_getElem?_eq_some, Std.ExtTreeMap.getElem?_filter'] at member
    have own : entry.id = key := keyed key entry (Option.eq_some_of_filter_eq_some member)
    simp only [Function.comp_apply, closing, own]
  rw [reports, List.filter_map, byKey, toList_filter_key, List.map_map,
    Std.ExtTreeMap.getElem?_filter']
  rfl

/-! ## Runs -/

inductive Action where
  | observe (e : Event)
  | close (now : Instant) (start : String)

def act (t : DebounceTable) (policy : DebouncePolicy) : Action → List Event × DebounceTable
  | .observe e => ((t.observe policy e).1.toList, (t.observe policy e).2)
  | .close now start => t.close now start

def actAll (t : DebounceTable) (policy : DebouncePolicy) :
    List Action → List Event × DebounceTable
  | [] => ([], t)
  | a :: actions =>
    ((t.act policy a).1 ++ ((t.act policy a).2.actAll policy actions).1,
      ((t.act policy a).2.actAll policy actions).2)

theorem actAll_append (first second : List Action) :
    t.actAll policy (first ++ second) =
      ((t.actAll policy first).1 ++ ((t.actAll policy first).2.actAll policy second).1,
        ((t.actAll policy first).2.actAll policy second).2) := by
  induction first generalizing t with
  | nil => rfl
  | cons a first inductionHypothesis =>
    simp only [List.cons_append, actAll, inductionHypothesis, List.append_assoc]

theorem actAll_snoc (actions : List Action) (a : Action) :
    t.actAll policy (actions ++ [a]) =
      ((t.actAll policy actions).1 ++ ((t.actAll policy actions).2.act policy a).1,
        ((t.actAll policy actions).2.act policy a).2) := by
  simp [actAll_append, actAll]

/-! ## Streaks -/

def Action.concerns (id : String) : Action → Bool
  | .observe e => e.id == id
  | .close _ start => belongsTo start id

def Action.observes (status : Status) : Action → Bool
  | .observe e => e.status == status
  | .close .. => false

/-- How many of the last actions that concern an identity are observations of one status, counted
back to the first that is not. -/
def streak (id : String) (status : Status) (actions : List Action) : Nat :=
  ((actions.reverse.filter (Action.concerns id)).takeWhile (Action.observes status)).length

theorem streak_snoc (id : String) (status : Status) (actions : List Action) (a : Action) :
    streak id status (actions ++ [a]) =
      if a.concerns id then
        if a.observes status then streak id status actions + 1 else 0
      else streak id status actions := by
  simp only [streak, List.reverse_append, List.reverse_cons, List.reverse_nil, List.nil_append,
    List.cons_append, List.filter_cons]
  cases a.concerns id with
  | false => rfl
  | true =>
    simp only [if_true, List.takeWhile_cons]
    cases a.observes status <;> rfl

/-! ## Steps -/

def lastStep : Nat := 0xFFFFFFFF

theorem toNat_nextStep (step : UInt32) : (nextStep step).toNat = min (step.toNat + 1) lastStep := by
  have bound : step.toNat < 2 ^ 32 := step.toNat_lt
  unfold nextStep lastStep
  split
  · rename_i largest
    subst largest
    rfl
  · rename_i smaller
    have strict : step.toNat ≠ 4294967295 := fun equal => smaller (UInt32.toNat_inj.mp equal)
    rw [UInt32.toNat_add]
    have one : (1 : UInt32).toNat = 1 := rfl
    omega

/-- The invariant of a run: an entry tells how long the streak of its status is, up to `lastStep`,
and there is one exactly when some streak has begun. -/
structure Counted (actions : List Action) (t : DebounceTable) : Prop where
  step : ∀ id status, (stepAfter (t.get? id) status).toNat = min (streak id status actions) lastStep
  entry : ∀ id status,
    (∃ last, t.get? id = some last ∧ last.status = status) ↔ 0 < streak id status actions

theorem counted_nil : Counted [] {} where
  step id status := by simp [get?_empty, stepAfter, streak]
  entry id status := by simp [get?_empty, streak]

/-- An observation lengthens the streak of its status and ends those of the others. -/
theorem Counted.observe {actions : List Action} (counted : Counted actions t) (e : Event) :
    Counted (actions ++ [.observe e]) (t.observe policy e).2 where
  step id status := by
    rw [streak_snoc]
    by_cases own : id = e.id
    · subst own
      rw [get?_observe_self]
      by_cases same : e.status = status
      · subst same
        have before := counted.step e.id e.status
        rw [stepAfter_of_eq (kept_status _), kept_step, toNat_nextStep, before]
        simp only [Action.concerns, Action.observes, beq_self_eq_true, if_true]
        omega
      · rw [stepAfter_of_ne (by simpa using same)]
        simp [Action.concerns, Action.observes, same]
    · have elsewhere : (e.id == id) = false := by simpa using Ne.symm own
      rw [get?_observe_of_ne own]
      simp only [Action.concerns, elsewhere]
      exact counted.step id status
  entry id status := by
    rw [streak_snoc]
    by_cases own : id = e.id
    · subst own
      simp only [get?_observe_self, Option.some.injEq, exists_eq_left', kept_status,
        Action.concerns, beq_self_eq_true, if_true, Action.observes]
      by_cases same : e.status = status <;> simp [same]
    · have elsewhere : (e.id == id) = false := by simpa using Ne.symm own
      rw [get?_observe_of_ne own]
      simp only [Action.concerns, elsewhere]
      exact counted.entry id status

/-- Closing ends every streak of the identities that it forgets. -/
theorem Counted.close {actions : List Action} (counted : Counted actions t) (now : Instant)
    (start : String) : Counted (actions ++ [.close now start]) (t.close now start).2 where
  step id status := by
    rw [streak_snoc, get?_close]
    cases belongs : belongsTo start id with
    | true => simp [stepAfter, Action.concerns, Action.observes, belongs]
    | false =>
      simp only [Action.concerns, belongs]
      exact counted.step id status
  entry id status := by
    rw [streak_snoc, get?_close]
    cases belongs : belongsTo start id with
    | true => simp [Action.concerns, Action.observes, belongs]
    | false =>
      simp only [Action.concerns, belongs]
      exact counted.entry id status

theorem counted_actAll (policy : DebouncePolicy) (actions : List Action) :
    Counted actions (actAll {} policy actions).2 := by
  induction actions using List.reverseRecOn with
  | nil => exact counted_nil
  | append_singleton actions a inductionHypothesis =>
    rw [actAll_snoc]
    cases a with
    | observe e => exact inductionHypothesis.observe e
    | close now start => exact inductionHypothesis.close now start

/-! ## What an observation does -/

/-- With the entry that a run leaves, an observation is reported on a new streak, and in a streak of
alarms whenever its length is a multiple of the policy's steps. -/
theorem Counted.isReported_iff {actions : List Action} (counted : Counted actions t)
    (policy : DebouncePolicy) (id : String) (status : Status) :
    isReported policy (t.get? id) status (stepAfter (t.get? id) status) = true ↔
      streak id status actions = 0 ∨
        status = .problem ∧ 0 < policy.realarmSteps.toNat ∧
          policy.realarmSteps.toNat ∣ min (streak id status actions) lastStep := by
  have steps := counted.step id status
  have entries := counted.entry id status
  cases found : t.get? id with
  | none =>
    have fresh : streak id status actions = 0 := by simpa [found] using entries
    simp [isReported, fresh]
  | some last =>
    rw [found] at steps entries
    simp only [Option.some.injEq, exists_eq_left'] at entries
    -- In a streak the last status is the observed one, so that only the policy's steps count.
    by_cases same : last.status = status
    · have going : streak id status actions ≠ 0 := Nat.ne_of_gt (entries.mp same)
      have positive : policy.realarmSteps ≠ 0 ↔ 0 < policy.realarmSteps.toNat := by
        rw [Nat.pos_iff_ne_zero, ne_eq, ne_eq, ← UInt32.toNat_inj]
        rfl
      have divides : stepAfter (some last) status % policy.realarmSteps = 0 ↔
          policy.realarmSteps.toNat ∣ min (streak id status actions) lastStep := by
        rw [← steps, Nat.dvd_iff_mod_eq_zero, ← UInt32.toNat_mod, ← UInt32.toNat_inj]
        rfl
      simp [isReported, same, going, positive, divides, and_assoc]
    · have fresh : streak id status actions = 0 :=
        Nat.eq_zero_of_not_pos fun pos => same (entries.mpr pos)
      simp [isReported, same, fresh]

theorem kept_eq (policy : DebouncePolicy) (e : Event) (step : UInt32) :
    kept policy e step =
      { e with
        step := step
        tags := if e.status = .ok ∧ policy.simplifyOkAfter.toNat ≤ step.toNat then ∅ else e.tags
        fields :=
          if e.status = .ok ∧ policy.simplifyOkAfter.toNat ≤ step.toNat then ∅ else e.fields } := by
  simp only [kept, UInt32.le_iff_toNat_le]
  split <;> rfl

/-- An observation after any run: its step is the number of equal observations of its identity just
before it, it is reported when that number is zero or a multiple of the policy's steps in an alarm,
it is kept without its tags and fields once a calm has lasted, and what is reported is what is
kept. -/
theorem observe_after_run (policy : DebouncePolicy) (actions : List Action) (e : Event) :
    let t := (actAll {} policy actions).2
    let count := streak e.id e.status actions
    let step := min count lastStep
    let calm := e.status = .ok ∧ policy.simplifyOkAfter.toNat ≤ step
    let stored : Event :=
      { e with
        step := UInt32.ofNat step
        tags := if calm then ∅ else e.tags
        fields := if calm then ∅ else e.fields }
    stored.step.toNat = step ∧
      (t.observe policy e).2.get? e.id = some stored ∧
      (t.observe policy e).1 =
        (if count = 0 ∨
            e.status = .problem ∧ 0 < policy.realarmSteps.toNat ∧
              policy.realarmSteps.toNat ∣ step
          then some stored else none) ∧
      ∀ id, id ≠ e.id → (t.observe policy e).2.get? id = t.get? id := by
  intro t count step calm stored
  have counted : Counted actions t := counted_actAll policy actions
  have steps : (stepAfter (t.get? e.id) e.status).toNat = step := counted.step e.id e.status
  have written : stepAfter (t.get? e.id) e.status = UInt32.ofNat step := by
    rw [← steps, UInt32.ofNat_toNat]
  have keeps : kept policy e (stepAfter (t.get? e.id) e.status) = stored := by
    rw [kept_eq, steps, written]
  refine ⟨?_, ?_, ?_, fun id other => get?_observe_of_ne other⟩
  · rw [← steps, written]
  · rw [get?_observe_self, keeps]
  · rw [observe_fst, keeps]
    exact if_congr (counted.isReported_iff policy e.id e.status) rfl rfl

end AlertEngine.DebounceTable
