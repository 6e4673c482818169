import AlertEngine.Proofs.EngineRuns

/-! # What a consumer of the events knows

A consumer that keeps the last event of every identity knows the alarms of the engine: the debounce
table and the events reported so far never disagree.

* `lastStatus`: the status in the last event of an identity.
* `ClosesAlarms`: an event `closed` comes only after an event `problem` of its identity.
* `Told`: the invariant between the reported events and the table, kept by observing and closing.
* `consumer_sees_table`: the invariant after any run of the engine, without the table's internals.
-/

namespace AlertEngine

open DebounceTable (Action Records isReported closing belongsTo stepAfter kept)

variable {told events : List Event} {id : String} {policy : DebouncePolicy} {t : DebounceTable}

/-! ## The last event of an identity -/

def lastStatus (events : List Event) (id : String) : Option Status :=
  (events.filter fun e => e.id == id).getLast?.map Event.status

theorem lastStatus_append_of_nil (silent : events.filter (fun e => e.id == id) = []) :
    lastStatus (told ++ events) id = lastStatus told id := by
  rw [lastStatus, List.filter_append, silent, List.append_nil, lastStatus]

theorem lastStatus_append_of_singleton {e : Event}
    (single : events.filter (fun e => e.id == id) = [e]) :
    lastStatus (told ++ events) id = some e.status := by
  rw [lastStatus, List.filter_append, single, List.getLast?_concat, Option.map_some]

/-! ## Closing after alarms -/

/-- Whether each `closed` among events that are reported after others comes when the last event of
its identity is `problem`. -/
def ClosesAlarms (told events : List Event) : Prop :=
  ∀ before e after, events = before ++ e :: after → e.status = .closed →
    lastStatus (told ++ before) e.id = some .problem

theorem ClosesAlarms.append {more : List Event} (first : ClosesAlarms told events)
    (second : ClosesAlarms (told ++ events) more) : ClosesAlarms told (events ++ more) := by
  intro before e after split closed
  rcases List.append_eq_append_iff.mp split with ⟨rest, rfl, tail⟩ | ⟨rest, head, tail⟩
  · rw [← List.append_assoc]
    exact second rest e after tail closed
  · cases rest with
    | nil =>
      rw [List.append_nil] at head
      have last := second [] e after tail.symm closed
      rwa [List.append_nil, head] at last
    | cons next rest =>
      rw [List.cons_append, List.cons.injEq] at tail
      obtain ⟨rfl, _⟩ := tail
      exact first before e rest head closed

theorem closesAlarms_of_forall (others : ∀ e ∈ events, e.status ≠ .closed) :
    ClosesAlarms told events := by
  intro before e after split closed
  exact absurd closed (others e (by rw [split]; simp))

/-! ## The invariant -/

/-- The events reported so far agree with the table: an entry has the status of the last event of
its identity, an identity without entry is not in alarm, and only alarms were closed. -/
structure Told (told : List Event) (t : DebounceTable) : Prop where
  keyed : t.Keyed
  judged : ∀ id entry, t.get? id = some entry → entry.status = .ok ∨ entry.status = .problem
  live : ∀ id entry, t.get? id = some entry → lastStatus told id = some entry.status
  gone : ∀ id, t.get? id = none →
    lastStatus told id = none ∨ lastStatus told id = some .ok ∨ lastStatus told id = some .closed
  closes : ClosesAlarms [] told

theorem told_nil : Told [] {} where
  keyed := DebounceTable.keyed_empty
  judged id entry found := by rw [DebounceTable.get?_empty] at found; cases found
  live id entry found := by rw [DebounceTable.get?_empty] at found; cases found
  gone id _ := .inl rfl
  closes := closesAlarms_of_forall (by simp)

/-- An observation that is not reported repeats the status of the entry before it. -/
theorem status_of_not_isReported {last : Option Event} {status : Status} {step : UInt32}
    (silent : isReported policy last status step = false) :
    ∃ entry, last = some entry ∧ entry.status = status := by
  cases last with
  | none => cases silent
  | some entry =>
    simp only [isReported, Bool.or_eq_false_iff, bne_eq_false_iff_eq] at silent
    exact ⟨entry, rfl, silent.1⟩

/-- After an observation, the last event of its identity has the status that was observed. -/
theorem Told.lastStatus_observe (agrees : Told told t) (policy : DebouncePolicy) (e : Event) :
    lastStatus (told ++ (t.observe policy e).1.toList) e.id = some e.status := by
  rw [DebounceTable.observe_fst]
  generalize stepAfter (t.get? e.id) e.status = step
  cases reported : isReported policy (t.get? e.id) e.status step with
  | true =>
    have single : [kept policy e step].filter (fun r => r.id == e.id) = [kept policy e step] := by
      simp
    rw [if_pos rfl, Option.toList_some, lastStatus_append_of_singleton single,
      DebounceTable.kept_status]
  | false =>
    obtain ⟨entry, found, same⟩ := status_of_not_isReported reported
    rw [if_neg Bool.false_ne_true, Option.toList_none, List.append_nil,
      agrees.live e.id entry found, same]

theorem Told.observe (agrees : Told told t) {e : Event}
    (judged : e.status = .ok ∨ e.status = .problem) :
    Told (told ++ (t.observe policy e).1.toList) (t.observe policy e).2 where
  keyed := agrees.keyed.observe policy e
  judged id entry found := by
    by_cases own : id = e.id
    · subst own
      rw [DebounceTable.get?_observe_self, Option.some.injEq] at found
      rw [← found, DebounceTable.kept_status]
      exact judged
    · rw [DebounceTable.get?_observe_of_ne own] at found
      exact agrees.judged id entry found
  live id entry found := by
    by_cases own : id = e.id
    · subst own
      rw [DebounceTable.get?_observe_self, Option.some.injEq] at found
      rw [agrees.lastStatus_observe policy e, ← found, DebounceTable.kept_status]
    · rw [DebounceTable.get?_observe_of_ne own] at found
      rw [lastStatus_append_of_nil (DebounceTable.filter_observe_of_ne (Ne.symm own))]
      exact agrees.live id entry found
  gone id missing := by
    have own : id ≠ e.id := by
      rintro rfl
      rw [DebounceTable.get?_observe_self] at missing
      cases missing
    rw [DebounceTable.get?_observe_of_ne own] at missing
    rw [lastStatus_append_of_nil (DebounceTable.filter_observe_of_ne (Ne.symm own))]
    exact agrees.gone id missing
  closes := by
    apply agrees.closes.append
    apply closesAlarms_of_forall
    intro reported member
    rw [DebounceTable.mem_observe (Option.mem_toList.mp member), DebounceTable.kept_status]
    rcases judged with calm | alarm
    · rw [calm]; decide
    · rw [alarm]; decide

/-- Closing reports an identity at most once, and only when its last event is an alarm. -/
theorem Told.closesAlarms_close (agrees : Told told t) (now : Instant) (start : String) :
    ClosesAlarms told (t.close now start).1 := by
  intro before e after split _
  have reports := DebounceTable.filter_close agrees.keyed now start e.id
  rw [split, List.filter_append, List.filter_cons, if_pos (beq_self_eq_true e.id)] at reports
  cases found : t.get? e.id with
  | none => simp [found] at reports
  | some entry =>
    rw [found, Option.filter_some] at reports
    split at reports
    · rename_i alarming
      have first : before.filter (fun r => r.id == e.id) = [] := by
        have count := congrArg List.length reports
        simp only [List.length_append, List.length_cons, Option.toList_some, List.length_map,
          List.length_nil] at count
        exact List.eq_nil_of_length_eq_zero (by omega)
      have problem : entry.status = .problem := by
        simpa [Status.isAlarming] using (Bool.and_eq_true_iff.mp alarming).2
      rw [lastStatus_append_of_nil first, agrees.live e.id entry found, problem]
    · simp at reports

theorem Told.close (agrees : Told told t) (now : Instant) (start : String) :
    Told (told ++ (t.close now start).1) (t.close now start).2 where
  keyed := agrees.keyed.close now start
  judged id entry found := by
    rw [DebounceTable.get?_close] at found
    split at found
    · cases found
    · exact agrees.judged id entry found
  live id entry found := by
    rw [DebounceTable.get?_close] at found
    split at found
    · cases found
    · rename_i apart
      have silent := DebounceTable.filter_close agrees.keyed now start id
      rw [found, Option.filter_some, if_neg (by simp [apart])] at silent
      rw [lastStatus_append_of_nil silent]
      exact agrees.live id entry found
  gone id missing := by
    have reports := DebounceTable.filter_close agrees.keyed now start id
    cases found : t.get? id with
    | none =>
      rw [found] at reports
      rw [lastStatus_append_of_nil reports]
      exact agrees.gone id found
    | some entry =>
      rw [DebounceTable.get?_close, found] at missing
      have belongs : belongsTo start id = true := by
        by_contra apart
        rw [if_neg apart] at missing
        cases missing
      rw [found, Option.filter_some, belongs, Bool.true_and] at reports
      rcases agrees.judged id entry found with calm | alarm
      · rw [calm, if_neg (by decide)] at reports
        rw [lastStatus_append_of_nil reports, agrees.live id entry found, calm]
        exact .inr (.inl rfl)
      · rw [alarm, if_pos (by decide)] at reports
        rw [lastStatus_append_of_singleton reports]
        exact .inr (.inr rfl)
  closes := agrees.closes.append (by
    rw [List.nil_append]
    exact agrees.closesAlarms_close now start)

theorem Told.actAll (agrees : Told told t) (policy : DebouncePolicy) {actions : List Action}
    (judged : ∀ a ∈ actions, a.Judged) :
    Told (told ++ (t.actAll policy actions).1) (t.actAll policy actions).2 := by
  induction actions generalizing told t with
  | nil =>
    rw [DebounceTable.actAll, List.append_nil]
    exact agrees
  | cons a actions inductionHypothesis =>
    rw [List.forall_mem_cons] at judged
    rw [DebounceTable.actAll, ← List.append_assoc]
    apply inductionHypothesis _ judged.2
    cases a with
    | observe e => exact agrees.observe judged.1
    | close now start => exact agrees.close now start

/-! ## Runs of the engine -/

theorem Told.run {e : Engine} (agrees : Told told e.table) (calls : List (Instant × Engine.Call)) :
    Told (told ++ (e.run calls).1) (e.run calls).2.table := by
  induction calls generalizing told e with
  | nil =>
    rw [Engine.run, List.append_nil]
    exact agrees
  | cons call calls inductionHypothesis =>
    rw [Engine.run, ← List.append_assoc]
    apply inductionHypothesis
    obtain ⟨actions, judged, result⟩ := Engine.perform_records e call.1 call.2
    have kept := agrees.actAll e.policy judged
    rwa [result] at kept

/-- After any run, an entry of the table has the status of the last event reported of its identity,
an identity without entry was never reported or last reported as `ok` or `closed`, the identities
whose last event is `problem` are those in alarm, and each event `closed` came when the last event
of its identity was `problem`. -/
theorem consumer_sees_table (policy : DebouncePolicy) (calls : List (Instant × Engine.Call)) :
    let told := (Engine.run { policy := policy } calls).1
    let table := (Engine.run { policy := policy } calls).2.table
    (∀ id entry, table.get? id = some entry → lastStatus told id = some entry.status) ∧
    (∀ id, table.get? id = none →
      lastStatus told id = none ∨ lastStatus told id = some .ok ∨
        lastStatus told id = some .closed) ∧
    (∀ id, lastStatus told id = some .problem ↔
      ∃ entry, table.get? id = some entry ∧ entry.status = .problem) ∧
    (∀ before e after, told = before ++ e :: after → e.status = .closed →
      lastStatus before e.id = some .problem) := by
  intro told table
  have agrees : Told told table := Told.run (e := { policy := policy }) told_nil calls
  refine ⟨agrees.live, agrees.gone, fun id => ⟨fun alarm => ?_, ?_⟩, agrees.closes⟩
  · cases found : table.get? id with
    | none =>
      rcases agrees.gone id found with last | last | last <;> rw [last] at alarm <;> cases alarm
    | some entry =>
      rw [agrees.live id entry found, Option.some.injEq] at alarm
      exact ⟨entry, rfl, alarm⟩
  · rintro ⟨entry, found, alarm⟩
    rw [agrees.live id entry found, alarm]

end AlertEngine
