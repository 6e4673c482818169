import AlertEngine.Proofs.Registration

/-! # Dispatch by metric name

The engine asks only the monitors that its index lists for the name of a metric. Nothing is lost by
that: it comes to the same as asking every monitor at work.

* `Engine.acceptors`, `Engine.judgeScanning`: judging without the index.
* `Engine.candidates_filter`: the index lists every monitor that accepts a metric, and each once.
* `Engine.judge_monitors`: what a batch does to a monitor.
* `Engine.judge_eq_judgeScanning`: judging with the index and without it is the same.
-/

namespace AlertEngine

namespace Monitor

def receive (u : Monitor) (m : Metric) : Monitor := if u.accepts m then (u.check m).2 else u

theorem accepts_check (u : Monitor) (m other : Metric) :
    (u.check m).2.accepts other = u.accepts other := by
  rw [accepts, accepts, check, Engine.checkSeries_strategy, Engine.checkSeries_rule]

theorem foldl_receive (u : Monitor) (metrics : List Metric) :
    metrics.foldl receive u =
      (metrics.filter u.accepts).foldl (fun u m => (u.check m).2) u := by
  induction metrics generalizing u with
  | nil => rfl
  | cons m metrics inductionHypothesis =>
    rw [List.foldl_cons, inductionHypothesis]
    by_cases accepted : u.accepts m = true
    · have later : (u.check m).2.accepts = u.accepts := funext (u.accepts_check m)
      rw [List.filter_cons_of_pos accepted, List.foldl_cons, receive, if_pos accepted, later]
    · rw [List.filter_cons_of_neg accepted, receive, if_neg accepted]

end Monitor

namespace Engine

/-! ## Judging without an index -/

def acceptedBy (e : Engine) (m : Metric) (id : Int64) : Bool :=
  (e.monitors[id]?).any fun u => u.accepts m

def acceptors (e : Engine) (m : Metric) : List Int64 := e.monitors.keys.filter (e.acceptedBy m)

/-- Judges a metric by every monitor that accepts it, then by every composite. -/
def judgeMetricScanning (e : Engine) (now : Instant) (m : Metric) : List Event × Engine :=
  let e := { e with latest := max e.latest m.timestamp }
  let (reported, e) := e.judgeByAll now m (e.acceptors m)
  (reported, { e with composites := e.composites.map fun _ c => c.feed m })

def judgeScanning (e : Engine) (now : Instant) : List Metric → List Event × Engine
  | [] => ([], e)
  | m :: ms =>
    let (reported, e) := e.judgeMetricScanning now m
    let (rest, e) := e.judgeScanning now ms
    (reported ++ rest, e)

variable {e : Engine} {now : Instant} {m : Metric} {id other : Int64}

theorem acceptedBy_iff :
    e.acceptedBy m id = true ↔ ∃ u, e.monitors[id]? = some u ∧ u.accepts m = true := by
  rw [acceptedBy, Option.any_eq_true]

theorem mem_acceptors_iff :
    id ∈ e.acceptors m ↔ ∃ u, e.monitors[id]? = some u ∧ u.accepts m = true := by
  rw [acceptors, List.mem_filter, Std.ExtTreeMap.mem_keys, mem_iff_exists_getElem?, acceptedBy_iff]
  constructor
  · exact fun both => both.2
  · rintro ⟨u, found, accepted⟩
    exact ⟨⟨u, found⟩, u, found, accepted⟩

theorem acceptors_ascending (e : Engine) (m : Metric) : (e.acceptors m).Pairwise (· < ·) :=
  (e.monitors.ordered_keys.imp Std.compare_eq_lt.mp).filter _

/-! ## One monitor -/

theorem judgeBy_of_not_accepted (refused : e.acceptedBy m id = false) :
    e.judgeBy now m id = (none, e) := by
  unfold judgeBy
  cases found : e.monitors[id]? with
  | none => rfl
  | some u =>
    rw [acceptedBy, found, Option.any_some] at refused
    simp [refused]

theorem record_monitors (u : Monitor) (series : String) (m : Metric) (judgment : Judgment) :
    (e.record now u series m judgment).2.monitors = e.monitors := by
  unfold record
  split
  · rfl
  · rfl

theorem judgeBy_of_accepts {u : Monitor} (found : e.monitors[id]? = some u)
    (accepted : u.accepts m = true) :
    (e.judgeBy now m id).2.monitors = e.monitors.insert id (u.check m).2 := by
  unfold judgeBy Monitor.check
  rw [found]
  simp only [accepted, if_true]
  cases (u.checkSeries m.identity m).1 with
  | error fault => rfl
  | ok judgment => exact record_monitors _ _ _ _

/-- Judging by an id lets its monitor receive the metric, and no other. -/
theorem judgeBy_monitors (e : Engine) (now : Instant) (m : Metric) (id other : Int64) :
    (e.judgeBy now m id).2.monitors[other]? =
      if id = other then (e.monitors[other]?).map fun u => u.receive m else e.monitors[other]? := by
  have idle (refused : e.acceptedBy m id = false) (u : Monitor) (found : e.monitors[id]? = some u) :
      u.receive m = u := by
    rw [acceptedBy, found, Option.any_some] at refused
    rw [Monitor.receive, refused]
    rfl
  cases accepted : e.acceptedBy m id with
  | true =>
    obtain ⟨u, found, accepts⟩ := acceptedBy_iff.mp accepted
    rw [judgeBy_of_accepts found accepts, Std.ExtTreeMap.getElem?_insert]
    by_cases own : id = other
    · subst own
      simp [found, Monitor.receive, accepts]
    · simp [own]
  | false =>
    rw [judgeBy_of_not_accepted accepted]
    by_cases own : id = other
    · subst own
      cases found : e.monitors[id]? with
      | none => simp
      | some u => simp [idle accepted u found]
    · rw [if_neg own]

/-! ## Some monitors -/

theorem acceptedBy_judgeBy (e : Engine) (now : Instant) (m n : Metric) (id other : Int64) :
    (e.judgeBy now m id).2.acceptedBy n other = e.acceptedBy n other := by
  rw [acceptedBy, judgeBy_monitors, acceptedBy]
  split
  · rw [Option.any_map]
    congr 1
    funext u
    rw [Monitor.receive]
    split
    · exact u.accepts_check m n
    · rfl
  · rfl

/-- Monitors that do not accept a metric can be left out. -/
theorem judgeByAll_filter (e : Engine) (now : Instant) (m : Metric) (ids : List Int64) :
    e.judgeByAll now m (ids.filter (e.acceptedBy m)) = e.judgeByAll now m ids := by
  induction ids generalizing e with
  | nil => rfl
  | cons id ids inductionHypothesis =>
    have after : (e.judgeBy now m id).2.acceptedBy m = e.acceptedBy m :=
      funext (e.acceptedBy_judgeBy now m m id)
    rw [judgeByAll_cons, ← inductionHypothesis, after]
    cases accepted : e.acceptedBy m id with
    | true => rw [List.filter_cons_of_pos accepted, judgeByAll_cons]
    | false =>
      rw [List.filter_cons_of_neg (by simp [accepted]), judgeBy_of_not_accepted accepted]
      rfl

theorem judgeByAll_monitors (e : Engine) (now : Instant) (m : Metric) {ids : List Int64}
    (distinct : ids.Nodup) (other : Int64) :
    (e.judgeByAll now m ids).2.monitors[other]? =
      if other ∈ ids then (e.monitors[other]?).map fun u => u.receive m
      else e.monitors[other]? := by
  induction ids generalizing e with
  | nil => rfl
  | cons id ids inductionHypothesis =>
    rw [List.nodup_cons] at distinct
    rw [judgeByAll_cons, inductionHypothesis _ distinct.2, judgeBy_monitors]
    by_cases own : id = other
    · subst own
      simp [distinct.1]
    · simp [own, Ne.symm own]

/-! ## The index -/

/-- The index lists the monitors that accept a metric, and puts them in ascending order. -/
theorem candidates_filter (formed : WellFormed e) (m : Metric) :
    (e.candidates m.name).filter (e.acceptedBy m) = e.acceptors m := by
  have ascending : ((e.candidates m.name).filter (e.acceptedBy m)).Pairwise (· < ·) :=
    (formed.ascending m.name).filter _
  have sameMembers (id : Int64) :
      id ∈ (e.candidates m.name).filter (e.acceptedBy m) ↔ id ∈ e.acceptors m := by
    rw [List.mem_filter, formed.candidates, acceptedBy_iff, mem_acceptors_iff]
    constructor
    · exact fun both => both.2
    · rintro ⟨u, found, accepted⟩
      have name : m.name = u.strategy.metric := by
        rw [Monitor.accepts, Bool.and_eq_true, beq_iff_eq] at accepted
        exact accepted.1
      exact ⟨⟨u, found, name.symm⟩, u, found, accepted⟩
  have perm := (List.perm_ext_iff_of_nodup (ascending.imp Int64.ne_of_lt)
    ((e.acceptors_ascending m).imp Int64.ne_of_lt)).mpr sameMembers
  exact perm.eq_of_pairwise (fun a b _ _ below above => absurd above (Int64.lt_asymm below))
    ascending (e.acceptors_ascending m)

theorem judgeMetric_eq_scanning (formed : WellFormed e) (now : Instant) (m : Metric) :
    e.judgeMetric now m = e.judgeMetricScanning now m := by
  let started : Engine := { e with latest := max e.latest m.timestamp }
  have same : started.judgeByAll now m (e.candidates m.name) =
      started.judgeByAll now m (e.acceptors m) := by
    rw [← candidates_filter formed m]
    exact (started.judgeByAll_filter now m (e.candidates m.name)).symm
  simp only [judgeMetric, judgeMetricScanning]
  exact congrArg (fun judged : List Event × Engine => (judged.1,
    { judged.2 with composites := judged.2.composites.map fun _ (c : Composite) => c.feed m })) same

theorem judge_eq_scanning (formed : WellFormed e) (now : Instant) (metrics : List Metric) :
    e.judge now metrics = e.judgeScanning now metrics := by
  induction metrics generalizing e with
  | nil => rfl
  | cons m metrics inductionHypothesis =>
    have after : WellFormed (e.judgeMetric now m).2 := wellFormed_perform formed (.judge [m])
    rw [judge_cons, inductionHypothesis after, judgeMetric_eq_scanning formed]
    rfl

/-! ## What a batch does to a monitor -/

theorem judgeMetric_monitors (formed : WellFormed e) (now : Instant) (m : Metric) (id : Int64) :
    (e.judgeMetric now m).2.monitors[id]? = (e.monitors[id]?).map fun u => u.receive m := by
  have distinct : (e.acceptors m).Nodup := (e.acceptors_ascending m).imp Int64.ne_of_lt
  rw [judgeMetric_eq_scanning formed]
  refine (judgeByAll_monitors _ now m distinct id).trans ?_
  split
  · rfl
  · rename_i apart
    change e.monitors[id]? = _
    cases found : e.monitors[id]? with
    | none => rfl
    | some u =>
      have refused : ¬ u.accepts m = true := fun accepted =>
        apart (mem_acceptors_iff.mpr ⟨u, found, accepted⟩)
      rw [Option.map_some, Monitor.receive, if_neg refused]

theorem judge_monitors (formed : WellFormed e) (now : Instant) (metrics : List Metric)
    (id : Int64) :
    (e.judge now metrics).2.monitors[id]? =
      (e.monitors[id]?).map fun u => metrics.foldl Monitor.receive u := by
  induction metrics generalizing e with
  | nil => exact Option.map_id'.symm
  | cons m metrics inductionHypothesis =>
    have after : WellFormed (e.judgeMetric now m).2 := wellFormed_perform formed (.judge [m])
    rw [judge_cons, inductionHypothesis after, judgeMetric_monitors formed, Option.map_map]
    rfl

/-- After any run, judging a batch reports the same events in the same order and leads to the same
engine as asking every monitor at work, in ascending order of the ids, whether it accepts the
metric. The index lists exactly the monitors of a metric name, each once and in that order, and
every monitor checks exactly the metrics that it accepts, each once. -/
theorem judge_eq_judgeScanning (policy : DebouncePolicy) (calls : List (Instant × Call))
    (now : Instant) (metrics : List Metric) :
    let e := (run { policy := policy } calls).2
    e.judge now metrics = e.judgeScanning now metrics ∧
    (∀ m : Metric, (e.acceptors m).Pairwise (· < ·) ∧
      ∀ id : Int64, id ∈ e.acceptors m ↔
        ∃ u : Monitor, e.monitors[id]? = some u ∧ u.accepts m = true) ∧
    (∀ name : String, (e.candidates name).Pairwise (· < ·) ∧
      ∀ id : Int64, id ∈ e.candidates name ↔
        ∃ u : Monitor, e.monitors[id]? = some u ∧ u.strategy.metric = name) ∧
    ∀ id : Int64, (e.judge now metrics).2.monitors[id]? =
      (e.monitors[id]?).map fun (u : Monitor) =>
        (metrics.filter u.accepts).foldl (fun u m => (u.check m).2) u := by
  intro e
  have formed : WellFormed e := wellFormed_run (wellFormed_new policy) calls
  refine ⟨judge_eq_scanning formed now metrics, fun m => ⟨e.acceptors_ascending m, ?_⟩,
    fun name => ⟨formed.ascending name, formed.candidates name⟩, fun id => ?_⟩
  · exact fun id => mem_acceptors_iff
  · rw [judge_monitors formed]
    exact congrArg (Option.map · _) (funext fun u => u.foldl_receive metrics)

end Engine

end AlertEngine
