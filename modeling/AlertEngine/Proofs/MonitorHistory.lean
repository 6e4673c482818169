import AlertEngine.Monitor
import AlertEngine.Proofs.Shared
import AlertEngine.Proofs.WindowPushes

/-! # Monitors and the history of their series

A monitor keeps a window of bounded length for every series. This module proves that it judges as
if it remembered every sample that it has taken in since the series was last forgotten.

* `Rule.limit_pos`: a window that can be configured holds at least one sample.
* `Monitor.Call`, `Monitor.run`: checks and evictions, one after the other.
* `Monitor.history`: the samples taken in of one series, by the rule of late samples and evictions
  alone, without windows.
* `Monitor.held`: the window that stands for a history; `remembers_run` is the simulation.
* `Monitor.run_refines_history`: what a check and an eviction do after any run, in terms of the
  histories.
-/

namespace AlertEngine

/-! ## Limits -/

namespace WindowFunction

theorem checkedSize_bounds {word : List Char} {size : Nat} (accepted : checkedSize word = .ok size) :
    1 ≤ size ∧ size ≤ 100000 := by
  unfold checkedSize maxSize at accepted
  obtain ⟨n, _, bounded⟩ := bind_eq_ok_iff.mp accepted
  split at bounded
  · cases bounded
    omega
  · cases bounded

/-- The size of a window function that can be read is between 1 and 100000. -/
theorem size_of_parse {text : String} {f : WindowFunction} (accepted : parse text = .ok f) :
    1 ≤ f.size ∧ f.size ≤ 100000 := by
  unfold parse at accepted
  split at accepted
  · cases accepted
  · obtain ⟨calculation, _, sized⟩ := bind_eq_ok_iff.mp accepted
    split at sized
    · obtain ⟨size, bounded, built⟩ := bind_eq_ok_iff.mp sized
      split at built
      · cases built
      · cases built
        exact checkedSize_bounds bounded
    · obtain ⟨size, bounded, built⟩ := bind_eq_ok_iff.mp sized
      split at built
      · obtain ⟨need, _, built⟩ := bind_eq_ok_iff.mp built
        cases pure_eq_ok_iff.mp built
        exact checkedSize_bounds bounded
      · cases built
    · cases sized

theorem samples_pos {f : WindowFunction} (positive : 1 ≤ f.size) : 0 < f.samples := by
  unfold samples Calculation.samplesFor Calculation.maxSamples
  have size : UInt64.size = 18446744073709551616 := rfl
  split <;> omega

end WindowFunction

namespace Rule

theorem parse_of_compile {s : Strategy} {r : Rule} (accepted : compile s = .ok r) :
    WindowFunction.parse s.func = .ok r.function := by
  obtain ⟨transform, _, accepted⟩ := bind_eq_ok_iff.mp accepted
  obtain ⟨function, read, accepted⟩ := bind_eq_ok_iff.mp accepted
  obtain ⟨comparison, _, accepted⟩ := bind_eq_ok_iff.mp accepted
  obtain ⟨filters, _, accepted⟩ := bind_eq_ok_iff.mp accepted
  rw [← pure_eq_ok_iff.mp accepted]
  exact read

theorem limit_pos {s : Strategy} {r : Rule} (accepted : compile s = .ok r) : 0 < r.limit :=
  WindowFunction.samples_pos (WindowFunction.size_of_parse (parse_of_compile accepted)).1

end Rule

namespace Monitor

/-! ## Histories -/

inductive Call where
  | check (m : Metric)
  | evictIdle (cutoff : Int64)

def perform (u : Monitor) : Call → Monitor
  | .check m => (u.check m).2
  | .evictIdle cutoff => u.evictIdle cutoff

def run (u : Monitor) (calls : List Call) : Monitor := calls.foldl perform u

def comesLate (taken : List Sample) (timestamp : Int64) : Bool :=
  match taken.head? with
  | some newest => timestamp < newest.timestamp
  | none => false

def isIdle (taken : List Sample) (cutoff : Int64) : Bool :=
  match taken.head? with
  | some newest => newest.timestamp < cutoff
  | none => false

/-- The history of a series after a call. A sample is taken in if its value can be found and it does
not come late; an eviction forgets an idle history. -/
def remember (t : Transform) (series : String) (taken : List Sample) : Call → List Sample
  | .check m =>
    if m.identity = series then
      match t.apply m with
      | .ok value => if comesLate taken m.timestamp then taken else ⟨value, m.timestamp⟩ :: taken
      | .error _ => taken
    else taken
  | .evictIdle cutoff => if isIdle taken cutoff then [] else taken

/-- The samples of a series that calls have taken in since it was last forgotten, the newest
first. -/
def history (t : Transform) (series : String) (calls : List Call) : List Sample :=
  calls.foldl (remember t series) []

def verdict (r : Rule) (taken : List Sample) (value : Float) : Except JudgeError Judgment :=
  if taken.length < r.limit then .ok ⟨.ignored, value⟩
  else
    match r.evaluate ((taken.take r.limit).map Sample.value) with
    | .ok outcome => .ok ⟨if outcome.triggered then .problem else .ok, outcome.value⟩
    | .error fault => .error (.calculation fault)

def held (limit : Nat) (taken : List Sample) : Option SlidingWindow :=
  if taken = [] then none else some ⟨limit, taken.take limit⟩

/-! ## One call -/

variable {u : Monitor} {taken : List Sample}

theorem isLate_take {limit : Nat} (positive : 0 < limit) (taken : List Sample)
    (timestamp : Int64) :
    (⟨limit, taken.take limit⟩ : SlidingWindow).isLate timestamp = comesLate taken timestamp := by
  rw [SlidingWindow.isLate, SlidingWindow.newest?_take positive]
  rfl

theorem isActiveSince_take {limit : Nat} (positive : 0 < limit) (present : taken ≠ [])
    (cutoff : Int64) :
    (⟨limit, taken.take limit⟩ : SlidingWindow).isActiveSince cutoff = !isIdle taken cutoff := by
  cases taken with
  | nil => exact absurd rfl present
  | cons newest older =>
    rw [SlidingWindow.isActiveSince, SlidingWindow.newest?_take positive, isIdle]
    simp only [List.head?_cons]
    rw [← decide_not, decide_eq_decide, Int64.not_lt]

/-- The window of a series, present or not, holds the newest samples of its history. -/
theorem window_of_held {r : Rule} {series : String} (rule : u.rule = r)
    (holds : u.windows[series]? = held r.limit taken) :
    u.window series = ⟨r.limit, taken.take r.limit⟩ := by
  rw [window, holds, held, rule]
  split
  · rename_i empty
    rw [empty, List.take_nil]
    rfl
  · rfl

theorem judge_take (r : Rule) (taken : List Sample) (value : Float) :
    (if (⟨r.limit, taken.take r.limit⟩ : SlidingWindow).isFull then
        judgeFull r ⟨r.limit, taken.take r.limit⟩
      else .ok ⟨.ignored, value⟩) = verdict r taken value := by
  have full : (⟨r.limit, taken.take r.limit⟩ : SlidingWindow).isFull = true ↔
      ¬ taken.length < r.limit := by
    simp only [SlidingWindow.isFull, List.length_take, decide_eq_true_eq]
    omega
  rw [verdict]
  by_cases enough : taken.length < r.limit
  · rw [if_pos enough, if_neg (fun isFull => full.mp isFull enough)]
  · rw [if_neg enough, if_pos (full.mpr enough)]
    rfl

/-- A check, in terms of the history that its window stands for. -/
theorem check_of_held {r : Rule} (rule : u.rule = r) (positive : 0 < r.limit) {m : Metric}
    (holds : u.windows[m.identity]? = held r.limit taken) :
    u.check m =
      match r.transform.apply m with
      | .error fault => (.error fault, u)
      | .ok value =>
        if comesLate taken m.timestamp then (.ok ⟨.ignored, value⟩, u)
        else
          let joined := ⟨value, m.timestamp⟩ :: taken
          (verdict r joined value,
            { u with
              windows := u.windows.insert m.identity ⟨r.limit, joined.take r.limit⟩ }) := by
  rw [check, checkSeries, window_of_held rule holds, rule]
  cases r.transform.apply m with
  | error fault => rfl
  | ok value =>
    simp only [SlidingWindow.push?, isLate_take positive]
    cases comesLate taken m.timestamp with
    | true => rfl
    | false =>
      simp only [Bool.false_eq_true, if_false, SlidingWindow.take_cons_take, judge_take]

/-! ## Runs -/

theorem history_snoc (t : Transform) (series : String) (calls : List Call) (call : Call) :
    history t series (calls ++ [call]) = remember t series (history t series calls) call := by
  rw [history, List.foldl_append]
  rfl

theorem run_snoc (u : Monitor) (calls : List Call) (call : Call) :
    u.run (calls ++ [call]) = (u.run calls).perform call := by
  rw [run, List.foldl_append]
  rfl

/-- A monitor whose windows stand for the histories of some calls. -/
structure Remembers (u v : Monitor) (calls : List Call) : Prop where
  rule : v.rule = u.rule
  windows : ∀ series,
    v.windows[series]? = held u.rule.limit (history u.rule.transform series calls)

theorem held_cons (limit : Nat) (s : Sample) (taken : List Sample) :
    held limit (s :: taken) = some ⟨limit, (s :: taken).take limit⟩ := by
  rw [held, if_neg (List.cons_ne_nil s taken)]

theorem Remembers.check {v : Monitor} {calls : List Call} (remembers : Remembers u v calls)
    (positive : 0 < u.rule.limit) (m : Metric) :
    Remembers u (v.check m).2 (calls ++ [.check m]) := by
  have same := remembers.rule
  have checked := check_of_held same positive (remembers.windows m.identity)
  cases value : u.rule.transform.apply m with
  | error fault =>
    simp only [value] at checked
    rw [checked]
    refine ⟨same, fun series => ?_⟩
    rw [history_snoc, remember, value, ite_self]
    exact remembers.windows series
  | ok x =>
    cases late : comesLate (history u.rule.transform m.identity calls) m.timestamp with
    | true =>
      simp only [value, late, if_true] at checked
      rw [checked]
      refine ⟨same, fun series => ?_⟩
      rw [history_snoc, remember, value]
      by_cases own : m.identity = series
      · subst own
        simp only [if_true, late]
        exact remembers.windows m.identity
      · rw [if_neg own]
        exact remembers.windows series
    | false =>
      simp only [value, late, Bool.false_eq_true, if_false] at checked
      rw [checked]
      refine ⟨same, fun series => ?_⟩
      rw [history_snoc, remember, value]
      by_cases own : m.identity = series
      · subst own
        simp [late, held_cons]
      · rw [if_neg own, ← remembers.windows series]
        simp [Std.ExtTreeMap.getElem?_insert, own]

theorem windows_evictIdle (u : Monitor) (cutoff : Int64) (series : String) :
    (u.evictIdle cutoff).windows[series]? =
      (u.windows[series]?).filter fun w => w.isActiveSince cutoff := by
  rw [evictIdle, Std.ExtTreeMap.getElem?_filter']

theorem filter_held {limit : Nat} (positive : 0 < limit) (taken : List Sample) (cutoff : Int64) :
    (held limit taken).filter (fun w => w.isActiveSince cutoff) =
      if isIdle taken cutoff then none else held limit taken := by
  by_cases empty : taken = []
  · subst empty
    rfl
  · rw [held, if_neg empty, Option.filter_some, isActiveSince_take positive empty]
    cases isIdle taken cutoff <;> rfl

theorem Remembers.evictIdle {v : Monitor} {calls : List Call} (remembers : Remembers u v calls)
    (positive : 0 < u.rule.limit) (cutoff : Int64) :
    Remembers u (v.evictIdle cutoff) (calls ++ [.evictIdle cutoff]) where
  rule := remembers.rule
  windows series := by
    rw [windows_evictIdle, remembers.windows series, filter_held positive, history_snoc, remember]
    cases isIdle (history u.rule.transform series calls) cutoff <;> rfl

theorem remembers_run (positive : 0 < u.rule.limit) (fresh : u.windows = ∅) (calls : List Call) :
    Remembers u (u.run calls) calls := by
  induction calls using List.reverseRecOn with
  | nil => exact ⟨rfl, fun series => by simp [run, fresh, history, held]⟩
  | append_singleton calls call inductionHypothesis =>
    rw [run_snoc]
    cases call with
    | check m => exact inductionHypothesis.check positive m
    | evictIdle cutoff => exact inductionHypothesis.evictIdle positive cutoff

/-- A monitor that has just been made has the rule of its strategy and no windows. -/
theorem eq_of_ofStrategy {s : Strategy} (accepted : ofStrategy s = .ok u) :
    ∃ r, Rule.compile s = .ok r ∧ u = { strategy := s, rule := r } := by
  unfold ofStrategy at accepted
  cases compiled : Rule.compile s with
  | error fault =>
    rw [compiled] at accepted
    cases accepted
  | ok r =>
    rw [compiled] at accepted
    cases accepted
    exact ⟨r, rfl, rfl⟩

/-- After any run of a monitor, a check of a metric answers from the history of its series alone: it
passes on a fault of the transform; it ignores a sample that comes late; else the sample joins the
history, and the newest samples are judged once there are enough. An eviction forgets exactly the
series whose newest sample is older than the given time, and the windows hold the newest samples of
the histories. -/
theorem run_refines_history {s : Strategy} {u : Monitor} (accepted : ofStrategy s = .ok u)
    (calls : List Call) :
    let v := u.run calls
    let taken := fun series => history u.rule.transform series calls
    (∀ m, v.check m =
      match u.rule.transform.apply m with
      | .error fault => (.error fault, v)
      | .ok value =>
        if comesLate (taken m.identity) m.timestamp then (.ok ⟨.ignored, value⟩, v)
        else
          let joined := ⟨value, m.timestamp⟩ :: taken m.identity
          (verdict u.rule joined value,
            { v with
              windows := v.windows.insert m.identity
                ⟨u.rule.limit, joined.take u.rule.limit⟩ })) ∧
    (∀ cutoff series, (v.evictIdle cutoff).windows[series]? =
      if isIdle (taken series) cutoff then none else v.windows[series]?) ∧
    ∀ series, v.windows[series]? =
      if taken series = [] then none
      else some ⟨u.rule.limit, (taken series).take u.rule.limit⟩ := by
  intro v taken
  obtain ⟨r, compiled, made⟩ := eq_of_ofStrategy accepted
  have positive : 0 < u.rule.limit := by
    rw [made]
    exact Rule.limit_pos compiled
  have remembers : Remembers u v calls := remembers_run positive (by rw [made]) calls
  refine ⟨fun m => ?_, fun cutoff series => ?_, remembers.windows⟩
  · exact check_of_held remembers.rule positive (remembers.windows m.identity)
  · rw [windows_evictIdle, remembers.windows series, filter_held positive]

/-- A rule over two samples: after one sample a late one is ignored, an equally old one is judged,
and the series is forgotten when it falls silent. -/
theorem check_after_one_sample :
    let s : Strategy := { id := 1, metric := "cpu", func := "all(#2)", op := ">", rightValue := 1 }
    let r : Rule := ⟨.select "value", ⟨.all, 2, none⟩, .greater, 1, []⟩
    let u : Monitor := { strategy := s, rule := r }
    let cpu (timestamp : Int64) (value : Float) : Metric :=
      { name := "cpu", value := value, timestamp := timestamp }
    let v := u.run [.check (cpu 10 2)]
    ofStrategy s = .ok u ∧
      (v.check (cpu 5 3)).1 = .ok ⟨.ignored, 3⟩ ∧
      (v.check (cpu 10 3)).1 = .ok ⟨.problem, 3⟩ ∧
      (v.evictIdle 11).windows[(cpu 10 2).identity]? = none := by
  intro s r u cpu v
  have transform : Transform.parse "select(value)" = .ok r.transform := by decide +kernel
  have function : WindowFunction.parse "all(#2)" = .ok r.function := by decide +kernel
  have comparison : Comparison.ofText ">" = .ok r.comparison := by decide +kernel
  have filters : TagFilter.parse "" = .ok r.filters := by decide +kernel
  have accepted : ofStrategy s = .ok u := by
    simp only [ofStrategy, Rule.compile, s, transform, function, comparison, filters]
    rfl
  obtain ⟨checks, evictions, -⟩ := run_refines_history accepted [.check (cpu 10 2)]
  -- Time and value do not tell series apart.
  have taken (timestamp : Int64) (value : Float) :
      history r.transform (cpu timestamp value).identity [.check (cpu 10 2)] = [⟨2, 10⟩] := by
    have same : (cpu 10 2).identity = (cpu timestamp value).identity := by
      simp only [Metric.identity, Metric.identityText, cpu]
    simp only [history, List.foldl_cons, List.foldl_nil, remember, same, if_true]
    rfl
  refine ⟨accepted, ?_, ?_, ?_⟩
  · have late := checks (cpu 5 3)
    simp only [u, taken] at late
    rw [late]
    decide +kernel
  · have full := checks (cpu 10 3)
    simp only [u, taken] at full
    rw [full]
    decide +kernel
  · have forgotten := evictions 11 (cpu 10 2).identity
    simp only [u, taken] at forgotten
    rw [forgotten]
    rfl

end Monitor

end AlertEngine
