import Mathlib
import AlertEngine.Proofs.MonitorInvariants
import AlertEngine.Service

/-! # Forgetting silent series

A tick forgets the windows whose newest sample is older than a time that is calculated from the
clock of the engine and the idle time of the settings. The calculation is in 64 bits with sign,
while the idle time has none.

* `SlidingWindow.Running`: windows with samples, the newest first; every window of a run is one.
* `Engine.latest_run`: the clock of the engine is the latest time of a metric so far.
* `SlidingWindow.isSilent`, `Engine.Forgets`: the windows that are to go, and an engine without
  them.
* `Service.tick_forgets_silent`: what a tick forgets, for every idle time.
* `Service.tick_forgets_newest`: an idle time from 2^63 on counts as negative.
-/

namespace AlertEngine

namespace SlidingWindow

/-! ## Windows with samples -/

structure Running (w : SlidingWindow) : Prop where
  limit : 0 < w.limit
  present : w.samples ≠ []
  descending : w.samples.Pairwise fun newer older => older.timestamp ≤ newer.timestamp

/-- Whether all samples of a window are more than some seconds older than a clock. -/
def isSilent (w : SlidingWindow) (clock : Int64) (idle : Int) : Bool :=
  w.samples.all fun s => idle < clock.toInt - s.timestamp.toInt

variable {w after : SlidingWindow} {s : Sample}

theorem running_of_push (limit : 0 < w.limit)
    (descending : w.samples.Pairwise fun newer older => older.timestamp ≤ newer.timestamp)
    (pushed : w.push? s = some after) : after.Running := by
  unfold push? at pushed
  split at pushed
  · cases pushed
  · rename_i timely
    cases pushed
    obtain ⟨rest, limited⟩ := Nat.exists_eq_succ_of_ne_zero (Nat.ne_of_gt limit)
    refine ⟨limit, by simp [limited], List.Pairwise.take ?_⟩
    rw [List.pairwise_cons]
    refine ⟨fun older member => ?_, descending⟩
    rw [isLate, newest?] at timely
    cases samples : w.samples with
    | nil => simp [samples] at member
    | cons newest others =>
      simp only [samples, List.head?_cons, decide_eq_true_eq, Int64.not_lt] at timely
      rw [samples, List.pairwise_cons] at descending
      rw [samples, List.mem_cons] at member
      rcases member with rfl | member
      · exact timely
      · exact Int64.le_trans (descending.1 older member) timely

theorem Running.isActiveSince (running : w.Running) {clock cutoff : Int64} {idle : Int}
    (same : ∀ timestamp : Int64,
      timestamp.toInt < cutoff.toInt ↔ idle < clock.toInt - timestamp.toInt) :
    w.isActiveSince cutoff = !w.isSilent clock idle := by
  cases samples : w.samples with
  | nil => exact absurd samples running.present
  | cons newest others =>
    have descending := running.descending
    rw [samples, List.pairwise_cons] at descending
    rw [SlidingWindow.isActiveSince, newest?, isSilent, samples, List.head?_cons, Bool.eq_iff_iff]
    simp only [decide_eq_true_eq, Bool.not_eq_true', List.all_eq_false, Int64.le_iff_toInt_le]
    constructor
    · intro active
      refine ⟨newest, List.mem_cons_self, fun silent => ?_⟩
      have before := (same newest.timestamp).mpr silent
      omega
    · rintro ⟨recent, member, fresh⟩
      have inside : ¬ recent.timestamp.toInt < cutoff.toInt := fun before =>
        fresh ((same recent.timestamp).mp before)
      rcases List.mem_cons.mp member with rfl | member
      · omega
      · have order := Int64.le_iff_toInt_le.mp (descending.1 recent member)
        omega

end SlidingWindow

namespace Monitor

structure Running (u : Monitor) : Prop where
  limit : 0 < u.rule.limit
  windows : ∀ (series : String) (w : SlidingWindow), u.windows[series]? = some w → w.Running

theorem Running.checkSeries {u : Monitor} (running : u.Running) (series : String) (m : Metric) :
    (u.checkSeries series m).2.Running := by
  unfold Monitor.checkSeries
  split
  · exact running
  · split
    · exact running
    · rename_i value _ after pushed
      refine ⟨running.limit, fun other w found => ?_⟩
      rw [Std.ExtTreeMap.getElem?_insert] at found
      split at found
      · cases found
        rw [window] at pushed
        cases earlier : u.windows[series]? with
        | none =>
          rw [earlier] at pushed
          exact SlidingWindow.running_of_push running.limit .nil pushed
        | some v =>
          have before := running.windows series v earlier
          rw [earlier] at pushed
          exact SlidingWindow.running_of_push before.limit before.descending pushed
      · exact running.windows other w found

theorem lasting_running : Lasting (fun _ => True) Running where
  fresh made := by
    obtain ⟨r, compiled, rfl⟩ := eq_of_ofStrategy made
    exact ⟨Rule.limit_pos compiled, fun series w found => by simp at found⟩
  check _ running := running.checkSeries _ _
  evictIdle cutoff running :=
    ⟨running.limit, fun series w found => by
      rw [windows_evictIdle] at found
      exact running.windows series w (Option.eq_some_of_filter_eq_some found)⟩

end Monitor

namespace Engine

variable {e : Engine} {now : Instant}

theorem running_run (policy : DebouncePolicy) (calls : List (Instant × Call)) :
    (run { policy := policy } calls).2.AllMonitors Monitor.Running :=
  allMonitors_run Monitor.lasting_running policy fun call _ => by
    cases call.2 with
    | judge metrics => exact fun _ _ => trivial
    | setStrategies strategies => trivial
    | setComposites strategies => trivial
    | scan => trivial
    | evictIdle cutoff => trivial

/-! ## The clock -/

def Call.timestamps : Call → List Int64
  | .judge metrics => metrics.map Metric.timestamp
  | _ => []

@[simp] theorem judgeBy_latest (m : Metric) (id : Int64) :
    (e.judgeBy now m id).2.latest = e.latest := by
  rcases judgeBy_cases e now m id with same | ⟨u, _, advanced | ⟨judgment, _, observed⟩⟩
  · rw [same]
  · rw [advanced]
  · rw [observed]

@[simp] theorem judgeByAll_latest (m : Metric) (ids : List Int64) :
    (e.judgeByAll now m ids).2.latest = e.latest := by
  induction ids generalizing e with
  | nil => rfl
  | cons id ids inductionHypothesis => rw [judgeByAll_cons, inductionHypothesis, judgeBy_latest]

theorem judge_latest (metrics : List Metric) :
    (e.judge now metrics).2.latest = (metrics.map Metric.timestamp).foldl max e.latest := by
  induction metrics generalizing e with
  | nil => rfl
  | cons m metrics inductionHypothesis =>
    rw [judge_cons, inductionHypothesis, List.map_cons, List.foldl_cons]
    simp [judgeMetric]

theorem perform_latest (call : Call) :
    (e.perform now call).2.latest = call.timestamps.foldl max e.latest := by
  cases call with
  | judge metrics => exact judge_latest metrics
  | setStrategies strategies => rfl
  | setComposites strategies => rfl
  | scan => rfl
  | evictIdle cutoff => rfl

/-- The clock of the engine is the latest time of a metric in a run, and never below its start. -/
theorem latest_run (calls : List (Instant × Call)) :
    (e.run calls).2.latest =
      (calls.flatMap fun call => call.2.timestamps).foldl max e.latest := by
  induction calls using List.reverseRecOn with
  | nil => rfl
  | append_singleton calls call inductionHypothesis =>
    rw [run_snoc, perform_latest, inductionHypothesis, List.flatMap_append, List.foldl_append,
      List.flatMap_singleton]

theorem le_foldl_max (start : Int64) (timestamps : List Int64) :
    start ≤ timestamps.foldl max start := by
  induction timestamps using List.reverseRecOn with
  | nil => exact Int64.le_refl start
  | append_singleton timestamps timestamp inductionHypothesis =>
    rw [List.foldl_append]
    refine Int64.le_trans inductionHypothesis ?_
    show _ ≤ if _ then _ else _
    split
    · assumption
    · exact Int64.le_refl _

/-! ## What is forgotten -/

/-- An engine with the windows of another one that are not of some sort, and no others. -/
structure Forgets (silent : SlidingWindow → Bool) (e after : Engine) : Prop where
  window : ∀ series id, (after.holdings series).window id =
    ((e.holdings series).window id).filter fun w => !silent w
  ruleWindow : ∀ series id place, (after.holdings series).ruleWindow id place =
    ((e.holdings series).ruleWindow id place).filter fun w => !silent w

theorem holdings_scan_window (series : String) (id : Int64) :
    ((e.scan now).2.holdings series).window id = (e.holdings series).window id := rfl

theorem holdings_scan_ruleWindow (series : String) (id : Int64) (place : Nat) :
    ((e.scan now).2.holdings series).ruleWindow id place =
      (e.holdings series).ruleWindow id place := by
  simp only [holdings, scan, Std.ExtTreeMap.getElem?_map]
  cases e.composites[id]? with
  | none => rfl
  | some c => rfl

theorem Forgets.of_scan {silent : SlidingWindow → Bool} {after : Engine}
    (forgets : Forgets silent (e.scan now).2 after) : Forgets silent e after where
  window series id := by rw [forgets.window, holdings_scan_window]
  ruleWindow series id place := by rw [forgets.ruleWindow, holdings_scan_ruleWindow]

theorem forgets_nothing (e : Engine) : Forgets (fun _ => false) e e where
  window series id := by cases ((e.holdings series).window id) <;> rfl
  ruleWindow series id place := by cases ((e.holdings series).ruleWindow id place) <;> rfl

/-- An eviction forgets the silent windows, if the given time stands for the idle time. -/
theorem forgets_evictIdle (running : e.AllMonitors Monitor.Running) {clock cutoff : Int64}
    {idle : Int}
    (same : ∀ timestamp : Int64,
      timestamp.toInt < cutoff.toInt ↔ idle < clock.toInt - timestamp.toInt) :
    Forgets (fun w => w.isSilent clock idle) e (e.evictIdle cutoff) := by
  have windows {u : Monitor} (runs : u.Running) (series : String) :
      (u.evictIdle cutoff).windows[series]? =
        (u.windows[series]?).filter fun w => !w.isSilent clock idle := by
    rw [Monitor.windows_evictIdle]
    cases found : u.windows[series]? with
    | none => rfl
    | some w =>
      rw [Option.filter_some, Option.filter_some, (runs.windows series w found).isActiveSince same]
  constructor
  case window =>
    intro series id
    simp only [holdings, Engine.evictIdle, Std.ExtTreeMap.getElem?_map]
    cases found : e.monitors[id]? with
    | none => rfl
    | some u => exact windows (running.monitors id u found) series
  case ruleWindow =>
    intro series id place
    simp only [holdings, Engine.evictIdle, Std.ExtTreeMap.getElem?_map]
    cases found : e.composites[id]? with
    | none => rfl
    | some c =>
      simp only [Option.map_some, Option.bind_some, Composite.ruleWindow?, Composite.evictIdle,
        List.getElem?_map]
      cases atPlace : c.subs[place]? with
      | none => rfl
      | some sub =>
        exact windows (running.rules id c found sub (List.mem_of_getElem? atPlace)) series

end Engine

namespace Service

/-! ## The time of an eviction -/

theorem toInt_clamp64 (n : Int) :
    (clamp64 n).toInt = max Int64.minValue.toInt (min Int64.maxValue.toInt n) := by
  have low : Int64.minValue.toInt = -2 ^ 63 := by decide
  have high : Int64.maxValue.toInt = 2 ^ 63 - 1 := by decide
  rw [clamp64, low, high, Int64.toInt_ofInt_of_le]
  · omega
  · omega

theorem toInt_toInt64 (idle : UInt64) :
    idle.toInt64.toInt =
      if idle.toNat < 2 ^ 63 then (idle.toNat : Int) else idle.toNat - 2 ^ 64 := by
  show idle.toBitVec.toInt = _
  rw [BitVec.toInt_eq_toNat_cond, UInt64.toNat_toBitVec]
  split <;> split <;> omega

/-- The time of an eviction, in exact numbers. An idle time from 2^63 on counts as negative. -/
theorem toInt_cutoff {clock : Int64} (started : 0 ≤ clock) (idle : UInt64) :
    (cutoff clock idle).toInt =
      if idle.toNat < 2 ^ 63 then clock.toInt - idle.toNat
      else min (clock.toInt - (idle.toNat - 2 ^ 64)) (2 ^ 63 - 1) := by
  have low : Int64.minValue.toInt = -2 ^ 63 := by decide
  have high : Int64.maxValue.toInt = 2 ^ 63 - 1 := by decide
  have positive : 0 ≤ clock.toInt := Int64.le_iff_toInt_le.mp started
  have bounded : clock.toInt < 2 ^ 63 := clock.toInt_lt
  have size : idle.toNat < 2 ^ 64 := idle.toNat_lt
  rw [cutoff, toInt_clamp64, toInt_toInt64, low, high]
  split <;> omega

/-! ## What a tick forgets -/

theorem tick_engine (s : Service) (now : Instant) :
    (s.tick now).2.engine =
      if s.settings.windowIdle = 0 then (s.engine.scan now).2
      else (s.engine.scan now).2.evictIdle (cutoff s.engine.latest s.settings.windowIdle) := by
  rfl

theorem tick_forgets (settings : Settings) {e : Engine} (running : e.AllMonitors Monitor.Running)
    (now : Instant) {idle : Int} (used : settings.windowIdle ≠ 0)
    (same : ∀ timestamp : Int64,
      timestamp.toInt < (cutoff e.latest settings.windowIdle).toInt ↔
        idle < e.latest.toInt - timestamp.toInt) :
    e.Forgets (fun w => w.isSilent e.latest idle)
      (({ settings := settings, engine := e } : Service).tick now).2.engine := by
  rw [tick_engine, if_neg used]
  exact (Engine.forgets_evictIdle (running.scan now) same).of_scan

/-- After any run the clock is the latest time of a metric, or zero. A tick forgets the windows
whose samples are all more than the idle time older than the clock, and leaves the others as they
are; it forgets none if the idle time is zero. So it is for idle times below 2^63. A longer one is
taken for the negative number with the same 64 bits: the windows that are not newer than the clock
by that number are forgotten. -/
theorem tick_forgets_silent (settings : Settings) (policy : DebouncePolicy)
    (calls : List (Instant × Engine.Call)) (now : Instant) :
    let e := (Engine.run { policy := policy } calls).2
    let after := (({ settings := settings, engine := e } : Service).tick now).2.engine
    let idle := settings.windowIdle.toNat
    e.latest = (calls.flatMap fun call => call.2.timestamps).foldl max 0 ∧
    (idle = 0 → e.Forgets (fun _ => false) after) ∧
    (0 < idle → idle < 2 ^ 63 → e.Forgets (fun w => w.isSilent e.latest idle) after) ∧
    (2 ^ 63 ≤ idle →
      e.Forgets
        (fun w => w.isSilent e.latest (max (idle - 2 ^ 64) (e.latest.toInt - (2 ^ 63 - 1))))
        after) := by
  intro e after idle
  have latest : e.latest = (calls.flatMap fun call => call.2.timestamps).foldl max 0 :=
    Engine.latest_run calls
  have started : 0 ≤ e.latest := latest ▸ Engine.le_foldl_max 0 _
  have running := Engine.running_run policy calls
  have used : settings.windowIdle = 0 ↔ idle = 0 := UInt64.toNat_inj.symm
  have exact := toInt_cutoff started settings.windowIdle
  refine ⟨latest, fun never => ?_, fun positive short => ?_, fun long => ?_⟩
  · show e.Forgets _ (Service.tick _ now).2.engine
    rw [tick_engine, if_pos (used.mpr never)]
    exact (Engine.forgets_nothing _).of_scan
  · rw [if_pos short] at exact
    refine tick_forgets settings (e := e) running now (fun zero => ?_) fun timestamp => ?_
    · have := used.mp zero
      omega
    · rw [exact]
      omega
  · rw [if_neg (Nat.not_lt.mpr long)] at exact
    refine tick_forgets settings (e := e) running now (fun zero => ?_) fun timestamp => ?_
    · have := used.mp zero
      omega
    · rw [exact]
      omega

/-- A series that has been silent for 4000 seconds is kept without an idle time, and forgotten after
an hour. An idle time of 2^64 - 1 counts as one second less than nothing. -/
theorem tick_after_an_hour :
    let s : Strategy := { id := 1, metric := "cpu", func := "all(#2)", op := ">", rightValue := 90 }
    let cpu : Metric := { name := "cpu", value := 95, timestamp := 1000 }
    let mem : Metric := { name := "mem", value := 40, timestamp := 5000 }
    let calls : List (Instant × Engine.Call) :=
      [(.epoch, .setStrategies [s]), (.epoch, .judge [cpu]), (.epoch, .judge [mem])]
    let e := (Engine.run {} calls).2
    let after (idle : UInt64) : Engine :=
      (({ settings := { windowIdle := idle }, engine := e } : Service).tick .epoch).2.engine
    let window (e : Engine) : Option SlidingWindow := (e.holdings cpu.identity).window 1
    window e = some ⟨2, [⟨95, 1000⟩]⟩ ∧ window (after 0) = window e ∧
      window (after 3600) = none ∧ window (after 18446744073709551615) = none := by
  intro s cpu mem calls e after window
  have held : window e = some ⟨2, [⟨95, 1000⟩]⟩ := by decide +kernel
  have clock : e.latest = 5000 := by decide +kernel
  have forgets (idle : UInt64) := tick_forgets_silent { windowIdle := idle } {} calls .epoch
  have reached : (Engine.run {} calls).2 = e := rfl
  simp only [reached] at forgets
  -- From here on it does not matter how the engine has come about.
  clear_value e
  have left {silent : SlidingWindow → Bool} {idle : UInt64}
      (forgotten : e.Forgets silent (after idle)) :
      window (after idle) = (window e).filter fun w => !silent w :=
    forgotten.window cpu.identity 1
  refine ⟨held, ?_, ?_, ?_⟩
  · rw [left ((forgets 0).2.1 rfl), held]
    rfl
  · rw [left ((forgets 3600).2.2.1 (by decide) (by decide)), held, clock]
    decide +kernel
  · rw [left ((forgets 18446744073709551615).2.2.2 (by decide)), held, clock]
    decide +kernel

/-- Under an idle time of 2^64 - 1 a tick forgets a sample that is as new as the clock. -/
theorem tick_forgets_newest :
    let s : Strategy := { id := 1, metric := "cpu", func := "all(#2)", op := ">", rightValue := 90 }
    let cpu : Metric := { name := "cpu", value := 95, timestamp := 1000 }
    let calls : List (Instant × Engine.Call) :=
      [(.epoch, .setStrategies [s]), (.epoch, .judge [cpu])]
    let e := (Engine.run {} calls).2
    let idle : UInt64 := 18446744073709551615
    let after :=
      (({ settings := { windowIdle := idle }, engine := e } : Service).tick .epoch).2.engine
    e.latest = 1000 ∧ (⟨2, [⟨95, 1000⟩]⟩ : SlidingWindow).isSilent e.latest idle.toNat = false ∧
      (e.holdings cpu.identity).window 1 = some ⟨2, [⟨95, 1000⟩]⟩ ∧
      (after.holdings cpu.identity).window 1 = none := by
  decide +kernel

end Service

end AlertEngine
