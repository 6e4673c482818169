import AlertEngine.Engine
import AlertEngine.Proofs.MonitorHistory

/-! # Bringing in a set of strategies

Strategies and composite strategies are brought in by the same rules: what is at work for an equal
strategy goes on, what cannot be read is passed over, and the last of several counts. This module
states the rules once, for any kind of strategies.

* `StrategyKind`: strategies, and what is put to work for them; `plain` and `composite`.
* `Sound`: everything is at work under the id of a strategy that can be read.
* `settle`, `place`, `reconcile`: the rules; those of the engine are two instances.
* `reconcile_getElem?`: what is at work under an id comes from the last strategy of that id that can
  be read.
* `mem_reconcile_iff`, `reconcile_cases`, `reconcile_reconcile`: what follows for one id, and for a
  set that comes twice.
-/

namespace AlertEngine

open Std (ExtTreeMap)

/-- A kind of strategies, with what is put to work for them. -/
structure StrategyKind (Declared Worker : Type) where
  id : Declared → Int64
  strategy : Worker → Declared
  make : Declared → Except RuleError Worker

namespace StrategyKind

variable {Declared Worker : Type} {kind : StrategyKind Declared Worker}
  {old next : ExtTreeMap Int64 Worker} {s : Declared} {strategies : List Declared} {w : Worker}
  {id : Int64}

/-! ## Readable strategies -/

def reads (kind : StrategyKind Declared Worker) (s : Declared) : Bool := (kind.make s).isOk

def lastReadable? (kind : StrategyKind Declared Worker) (strategies : List Declared)
    (id : Int64) : Option Declared :=
  (strategies.filter fun s => kind.id s == id && kind.reads s).getLast?

def Sound (kind : StrategyKind Declared Worker) (workers : ExtTreeMap Int64 Worker) : Prop :=
  ∀ id w, workers[id]? = some w →
    kind.id (kind.strategy w) = id ∧ kind.reads (kind.strategy w) = true

theorem reads_iff : kind.reads s = true ↔ ∃ w, kind.make s = .ok w := by
  unfold reads
  cases kind.make s with
  | error fault => simp [Except.isOk, Except.toBool]
  | ok w => simp [Except.isOk, Except.toBool]

theorem sound_empty : kind.Sound ∅ := by
  intro id w found
  rw [ExtTreeMap.getElem?_empty] at found
  cases found

theorem Sound.of_strategies (sound : kind.Sound old)
    (same : ∀ id : Int64, (next[id]?).map kind.strategy = (old[id]?).map kind.strategy) :
    kind.Sound next := by
  intro id w found
  obtain ⟨v, earlier, equal⟩ := exists_of_map_eq (same id) found
  rw [← equal]
  exact sound id v earlier

theorem mem_of_lastReadable? (last : kind.lastReadable? strategies id = some s) :
    s ∈ strategies ∧ kind.id s = id ∧ kind.reads s = true := by
  obtain ⟨member, chosen⟩ := List.mem_filter.mp (List.mem_of_getLast? last)
  rw [Bool.and_eq_true, beq_iff_eq] at chosen
  exact ⟨member, chosen⟩

theorem lastReadable?_isSome_iff :
    (kind.lastReadable? strategies id).isSome = true ↔
      ∃ s ∈ strategies, kind.id s = id ∧ kind.reads s = true := by
  rw [lastReadable?, List.getLast?_isSome, ne_eq, List.filter_eq_nil_iff]
  simp

/-! ## The rules -/

variable [BEq Declared]

def settle (kind : StrategyKind Declared Worker) (old current : Option Worker) (s : Declared) :
    Option Worker :=
  match old.filter fun w => kind.strategy w == s with
  | some kept => some kept
  | none =>
    match kind.make s with
    | .ok fresh => some fresh
    | .error _ => current

def place (kind : StrategyKind Declared Worker) (old next : ExtTreeMap Int64 Worker)
    (s : Declared) : ExtTreeMap Int64 Worker :=
  match (old[kind.id s]?).filter fun w => kind.strategy w == s with
  | some kept => next.insert (kind.id s) kept
  | none =>
    match kind.make s with
    | .ok fresh => next.insert (kind.id s) fresh
    | .error _ => next

def reconcile (kind : StrategyKind Declared Worker) (old : ExtTreeMap Int64 Worker)
    (strategies : List Declared) : ExtTreeMap Int64 Worker :=
  strategies.foldl (kind.place old) ∅

theorem place_getElem? (old next : ExtTreeMap Int64 Worker) (s : Declared) (id : Int64) :
    (kind.place old next s)[id]? =
      if kind.id s = id then kind.settle old[id]? next[id]? s else next[id]? := by
  unfold place settle
  by_cases own : kind.id s = id
  · subst own
    rw [if_pos rfl]
    cases (old[kind.id s]?).filter fun w => kind.strategy w == s with
    | some kept => simp
    | none => cases kind.make s <;> simp
  · rw [if_neg own]
    cases (old[kind.id s]?).filter fun w => kind.strategy w == s with
    | some kept => simp [ExtTreeMap.getElem?_insert, own]
    | none => cases kind.make s <;> simp [ExtTreeMap.getElem?_insert, own]

/-- The worker under an id comes from the strategies of that id alone, in their order. -/
theorem reconcile_getElem?_eq_foldl (old : ExtTreeMap Int64 Worker) (strategies : List Declared)
    (id : Int64) :
    (kind.reconcile old strategies)[id]? =
      (strategies.filter fun s => kind.id s == id).foldl (kind.settle old[id]?) none := by
  -- Each strategy changes the entry of its own id alone, whatever has been placed before.
  have general : ∀ next : ExtTreeMap Int64 Worker,
      (strategies.foldl (kind.place old) next)[id]? =
        (strategies.filter fun s => kind.id s == id).foldl (kind.settle old[id]?) next[id]? := by
    induction strategies with
    | nil => intro next; rfl
    | cons s strategies inductionHypothesis =>
      intro next
      rw [List.foldl_cons, inductionHypothesis, place_getElem?, List.filter_cons]
      by_cases own : kind.id s = id
      · rw [if_pos own, if_pos (beq_iff_eq.mpr own), List.foldl_cons]
      · rw [if_neg own, if_neg (by simpa using own)]
  rw [reconcile, general, ExtTreeMap.getElem?_empty]

/-! ## One id -/

/-- A worker is made for the strategy that is asked for, and equal strategies can be read alike. -/
structure Lawful (kind : StrategyKind Declared Worker) : Prop where
  strategy_make : ∀ {s w}, kind.make s = .ok w → kind.strategy w = s
  reads_congr : ∀ {a b}, (a == b) = true → kind.reads a = kind.reads b

theorem settle_of_reads (reads : kind.reads s = true) (worker current : Option Worker) :
    kind.settle worker current s = kind.settle worker none s := by
  obtain ⟨fresh, made⟩ := reads_iff.mp reads
  simp only [settle, made]

theorem settle_of_not_reads (lawful : kind.Lawful) {worker : Option Worker}
    (sound : ∀ w, worker = some w → kind.reads (kind.strategy w) = true)
    (fails : ¬ kind.reads s = true) (current : Option Worker) :
    kind.settle worker current s = current := by
  -- An equal one at work could not be read either.
  have unkept : (worker.filter fun w => kind.strategy w == s) = none := by
    rw [Option.filter_eq_none_iff]
    intro w found equal
    exact fails ((lawful.reads_congr equal).symm.trans (sound w found))
  rw [settle, unkept]
  cases made : kind.make s with
  | error fault => rfl
  | ok fresh => exact absurd (reads_iff.mpr ⟨fresh, made⟩) fails

/-- Of several strategies of one id, the last that can be read decides. -/
theorem foldl_settle (lawful : kind.Lawful) {worker : Option Worker}
    (sound : ∀ w, worker = some w → kind.reads (kind.strategy w) = true)
    (strategies : List Declared) :
    strategies.foldl (kind.settle worker) none =
      (strategies.filter kind.reads).getLast?.bind (kind.settle worker none) := by
  induction strategies using List.reverseRecOn with
  | nil => rfl
  | append_singleton strategies s inductionHypothesis =>
    rw [List.foldl_append, List.foldl_cons, List.foldl_nil, List.filter_append]
    by_cases reads : kind.reads s = true
    · rw [settle_of_reads reads, List.filter_cons_of_pos reads, List.filter_nil,
        List.getLast?_concat, Option.bind_some]
    · rw [settle_of_not_reads lawful sound reads, List.filter_cons_of_neg reads, List.filter_nil,
        List.append_nil, inductionHypothesis]

theorem reconcile_getElem? (lawful : kind.Lawful) (sound : kind.Sound old)
    (strategies : List Declared) (id : Int64) :
    (kind.reconcile old strategies)[id]? =
      (kind.lastReadable? strategies id).bind (kind.settle old[id]? none) := by
  rw [reconcile_getElem?_eq_foldl, foldl_settle lawful fun w found => (sound id w found).2,
    List.filter_filter, lastReadable?]
  simp only [Bool.and_comm]

theorem settle_cases (lawful : kind.Lawful) (reads : kind.reads s = true)
    (worker : Option Worker) :
    (∃ kept, worker = some kept ∧ (kind.strategy kept == s) = true ∧
        kind.settle worker none s = some kept) ∨
      (∃ fresh, kind.make s = .ok fresh ∧ kind.strategy fresh = s ∧
        (∀ w, worker = some w → (kind.strategy w == s) = false) ∧
        kind.settle worker none s = some fresh) := by
  obtain ⟨fresh, made⟩ := reads_iff.mp reads
  unfold settle
  cases found : worker.filter fun w => kind.strategy w == s with
  | some kept =>
    obtain ⟨present, equal⟩ := Option.filter_eq_some_iff.mp found
    exact .inl ⟨kept, present, equal, rfl⟩
  | none =>
    rw [Option.filter_eq_none_iff] at found
    refine .inr ⟨fresh, made, lawful.strategy_make made, ?_, by rw [made]⟩
    intro w present
    simpa using found w present

/-! ## A set of strategies -/

theorem mem_reconcile_iff (lawful : kind.Lawful) (sound : kind.Sound old) :
    id ∈ kind.reconcile old strategies ↔
      ∃ s ∈ strategies, kind.id s = id ∧ kind.reads s = true := by
  rw [ExtTreeMap.mem_iff_isSome_getElem?, reconcile_getElem? lawful sound,
    ← lastReadable?_isSome_iff]
  cases last : kind.lastReadable? strategies id with
  | none => rfl
  | some s =>
    rcases settle_cases lawful (mem_of_lastReadable? last).2.2 old[id]? with
      ⟨kept, _, _, settled⟩ | ⟨fresh, _, _, _, settled⟩
    · rw [Option.bind_some, settled]
      rfl
    · rw [Option.bind_some, settled]
      rfl

/-- What is at work under an id goes on from before, or it is made for a strategy of the set that is
not equal to the one before. -/
theorem reconcile_cases (lawful : kind.Lawful) (sound : kind.Sound old)
    (found : (kind.reconcile old strategies)[id]? = some w) :
    ∃ s, kind.lastReadable? strategies id = some s ∧
      (old[id]? = some w ∧ (kind.strategy w == s) = true ∨
        kind.make s = .ok w ∧ kind.strategy w = s ∧
          ∀ v, old[id]? = some v → (kind.strategy v == s) = false) := by
  rw [reconcile_getElem? lawful sound, Option.bind_eq_some_iff] at found
  obtain ⟨s, last, settled⟩ := found
  refine ⟨s, last, ?_⟩
  rcases settle_cases lawful (mem_of_lastReadable? last).2.2 old[id]? with
    ⟨kept, present, equal, result⟩ | ⟨fresh, made, strategy, differs, result⟩
  · rw [result, Option.some.injEq] at settled
    subst settled
    exact .inl ⟨present, equal⟩
  · rw [result, Option.some.injEq] at settled
    subst settled
    exact .inr ⟨made, strategy, differs⟩

/-- A changed strategy that can be read is put to work afresh. -/
theorem reconcile_of_changed (lawful : kind.Lawful) (sound : kind.Sound old)
    (atWork : old[id]? = some w) (last : kind.lastReadable? strategies id = some s)
    (changed : (kind.strategy w == s) = false) {fresh : Worker} (made : kind.make s = .ok fresh) :
    (kind.reconcile old strategies)[id]? = some fresh := by
  have unkept : (old[id]?).filter (fun w => kind.strategy w == s) = none := by
    rw [atWork, Option.filter_some, changed]
    rfl
  rw [reconcile_getElem? lawful sound, last, Option.bind_some, settle, unkept, made]

theorem Sound.reconcile (lawful : kind.Lawful) (sound : kind.Sound old)
    (strategies : List Declared) : kind.Sound (kind.reconcile old strategies) := by
  intro id w found
  obtain ⟨s, last, ⟨present, _⟩ | ⟨_, strategy, _⟩⟩ := reconcile_cases lawful sound found
  · exact sound id w present
  · rw [strategy]
    exact (mem_of_lastReadable? last).2

/-- A set of strategies that are equal to themselves brings in nothing new when it comes again. -/
theorem reconcile_reconcile (lawful : kind.Lawful) (sound : kind.Sound old)
    (reflexive : ∀ s ∈ strategies, (s == s) = true) :
    kind.reconcile (kind.reconcile old strategies) strategies = kind.reconcile old strategies := by
  apply ExtTreeMap.ext_getElem?
  intro id
  rw [reconcile_getElem? lawful (sound.reconcile lawful strategies)]
  cases last : kind.lastReadable? strategies id with
  | none => rw [reconcile_getElem? lawful sound, last, Option.bind_none, Option.bind_none]
  | some s =>
    have present : id ∈ kind.reconcile old strategies :=
      (mem_reconcile_iff lawful sound).mpr ⟨s, mem_of_lastReadable? last⟩
    obtain ⟨w, found⟩ := mem_iff_exists_getElem?.mp present
    obtain ⟨t, same, origin⟩ := reconcile_cases lawful sound found
    rw [last, Option.some.injEq] at same
    subst same
    have equal : (kind.strategy w == s) = true := by
      rcases origin with ⟨_, equal⟩ | ⟨_, strategy, _⟩
      · exact equal
      · rw [strategy]
        exact reflexive s (mem_of_lastReadable? last).1
    rw [Option.bind_some, found, settle, Option.filter_some, if_pos equal]

end StrategyKind

/-! ## Strategies -/

theorem Strategy.beq_eq (a b : Strategy) :
    (a == b) =
      (a.id == b.id && (a.name == b.name && (a.metric == b.metric &&
        (a.fieldTransform == b.fieldTransform && (a.func == b.func && (a.tags == b.tags &&
          (a.op == b.op && (a.rightValue == b.rightValue && (a.weight == b.weight &&
            a.groupBy == b.groupBy))))))))) := by
  cases a
  cases b
  rfl

/-- Equal strategies have the same rule, apart from the sign of a threshold that is zero. -/
theorem Rule.compile_congr {a b : Strategy} (equal : (a == b) = true) :
    Rule.compile b = (Rule.compile a).map fun r => { r with threshold := b.rightValue } := by
  simp only [Strategy.beq_eq, Bool.and_eq_true, beq_iff_eq] at equal
  obtain ⟨-, -, -, transform, func, tags, op, -⟩ := equal
  unfold Rule.compile
  rw [transform, func, tags, op]
  cases Transform.parse b.fieldTransform with
  | error fault => rfl
  | ok transform =>
    cases WindowFunction.parse b.func with
    | error fault => rfl
    | ok function =>
      cases Comparison.ofText b.op with
      | error fault => rfl
      | ok comparison => cases TagFilter.parse b.tags <;> rfl

theorem isOk_map {ε α β : Type} (x : Except ε α) (f : α → β) : (x.map f).isOk = x.isOk := by
  cases x <;> rfl

theorem Monitor.isOk_ofStrategy_congr {a b : Strategy} (equal : (a == b) = true) :
    (Monitor.ofStrategy a).isOk = (Monitor.ofStrategy b).isOk := by
  rw [Monitor.ofStrategy, Monitor.ofStrategy, isOk_map, isOk_map, Rule.compile_congr equal,
    isOk_map]

def StrategyKind.plain : StrategyKind Strategy Monitor :=
  ⟨Strategy.id, Monitor.strategy, Monitor.ofStrategy⟩

theorem StrategyKind.plain_reads (s : Strategy) :
    plain.reads s = (Monitor.ofStrategy s).isOk := by
  rw [reads, plain]

theorem StrategyKind.lawful_plain : plain.Lawful where
  strategy_make made := by
    obtain ⟨r, _, same⟩ := Monitor.eq_of_ofStrategy made
    rw [same, plain]
  reads_congr equal := by
    rw [plain_reads, plain_reads]
    exact Monitor.isOk_ofStrategy_congr equal

theorem Engine.reconcile_eq (old : ExtTreeMap Int64 Monitor) (strategies : List Strategy) :
    reconcile old strategies = StrategyKind.plain.reconcile old strategies := by
  have rule : reconcile.place old = StrategyKind.plain.place old := by
    funext next s
    simp only [reconcile.place, StrategyKind.place, StrategyKind.plain]
    cases (old[s.id]?).filter fun u => u.strategy == s with
    | some kept => rfl
    | none => cases Monitor.ofStrategy s <;> rfl
  rw [reconcile, rule, StrategyKind.reconcile]

/-! ## Composite strategies -/

theorem CompositeStrategy.beq_eq (a b : CompositeStrategy) :
    (a == b) =
      (a.id == b.id && (a.name == b.name && (a.strategies == b.strategies &&
        (a.rules == b.rules && (a.op == b.op && (a.rightValue == b.rightValue &&
          a.groupBy == b.groupBy)))))) := by
  cases a
  cases b
  rfl

namespace Composite

theorem isOk_subRules (id : Int64) (place : Nat) (strategies : List Strategy) :
    (subRules id place strategies).isOk =
      strategies.all fun s => (Monitor.ofStrategy s).isOk := by
  induction strategies generalizing place with
  | nil => rfl
  | cons s rest inductionHypothesis =>
    rw [List.all_cons, ← inductionHypothesis (place + 1), subRules]
    cases Monitor.ofStrategy s with
    | error fault => rfl
    | ok monitor => cases subRules id (place + 1) rest <;> rfl

theorem isOk_ofStrategy (s : CompositeStrategy) :
    (ofStrategy s).isOk =
      ((Comparison.ofText s.op).isOk &&
        match compactRules s.strategies.length s.rules with
        | .ok compact => (s.strategies ++ compact).all fun s => (Monitor.ofStrategy s).isOk
        | .error _ => false) := by
  unfold ofStrategy definitions
  cases Comparison.ofText s.op with
  | error fault => rfl
  | ok comparison =>
    cases compactRules s.strategies.length s.rules with
    | error fault => rfl
    | ok compact =>
      refine Eq.trans ?_ (isOk_subRules s.id 0 (s.strategies ++ compact))
      show (subRules s.id 0 (s.strategies ++ compact) >>= _).isOk = _
      cases subRules s.id 0 (s.strategies ++ compact) <;> rfl

theorem all_isOk_congr {first second : List Strategy} (equal : (first == second) = true) :
    (first.all fun s => (Monitor.ofStrategy s).isOk) =
      second.all fun s => (Monitor.ofStrategy s).isOk := by
  induction first generalizing second with
  | nil =>
    cases second with
    | nil => rfl
    | cons b second => cases equal
  | cons a first inductionHypothesis =>
    cases second with
    | nil => cases equal
    | cons b second =>
      rw [List.cons_beq_cons, Bool.and_eq_true] at equal
      rw [List.all_cons, List.all_cons, Monitor.isOk_ofStrategy_congr equal.1,
        inductionHypothesis equal.2]

theorem isOk_ofStrategy_congr {a b : CompositeStrategy} (equal : (a == b) = true) :
    (ofStrategy a).isOk = (ofStrategy b).isOk := by
  simp only [CompositeStrategy.beq_eq, Bool.and_eq_true, beq_iff_eq] at equal
  obtain ⟨-, -, strategies, rules, op, -⟩ := equal
  rw [isOk_ofStrategy, isOk_ofStrategy, op, rules, List.length_eq_of_beq strategies]
  cases compactRules b.strategies.length b.rules with
  | error fault => rfl
  | ok compact => simp only [List.all_append, all_isOk_congr strategies]

theorem fresh_of_ofStrategy {s : CompositeStrategy} {c : Composite}
    (accepted : ofStrategy s = .ok c) :
    c.strategy = s ∧ c.groups = ∅ ∧
      ∃ definitions, Composite.definitions s = .ok definitions ∧
        subRules s.id 0 definitions = .ok c.subs := by
  obtain ⟨comparison, _, accepted⟩ := bind_eq_ok_iff.mp accepted
  obtain ⟨definitions, defined, accepted⟩ := bind_eq_ok_iff.mp accepted
  obtain ⟨subs, read, accepted⟩ := bind_eq_ok_iff.mp accepted
  cases pure_eq_ok_iff.mp accepted
  exact ⟨rfl, rfl, definitions, defined, read⟩

end Composite

def StrategyKind.composite : StrategyKind CompositeStrategy Composite :=
  ⟨CompositeStrategy.id, Composite.strategy, Composite.ofStrategy⟩

theorem StrategyKind.composite_reads (s : CompositeStrategy) :
    composite.reads s = (Composite.ofStrategy s).isOk := by
  rw [reads, composite]

theorem StrategyKind.lawful_composite : composite.Lawful where
  strategy_make made := (Composite.fresh_of_ofStrategy made).1
  reads_congr equal := by
    rw [composite_reads, composite_reads]
    exact Composite.isOk_ofStrategy_congr equal

theorem Engine.reconcileComposites_eq (old : ExtTreeMap Int64 Composite)
    (strategies : List CompositeStrategy) :
    reconcileComposites old strategies = StrategyKind.composite.reconcile old strategies := by
  have rule : reconcileComposites.place old = StrategyKind.composite.place old := by
    funext next s
    simp only [reconcileComposites.place, StrategyKind.place, StrategyKind.composite]
    cases (old[s.id]?).filter fun c => c.strategy == s with
    | some kept => rfl
    | none => cases Composite.ofStrategy s <;> rfl
  rw [reconcileComposites, rule, StrategyKind.reconcile]

end AlertEngine
