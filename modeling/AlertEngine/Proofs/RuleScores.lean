import AlertEngine.Proofs.RuleTexts
import AlertEngine.Proofs.ScoreOrder

/-!
# One summand for each rule

The score of a group has one summand for each text of the rules that fail in it: the highest weight
of the rules that have the text. Where different rules have different texts this is one summand for
each rule, however often it is defined.

* `Composite.Fails`: a rule that fails on some series of a group.
* `Composite.ScoredBy`: a score with one summand for each key of the rules that fail.
* `Composite.rules_scored_apart`: scores by texts, and by rules where texts tell them apart.
-/

namespace AlertEngine

/-! ## Rules at work -/

namespace SubRule

def definition (sub : SubRule) : Strategy := sub.monitor.strategy

def condition (sub : SubRule) : Condition := sub.definition.condition

def text (sub : SubRule) : String := ruleText sub.definition

structure FromDefinition (sub : SubRule) : Prop where
  hash : sub.hash = Digest.fingerprint sub.text
  weight : sub.weight = sub.definition.weight
  readable : ∃ r, Rule.compile sub.definition = .ok r

end SubRule

namespace Composite

variable {c : Composite} {s : CompositeStrategy} {calls : List Call} {group : String}
  {g : ScoreGroup} {sub : SubRule}

theorem fromDefinition_of_subRules {id : Int64} {start : Nat} {strategies : List Strategy}
    {subs : List SubRule} (read : subRules id start strategies = .ok subs) :
    strategies = subs.map SubRule.definition ∧ ∀ sub ∈ subs, sub.FromDefinition := by
  induction strategies generalizing start subs with
  | nil =>
    cases read
    exact ⟨rfl, List.forall_mem_nil _⟩
  | cons s rest inductionHypothesis =>
    obtain ⟨monitor, made, read⟩ := bind_eq_ok_iff.mp read
    obtain ⟨others, readOthers, built⟩ := bind_eq_ok_iff.mp read
    cases pure_eq_ok_iff.mp built
    obtain ⟨same, fromDefinition⟩ := inductionHypothesis readOthers
    obtain ⟨r, compiled, rfl⟩ := Monitor.eq_of_ofStrategy made
    rw [List.map_cons, ← same, List.forall_mem_cons]
    exact ⟨rfl, ⟨rfl, rfl, ⟨r, compiled⟩⟩, fromDefinition⟩

theorem fromDefinition_of_ofStrategy (accepted : ofStrategy s = .ok c) :
    definitions s = .ok (c.subs.map SubRule.definition) ∧ ∀ sub ∈ c.subs, sub.FromDefinition := by
  obtain ⟨_, _, strategies, defined, read⟩ := fresh_of_ofStrategy accepted
  obtain ⟨rfl, fromDefinition⟩ := fromDefinition_of_subRules read
  exact ⟨defined, fromDefinition⟩

/-! ## Rules that fail -/

/-- Whether a rule fails in a group: its last verdict on some series there is a failure. -/
def Fails (c : Composite) (calls : List Call) (group : String) (sub : SubRule) : Prop :=
  ∃ place series v, c.subs[place]? = some sub ∧ c.latest? calls group place series = some v ∧
    v.judgment.status = .problem

theorem Fails.mem (fails : c.Fails calls group sub) : sub ∈ c.subs := by
  obtain ⟨place, _, _, found, _⟩ := fails
  exact List.mem_of_getElem? found

/-- A rule that fails has an item with its hash and its weight. -/
theorem Fails.exists_item (accepted : ofStrategy s = .ok c) (fails : c.Fails calls group sub) :
    ∃ g item, (c.run calls).groups[group]? = some g ∧ item ∈ g.items.toList.map Prod.snd ∧
      item.ruleHash = sub.hash ∧ item.weight = sub.weight := by
  obtain ⟨place, series, v, found, last, alarm⟩ := fails
  have item := (reflects_run accepted calls).items group place sub series found
  rw [last, itemFrom, Option.bind_some, if_pos alarm, item?, Option.bind_eq_some_iff] at item
  obtain ⟨g, foundGroup, held⟩ := item
  have listed := Std.ExtTreeMap.mem_toList_iff_getElem?_eq_some.mpr held
  exact ⟨g, itemOf sub v.metric v.judgment.leftValue, foundGroup,
    List.mem_map_of_mem (f := Prod.snd) listed, rfl, rfl⟩

theorem fails_of_item (accepted : ofStrategy s = .ok c)
    (found : (c.run calls).groups[group]? = some g) {item : ScoreItem}
    (member : item ∈ g.items.toList.map Prod.snd) :
    ∃ sub, c.Fails calls group sub ∧ item.ruleHash = sub.hash ∧ item.weight = sub.weight := by
  obtain ⟨⟨⟨key, series⟩, other⟩, held, same⟩ := List.mem_map.mp member
  obtain rfl : other = item := same
  rw [Std.ExtTreeMap.mem_toList_iff_getElem?_eq_some] at held
  have reflects := reflects_run accepted calls
  have present : (c.run calls).item? group key series = some other := by
    rw [item?, found, Option.bind_some, held]
  obtain ⟨place, sub, foundSub, rfl⟩ := reflects.keys group key series (by simp [present])
  rw [reflects.items group place sub series foundSub, itemFrom, Option.bind_eq_some_iff] at present
  obtain ⟨v, last, recorded⟩ := present
  rw [Option.ite_none_right_eq_some, Option.some.injEq] at recorded
  refine ⟨sub, ⟨place, series, v, foundSub, last, recorded.1⟩, ?_⟩
  rw [← recorded.2]
  exact ⟨rfl, rfl⟩

/-! ## Scores -/

/-- A score with one summand for each key of the rules that fail in a group: the highest weight of
those that have the key. -/
def ScoredBy {α : Type} (c : Composite) (calls : List Call) (group : String) (score : Float)
    (key : SubRule → α) : Prop :=
  ∃ summands : List (α × Float), score = Binary64.sum (summands.map Prod.snd) ∧
    (summands.map Prod.fst).Nodup ∧
    (∀ k, k ∈ summands.map Prod.fst ↔ ∃ sub, c.Fails calls group sub ∧ key sub = k) ∧
    ∀ entry ∈ summands, Binary64.IsHighest
      {weight | ∃ sub, c.Fails calls group sub ∧ key sub = entry.1 ∧ sub.weight = weight} entry.2

section

variable (accepted : ofStrategy s = .ok c) (found : (c.run calls).groups[group]? = some g)

include accepted found

theorem exists_item_iff {hash : String} :
    (∃ item ∈ g.items.toList.map Prod.snd, item.ruleHash = hash) ↔
      ∃ sub, c.Fails calls group sub ∧ sub.hash = hash := by
  constructor
  · rintro ⟨item, member, rfl⟩
    obtain ⟨sub, fails, same, -⟩ := fails_of_item accepted found member
    exact ⟨sub, fails, same.symm⟩
  · rintro ⟨sub, fails, rfl⟩
    obtain ⟨h, item, foundGroup, member, same, -⟩ := fails.exists_item accepted
    obtain rfl : g = h := Option.some.inj (found.symm.trans foundGroup)
    exact ⟨item, member, same⟩

theorem weightsOf_items (hash : String) :
    ScoreItem.weightsOf (g.items.toList.map Prod.snd) hash =
      {weight | ∃ sub, c.Fails calls group sub ∧ sub.hash = hash ∧ sub.weight = weight} := by
  ext weight
  constructor
  · rintro ⟨item, member, rfl, rfl⟩
    obtain ⟨sub, fails, same, weight⟩ := fails_of_item accepted found member
    exact ⟨sub, fails, same.symm, weight.symm⟩
  · rintro ⟨sub, fails, rfl, rfl⟩
    obtain ⟨h, item, foundGroup, member, same, weight⟩ := fails.exists_item accepted
    obtain rfl : g = h := Option.some.inj (found.symm.trans foundGroup)
    exact ⟨item, member, same, weight⟩

/-- Rules are scored by whatever tells them apart as their hashes do. -/
theorem scoredBy {α : Type} [Nonempty α] {key : SubRule → α}
    (same : ∀ a ∈ c.subs, ∀ b ∈ c.subs, a.hash = b.hash ↔ key a = key b) :
    c.ScoredBy calls group g.score key := by
  obtain ⟨keyOf, keyOf_hash⟩ : ∃ keyOf : String → α, ∀ sub ∈ c.subs, keyOf sub.hash = key sub := by
    have factors : (fun sub : {sub // sub ∈ c.subs} => key sub).FactorsThrough
        fun sub => sub.1.hash := fun a b equal => (same a a.2 b b.2).mp equal
    obtain ⟨keyOf, composed⟩ := (Function.factorsThrough_iff _).mp factors
    exact ⟨keyOf, fun sub member => (congrFun composed ⟨sub, member⟩).symm⟩
  have raised := ScoreItem.raised_bestWeights (g.items.toList.map Prod.snd)
  obtain ⟨best, shape⟩ : ∃ best, ScoreItem.bestWeights (g.items.toList.map Prod.snd) = best :=
    ⟨_, rfl⟩
  rw [shape] at raised
  have listed (hash : String) : hash ∈ best.map Prod.fst ↔
      ∃ sub, c.Fails calls group sub ∧ sub.hash = hash :=
    (raised.keys hash).trans (exists_item_iff accepted found)
  have keys : (best.map fun entry => (keyOf entry.1, entry.2)).map Prod.fst =
      (best.map Prod.fst).map keyOf := by
    rw [List.map_map, List.map_map]
    rfl
  refine ⟨best.map fun entry => (keyOf entry.1, entry.2), ?_, ?_, fun k => ?_, ?_⟩
  · rw [ScoreGroup.score, ScoreItem.score, shape, List.map_map]
    rfl
  · rw [keys]
    refine List.Nodup.map_on (fun first member second member' equal => ?_) raised.nodup
    obtain ⟨a, fails, rfl⟩ := (listed first).mp member
    obtain ⟨b, fails', rfl⟩ := (listed second).mp member'
    rw [keyOf_hash a fails.mem, keyOf_hash b fails'.mem] at equal
    exact (same a fails.mem b fails'.mem).mpr equal
  · rw [keys, List.mem_map]
    constructor
    · rintro ⟨hash, member, rfl⟩
      obtain ⟨sub, fails, rfl⟩ := (listed hash).mp member
      exact ⟨sub, fails, (keyOf_hash sub fails.mem).symm⟩
    · rintro ⟨sub, fails, rfl⟩
      exact ⟨sub.hash, (listed _).mpr ⟨sub, fails, rfl⟩, keyOf_hash sub fails.mem⟩
  · intro entry listedEntry
    obtain ⟨⟨hash, weight⟩, member, rfl⟩ := List.mem_map.mp listedEntry
    obtain ⟨a, fails, rfl⟩ := (listed hash).mp (List.mem_map_of_mem (f := Prod.fst) member)
    have highest := raised.highest _ member
    rw [weightsOf_items accepted found] at highest
    have sameWeights : {weight | ∃ sub, c.Fails calls group sub ∧ sub.hash = a.hash ∧
        sub.weight = weight} = {weight | ∃ sub, c.Fails calls group sub ∧
          key sub = keyOf a.hash ∧ sub.weight = weight} := by
      ext weight
      refine exists_congr fun sub => and_congr_right fun fails' => and_congr_left fun _ => ?_
      rw [keyOf_hash a fails.mem]
      exact same sub fails'.mem a fails.mem
    exact sameWeights ▸ highest

end

theorem accepted_of_any {p : Composite → Bool} (computed : (ofStrategy s).toOption.any p = true) :
    ∃ c, ofStrategy s = .ok c ∧ p c = true := by
  cases accepted : ofStrategy s with
  | error fault =>
    rw [accepted] at computed
    cases computed
  | ok c =>
    rw [accepted] at computed
    exact ⟨c, rfl, computed⟩

/-! ## Rules told apart -/

def NoCollision (c : Composite) : Prop :=
  ∀ a ∈ c.subs, ∀ b ∈ c.subs,
    Digest.fingerprint a.text = Digest.fingerprint b.text → a.text = b.text

instance (c : Composite) : Decidable c.NoCollision :=
  inferInstanceAs (Decidable (∀ a ∈ c.subs, ∀ b ∈ c.subs, _ → _))

/-- Rules with one text are the same rule, wherever and however they are defined, if they have their
bars in the same parts; metrics without a bar, with transforms or tags without one, have. Where no
fingerprints collide, the score of a group has one summand for each text of the rules that fail in
it, the highest of their weights, and if all rules with one text are the same this is one summand
for each rule. -/
theorem rules_scored_apart {s : CompositeStrategy} {c : Composite}
    (accepted : ofStrategy s = .ok c) :
    definitions s = .ok (c.subs.map SubRule.definition) ∧
    (∀ sub ∈ c.subs, sub.hash = Digest.fingerprint sub.text ∧
      sub.weight = sub.definition.weight) ∧
    (∀ a ∈ c.subs, ∀ b ∈ c.subs, a.condition = b.condition ↔
      a.text = b.text ∧ a.definition.SameBars b.definition) ∧
    (Strategy.Plain (c.subs.map SubRule.definition) →
      ∀ a ∈ c.subs, ∀ b ∈ c.subs, a.text = b.text ↔ a.condition = b.condition) ∧
    (∀ calls group sub, c.Fails calls group sub → group ∈ (c.run calls).groups) ∧
    ∀ calls (group : String) (g : ScoreGroup), (c.run calls).groups[group]? = some g →
      c.NoCollision →
        c.ScoredBy calls group g.score SubRule.text ∧
        ((∀ a ∈ c.subs, ∀ b ∈ c.subs, a.text = b.text → a.condition = b.condition) →
          c.ScoredBy calls group g.score SubRule.condition) := by
  obtain ⟨defined, fromDefinition⟩ := fromDefinition_of_ofStrategy accepted
  have conditions (a : SubRule) (first : a ∈ c.subs) (b : SubRule) (second : b ∈ c.subs) :
      a.condition = b.condition ↔ a.text = b.text ∧ a.definition.SameBars b.definition := by
    obtain ⟨r, compiled⟩ := (fromDefinition a first).readable
    obtain ⟨q, compiled'⟩ := (fromDefinition b second).readable
    exact Strategy.condition_eq_iff compiled compiled'
  refine ⟨defined, fun sub member => ⟨(fromDefinition sub member).hash,
    (fromDefinition sub member).weight⟩, conditions, ?_, ?_, ?_⟩
  · intro plain a first b second
    obtain ⟨r, compiled⟩ := (fromDefinition a first).readable
    obtain ⟨q, compiled'⟩ := (fromDefinition b second).readable
    rw [conditions a first b second]
    exact ⟨fun same => ⟨same, Strategy.sameBars_of_plain plain (List.mem_map_of_mem first)
      (List.mem_map_of_mem second) compiled compiled' same⟩, And.left⟩
  · intro calls group sub fails
    obtain ⟨g, _, found, _⟩ := fails.exists_item accepted
    exact mem_iff_exists_getElem?.mpr ⟨g, found⟩
  · intro calls group g found collisionFree
    have texts (a : SubRule) (first : a ∈ c.subs) (b : SubRule) (second : b ∈ c.subs) :
        a.hash = b.hash ↔ a.text = b.text := by
      rw [(fromDefinition a first).hash, (fromDefinition b second).hash]
      exact ⟨collisionFree a first b second, congrArg Digest.fingerprint⟩
    refine ⟨scoredBy accepted found texts, fun separate => ?_⟩
    refine scoredBy accepted found fun a first b second => (texts a first b second).trans
      ⟨separate a first b second, fun same => ((conditions a first b second).mp same).1⟩

/-- One rule is defined twice, with weights 30 and 40, and another one once, with weight 20. When
they all fail, their group has the score 60. -/
theorem rule_defined_twice_scored_once :
    let rule : Strategy :=
      { id := 1, metric := "cpu", func := "all(#1)", op := ">", rightValue := 90, weight := 30 }
    let s : CompositeStrategy :=
      { id := 7, strategies := [rule], op := ">=", rightValue := 60
        rules := ["cpu;select(value);all(#1);>;90;40", "mem;select(value);all(#1);>;90;20"] }
    let calls : List Call :=
      [.check 0 { name := "cpu", value := 95 }, .check 1 { name := "cpu", value := 95 },
        .check 2 { name := "mem", value := 95 }]
    ∃ c g, ofStrategy s = .ok c ∧ (c.run calls).groups[groupOfAll]? = some g ∧ g.score = 60 ∧
      c.ScoredBy calls groupOfAll g.score SubRule.condition := by
  intro rule s calls
  have computed : (ofStrategy s).toOption.any (fun c =>
      decide c.NoCollision && decide (Strategy.Plain (c.subs.map SubRule.definition)) &&
        ((c.run calls).groups[groupOfAll]?).any fun g => decide (g.score = 60)) = true := by
    decide +kernel
  obtain ⟨c, accepted, computed⟩ := accepted_of_any computed
  simp only [Bool.and_eq_true, decide_eq_true_eq, Option.any_eq_true] at computed
  obtain ⟨⟨collisionFree, plain⟩, g, found, score⟩ := computed
  obtain ⟨_, _, _, separate, _, scored⟩ := rules_scored_apart accepted
  exact ⟨c, g, accepted, found, score, (scored calls groupOfAll g found collisionFree).2
    fun a first b second => (separate plain a first b second).mp⟩

/-- The metric of one rule goes on where the transform of the other one begins. Their texts are
equal, and when both fail, their group has the score 40 and not 70. -/
theorem bar_merges_rules :
    let longMetric : Strategy :=
      { id := 1, metric := "cpu|select(a)", fieldTransform := "select(b)", func := "all(#1)"
        op := ">", rightValue := 90, weight := 40 }
    let longTransform : Strategy :=
      { id := 2, metric := "cpu", fieldTransform := "select(a)|select(b)", func := "all(#1)"
        op := ">", rightValue := 90, weight := 30 }
    let s : CompositeStrategy :=
      { id := 9, strategies := [longMetric, longTransform], op := ">=", rightValue := 60 }
    let first : Metric :=
      { name := "cpu|select(a)", fields := Dictionary.ofEntries [("b", 95)] }
    let second : Metric := { name := "cpu", fields := Dictionary.ofEntries [("a)|select(b", 95)] }
    let calls : List Call := [.check 0 first, .check 1 second]
    longMetric.condition ≠ longTransform.condition ∧
    ∃ c a b g, ofStrategy s = .ok c ∧ c.subs = [a, b] ∧ c.NoCollision ∧
      a.definition = longMetric ∧ b.definition = longTransform ∧ a.text = b.text ∧
      c.Fails calls groupOfAll a ∧ c.Fails calls groupOfAll b ∧
      (c.run calls).groups[groupOfAll]? = some g ∧ g.score = 40 := by
  intro longMetric longTransform s first second calls
  refine ⟨by decide +kernel, ?_⟩
  have computed : (ofStrategy s).toOption.any (fun c =>
      decide c.NoCollision &&
      ((c.latest? calls groupOfAll 0 first.identity).any fun v => v.judgment.status == .problem) &&
      ((c.latest? calls groupOfAll 1 second.identity).any fun v => v.judgment.status == .problem) &&
      ((c.run calls).groups[groupOfAll]?).any fun g => decide (g.score = 40)) = true := by
    decide +kernel
  obtain ⟨c, accepted, computed⟩ := accepted_of_any computed
  simp only [Bool.and_eq_true, decide_eq_true_eq, Option.any_eq_true, beq_iff_eq] at computed
  obtain ⟨⟨⟨collisionFree, v, last, failed⟩, w, last', failed'⟩, g, found, score⟩ := computed
  obtain ⟨defined, -⟩ := fromDefinition_of_ofStrategy accepted
  have rules : c.subs.map SubRule.definition = [longMetric, longTransform] := by
    rw [definitions] at defined
    exact (Except.ok.inj defined).symm
  obtain ⟨a, rest, shape, one, others⟩ := List.map_eq_cons_iff.mp rules
  obtain ⟨b, none, shape', other, nothing⟩ := List.map_eq_cons_iff.mp others
  obtain rfl := List.map_eq_nil_iff.mp nothing
  subst shape'
  refine ⟨c, a, b, g, accepted, shape, collisionFree, one, other, ?_,
    ⟨0, _, v, by rw [shape]; rfl, last, failed⟩, ⟨1, _, w, by rw [shape]; rfl, last', failed'⟩,
    found, score⟩
  rw [SubRule.text, SubRule.text, one, other]
  decide +kernel

end Composite

end AlertEngine
