import AlertEngine.Composite.Basic
import AlertEngine.Proofs.DoubleOrder

/-!
# Scores and the order of their summands

The score of a group is made of the highest weight of each rule, and these do not depend on the
order of the items. Their sum does, because it is rounded after each summand: three rules of the
weights 0.1, 0.2 and 0.3 are above 0.6 in one order and not in the other one.

* `Binary64.IsHighest`: the highest of some weights, as scores have it.
* `ScoreItem.raised_bestWeights`: `bestWeights` finds the highest weight of each rule.
* `ScoreItem.highest_bestWeights`: where weights are finite, it stands for the greatest number.
* `ScoreItem.sameHighest_iff_perm`: items of the same rules with the same highest weights have the
  same summands, and only these.
* `Composite.score_in_any_order`: where the summands can be added in any order, for example whole
  numbers, the score, its comparisons and the reports of a scan are the same in all orders.
-/

namespace AlertEngine

open Binary64 (larger lowest OrderFree Alike)

/-! ## Highest weights -/

namespace Binary64

variable {weights : Set Float} {best : Float}

/-- The highest of some weights: it starts from the most negative finite double, and NaN is passed
over. -/
structure IsHighest (weights : Set Float) (best : Float) : Prop where
  number : best.isNaN = false
  least : lowest ≤ best
  upper : ∀ weight ∈ weights, weight.isNaN = false → weight ≤ best
  reached : best = lowest ∨ best ∈ weights

theorem isHighest_empty : IsHighest ∅ lowest where
  number := isNaN_eq_false isFinite_lowest
  least := by decide +kernel
  upper _ member := nomatch member
  reached := .inl rfl

theorem IsHighest.insert (highest : IsHighest weights best) (weight : Float) :
    IsHighest (insert weight weights) (larger best weight) := by
  obtain ⟨number, least, upper, reached⟩ := highest
  rw [larger, number]
  simp only [Bool.false_eq_true, if_false]
  split
  · rename_i greater
    have own : weight.isNaN = false := by
      by_contra undefined
      rw [Bool.not_eq_false] at undefined
      exact (not_comparable_of_isNaN undefined best).1.2 greater
    have above : best ≤ weight := by
      rw [lt_iff_place number own] at greater
      rw [le_iff_place number own]
      exact greater.le
    constructor
    case number => exact own
    case least => exact le_trans_of_number isHighest_empty.number number own least above
    case upper =>
      rintro other (rfl | member) defined
      · rw [le_iff_place own own]
      · exact le_trans_of_number defined number own (upper other member defined) above
    case reached => exact .inr (Set.mem_insert _ _)
  · rename_i notGreater
    constructor
    case number => exact number
    case least => exact least
    case upper =>
      rintro other (rfl | member) defined
      · exact (not_lt_iff_le number defined).mp notGreater
      · exact upper other member defined
    case reached => exact reached.imp_right (Set.mem_insert_of_mem _)

/-- Among finite weights it stands for the greatest number. -/
theorem IsHighest.isGreatest (highest : IsHighest weights best)
    (finite : ∀ weight ∈ weights, weight.isFinite) (inhabited : weights.Nonempty) :
    best.isFinite ∧ IsGreatest (value '' weights) (value best) := by
  have finiteBest : best.isFinite := by
    rcases highest.reached with rfl | member
    · exact isFinite_lowest
    · exact finite best member
  have upper : ∀ weight ∈ weights, value weight ≤ value best := fun weight member =>
    (le_iff_value (finite weight member) finiteBest).mp
      (highest.upper weight member (isNaN_eq_false (finite weight member)))
  refine ⟨finiteBest, ?_, Set.forall_mem_image.mpr upper⟩
  rcases highest.reached with rfl | member
  · obtain ⟨weight, member⟩ := inhabited
    exact ⟨weight, member,
      le_antisymm (upper weight member) (value_lowest_le (finite weight member))⟩
  · exact Set.mem_image_of_mem value member

end Binary64

namespace ScoreItem

open Binary64 (IsHighest)

variable {items : List ScoreItem} {item : ScoreItem} {best : List (String × Float)} {hash : String}

theorem keys_raise (hash : String) (weight : Float) (best : List (String × Float)) :
    (raise hash weight best).map Prod.fst =
      if hash ∈ best.map Prod.fst then best.map Prod.fst else best.map Prod.fst ++ [hash] := by
  induction best with
  | nil => rfl
  | cons entry rest inductionHypothesis =>
    obtain ⟨key, highest⟩ := entry
    rw [raise]
    split
    · rename_i own
      simp [own]
    · rename_i other
      rw [List.map_cons, inductionHypothesis]
      by_cases later : hash ∈ rest.map Prod.fst
      · simp [later]
      · simp [later, Ne.symm other]

theorem mem_keys_raise {key : String} {weight : Float} :
    key ∈ (raise hash weight best).map Prod.fst ↔ key ∈ best.map Prod.fst ∨ key = hash := by
  rw [keys_raise]
  split
  · rename_i known
    exact ⟨.inl, fun either => either.elim id fun same => same ▸ known⟩
  · rw [List.mem_append, List.mem_singleton]

theorem nodup_keys_raise {weight : Float} (nodup : (best.map Prod.fst).Nodup) :
    ((raise hash weight best).map Prod.fst).Nodup := by
  rw [keys_raise]
  split
  · exact nodup
  · rename_i missing
    exact List.concat_eq_append ▸ List.Nodup.concat missing nodup

/-- After a weight an entry is one of before, or it is that of the rule, with its highest weight
raised. -/
theorem mem_raise {weight : Float} {entry : String × Float} (nodup : (best.map Prod.fst).Nodup)
    (member : entry ∈ raise hash weight best) :
    entry.1 ≠ hash ∧ entry ∈ best ∨
      hash ∉ best.map Prod.fst ∧ entry = (hash, larger lowest weight) ∨
      ∃ highest, (hash, highest) ∈ best ∧ entry = (hash, larger highest weight) := by
  induction best with
  | nil => exact .inr (.inl ⟨List.not_mem_nil, List.mem_singleton.mp member⟩)
  | cons first rest inductionHypothesis =>
    obtain ⟨key, highest⟩ := first
    rw [List.map_cons, List.nodup_cons] at nodup
    rw [raise] at member
    split at member
    · rename_i own
      subst own
      rcases List.mem_cons.mp member with rfl | later
      · exact .inr (.inr ⟨highest, List.mem_cons_self, rfl⟩)
      · -- A later entry is of another rule, since each rule has one entry.
        exact .inl ⟨fun same => nodup.1 (List.mem_map.mpr ⟨entry, later, same⟩),
          List.mem_cons_of_mem _ later⟩
    · rename_i other
      rcases List.mem_cons.mp member with rfl | later
      · exact .inl ⟨other, List.mem_cons_self⟩
      · rcases inductionHypothesis nodup.2 later with
          ⟨apart, earlier⟩ | ⟨missing, fresh⟩ | ⟨highest, earlier, raised⟩
        · exact .inl ⟨apart, List.mem_cons_of_mem _ earlier⟩
        · refine .inr (.inl ⟨?_, fresh⟩)
          rw [List.map_cons, List.mem_cons, not_or]
          exact ⟨Ne.symm other, missing⟩
        · exact .inr (.inr ⟨highest, List.mem_cons_of_mem _ earlier, raised⟩)

theorem bestWeights_snoc (items : List ScoreItem) (item : ScoreItem) :
    bestWeights (items ++ [item]) = raise item.ruleHash item.weight (bestWeights items) := by
  rw [bestWeights, List.foldl_append]
  rfl

def weightsOf (items : List ScoreItem) (hash : String) : Set Float :=
  {weight | ∃ item ∈ items, item.ruleHash = hash ∧ item.weight = weight}

theorem weightsOf_snoc_self :
    weightsOf (items ++ [item]) item.ruleHash =
      insert item.weight (weightsOf items item.ruleHash) := by
  ext weight
  simp [weightsOf, or_and_right, exists_or, or_comm, eq_comm]

theorem weightsOf_snoc_of_ne (other : hash ≠ item.ruleHash) :
    weightsOf (items ++ [item]) hash = weightsOf items hash := by
  ext weight
  simp [weightsOf, or_and_right, exists_or, Ne.symm other]

/-- Weights raised for some items: one entry for each rule, with its highest weight. -/
structure Raised (items : List ScoreItem) (best : List (String × Float)) : Prop where
  nodup : (best.map Prod.fst).Nodup
  keys : ∀ hash, hash ∈ best.map Prod.fst ↔ ∃ item ∈ items, item.ruleHash = hash
  highest : ∀ entry ∈ best, IsHighest (weightsOf items entry.1) entry.2

theorem Raised.weightsOf_of_missing (raised : Raised items best)
    (missing : hash ∉ best.map Prod.fst) : weightsOf items hash = ∅ := by
  rw [Set.eq_empty_iff_forall_notMem]
  rintro weight ⟨item, member, same, -⟩
  exact missing ((raised.keys hash).mpr ⟨item, member, same⟩)

theorem Raised.snoc (raised : Raised items best) (item : ScoreItem) :
    Raised (items ++ [item]) (raise item.ruleHash item.weight best) := by
  constructor
  case nodup => exact nodup_keys_raise raised.nodup
  case keys =>
    intro hash
    rw [mem_keys_raise, raised.keys]
    simp [or_and_right, exists_or, eq_comm]
  case highest =>
    intro entry member
    rcases mem_raise raised.nodup member with
      ⟨other, earlier⟩ | ⟨missing, rfl⟩ | ⟨before, earlier, rfl⟩
    · rw [weightsOf_snoc_of_ne other]
      exact raised.highest entry earlier
    · rw [weightsOf_snoc_self, raised.weightsOf_of_missing missing]
      exact Binary64.isHighest_empty.insert item.weight
    · rw [weightsOf_snoc_self]
      exact (raised.highest _ earlier).insert item.weight

theorem raised_bestWeights (items : List ScoreItem) : Raised items (bestWeights items) := by
  induction items using List.reverseRecOn with
  | nil => exact ⟨List.nodup_nil, by simp [bestWeights], by simp [bestWeights]⟩
  | append_singleton items item inductionHypothesis =>
    rw [bestWeights_snoc]
    exact inductionHypothesis.snoc item

def weights (items : List ScoreItem) (hash : String) : Set ℚ :=
  {v | ∃ item ∈ items, item.ruleHash = hash ∧ Binary64.value item.weight = v}

structure Highest (items : List ScoreItem) (best : List (String × Float)) : Prop where
  nodup : (best.map Prod.fst).Nodup
  finite : ∀ entry ∈ best, entry.2.isFinite
  greatest : ∀ entry ∈ best, IsGreatest (weights items entry.1) (Binary64.value entry.2)
  complete : ∀ item ∈ items, item.ruleHash ∈ best.map Prod.fst

theorem weights_eq_image (items : List ScoreItem) (hash : String) :
    weights items hash = Binary64.value '' weightsOf items hash := by
  ext v
  simp [weights, weightsOf, and_assoc]

theorem highest_bestWeights (finite : ∀ item ∈ items, item.weight.isFinite) :
    Highest items (bestWeights items) := by
  have raised := raised_bestWeights items
  have greatest (entry : String × Float) (member : entry ∈ bestWeights items) :
      entry.2.isFinite ∧ IsGreatest (weights items entry.1) (Binary64.value entry.2) := by
    obtain ⟨item, own, same⟩ := (raised.keys entry.1).mp (List.mem_map_of_mem member)
    rw [weights_eq_image]
    refine (raised.highest entry member).isGreatest ?_ ⟨item.weight, item, own, same, rfl⟩
    rintro weight ⟨other, listed, -, rfl⟩
    exact finite other listed
  exact ⟨raised.nodup, fun entry member => (greatest entry member).1,
    fun entry member => (greatest entry member).2,
    fun item member => (raised.keys item.ruleHash).mpr ⟨item, member, rfl⟩⟩

/-! ## Orders -/

def numbered (entry : String × Float) : String × ℚ := (entry.1, Binary64.value entry.2)

def total (order : List (String × Float)) : Float := Binary64.sum (order.map Prod.snd)

def SameHighest (xs ys : List ScoreItem) : Prop :=
  ∀ hash v, IsGreatest (weights xs hash) v ↔ IsGreatest (weights ys hash) v

theorem Highest.mem_numbered_iff (highest : Highest items best) {v : ℚ} :
    (hash, v) ∈ best.map numbered ↔ IsGreatest (weights items hash) v := by
  constructor
  · intro member
    obtain ⟨entry, found, same⟩ := List.mem_map.mp member
    cases same
    exact highest.greatest entry found
  · intro greatest
    obtain ⟨item, member, rfl, -⟩ := greatest.1
    obtain ⟨entry, found, same⟩ := List.mem_map.mp (highest.complete item member)
    have greatestEntry := highest.greatest entry found
    rw [same] at greatestEntry
    exact List.mem_map.mpr ⟨entry, found, Prod.ext same (greatestEntry.unique greatest)⟩

theorem Highest.nodup_numbered (highest : Highest items best) : (best.map numbered).Nodup := by
  refine List.Nodup.of_map Prod.fst ?_
  rw [List.map_map]
  exact highest.nodup

variable {xs ys : List ScoreItem} {us vs : List (String × Float)}

/-- Items have the same highest weights when they have the same summands, in one order or
another. -/
theorem sameHighest_iff_perm (finiteX : ∀ item ∈ xs, item.weight.isFinite)
    (finiteY : ∀ item ∈ ys, item.weight.isFinite) :
    SameHighest xs ys ↔
      ((bestWeights xs).map numbered).Perm ((bestWeights ys).map numbered) := by
  have highestX := highest_bestWeights finiteX
  have highestY := highest_bestWeights finiteY
  rw [List.perm_ext_iff_of_nodup highestX.nodup_numbered highestY.nodup_numbered, Prod.forall]
  simp only [highestX.mem_numbered_iff, highestY.mem_numbered_iff]
  rfl

theorem finite_of_perm (finite : ∀ item ∈ xs, item.weight.isFinite)
    (order : us.Perm (bestWeights xs)) : ∀ weight ∈ us.map Prod.snd, weight.isFinite := by
  intro weight member
  obtain ⟨entry, found, rfl⟩ := List.mem_map.mp member
  exact (highest_bestWeights finite).finite entry (order.mem_iff.mp found)

theorem total_alike (finiteX : ∀ item ∈ xs, item.weight.isFinite)
    (finiteY : ∀ item ∈ ys, item.weight.isFinite) (orderX : us.Perm (bestWeights xs))
    (orderY : vs.Perm (bestWeights ys)) (summands : (us.map numbered).Perm (vs.map numbered))
    (free : OrderFree (us.map Prod.snd)) : Alike (total us) (total vs) := by
  have values (order : List (String × Float)) :
      (order.map Prod.snd).map Binary64.value = (order.map numbered).map Prod.snd := by
    rw [List.map_map, List.map_map]
    rfl
  refine Binary64.alike_sum_of_perm (finite_of_perm finiteX orderX)
    (finite_of_perm finiteY orderY) ?_ free
  rw [values, values]
  exact summands.map Prod.snd

end ScoreItem

namespace Composite

open ScoreItem

/-- The scores of items with the same highest weights are sums of the same numbers, whatever the
order in which the items come and in which the highest weights are added. Where such a sum does not
depend on the order, the score is one and the same up to the sign of zero, and so are all
comparisons with a threshold and the reports on a group. -/
theorem score_in_any_order {xs ys : List ScoreItem} {us vs : List (String × Float)}
    (finiteX : ∀ item ∈ xs, item.weight.isFinite)
    (finiteY : ∀ item ∈ ys, item.weight.isFinite) (same : SameHighest xs ys)
    (orderX : us.Perm (bestWeights xs)) (orderY : vs.Perm (bestWeights ys)) :
    (us.map numbered).Perm (vs.map numbered) ∧
      (OrderFree (us.map Prod.snd) →
        Alike (total us) (total vs) ∧
        (∀ (op : Comparison) (threshold : Float),
          op.holds (total us) threshold = op.holds (total vs) threshold) ∧
        ∀ (c : Composite) (now : Instant) (key : String) (g : ScoreGroup),
          g.items.toList.map Prod.snd = xs →
            Alike (c.report now key g).leftValue (total vs) ∧
            (c.report now key g).status =
              if c.comparison.holds (total vs) c.strategy.rightValue then .problem else .ok) := by
  have summands : ((bestWeights xs).map numbered).Perm ((bestWeights ys).map numbered) :=
    (sameHighest_iff_perm finiteX finiteY).mp same
  have ordered := (orderX.map numbered).trans (summands.trans (orderY.map numbered).symm)
  refine ⟨ordered, fun free => ?_⟩
  have alike := total_alike finiteX finiteY orderX orderY ordered free
  refine ⟨alike, alike.holds, ?_⟩
  rintro c now key g rfl
  have scored : Alike g.score (total us) :=
    -- The order of the report is the one in which the rules first come.
    (total_alike finiteX finiteX orderX (.refl _) (orderX.map numbered) free).symm
  have reported := scored.trans alike
  refine ⟨reported, ?_⟩
  change (if c.comparison.holds g.score c.strategy.rightValue then _ else _) = _
  rw [reported.holds]

def failing (hash : String) (weight : Float) : ScoreItem where
  ruleKey := hash
  ruleHash := hash
  weight := weight
  value := 1
  identity := "cpu"
  timestamp := 0

def threeRules : List ScoreItem :=
  [failing "a" 40, failing "b" 30, failing "a" 20, failing "c" 5]

def threeRulesBack : List ScoreItem := [failing "c" 5, failing "b" 30, failing "a" 40]

theorem score_of_three_rules :
    Alike (total (bestWeights threeRules)) (total (bestWeights threeRulesBack)) := by
  have finiteX : ∀ item ∈ threeRules, item.weight.isFinite := by decide +kernel
  have finiteY : ∀ item ∈ threeRulesBack, item.weight.isFinite := by decide +kernel
  have same : SameHighest threeRules threeRulesBack :=
    (sameHighest_iff_perm finiteX finiteY).mpr (by decide +kernel)
  have best : (bestWeights threeRules).map Prod.snd = [40, 30, 5] := by decide +kernel
  have values : Binary64.value 40 = 40 ∧ Binary64.value 30 = 30 ∧ Binary64.value 5 = 5 := by
    decide +kernel
  have free : OrderFree ((bestWeights threeRules).map Prod.snd) := by
    rw [best]
    apply OrderFree.of_whole
    · simp only [List.forall_mem_cons, values]
      exact ⟨⟨40, rfl⟩, ⟨30, rfl⟩, ⟨5, rfl⟩, by simp⟩
    · norm_num [values]
  exact ((score_in_any_order finiteX finiteY same (.refl _) (.refl _)).2 free).1

def tenths : List ScoreItem := [failing "a" 0.1, failing "b" 0.2, failing "c" 0.3]

/-- The weights 0.1, 0.2 and 0.3 have two sums, of which only one is greater than 0.6. -/
theorem tenths_score_by_order :
    (∀ item ∈ tenths, item.weight.isFinite) ∧ SameHighest tenths tenths.reverse ∧
      score tenths ≠ score tenths.reverse ∧
      Comparison.greater.holds (score tenths) 0.6 = true ∧
      Comparison.greater.holds (score tenths.reverse) 0.6 = false := by
  refine ⟨by decide +kernel, ?_, by decide +kernel, by decide +kernel, by decide +kernel⟩
  intro hash v
  have same : weights tenths hash = weights tenths.reverse hash := by
    simp [weights]
  rw [same]

end Composite

end AlertEngine
