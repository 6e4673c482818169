import AlertEngine.Composite.Basic
import AlertEngine.Proofs.EventIds
import Mathlib.Data.List.Nodup

/-! # What a scan may report

The items of a group, the highest weights of its rules and the groups themselves lie in hash tables.
The order in which these are gone through is left open; it decides how a score is rounded and how
the reports follow one another. `Composite.scan` keeps to one of the orders.

* `ScoreItem.IsScore`: what the highest weights of some items may add up to.
* `Composite.MayReport`: the reports of a scan, in any of the orders.
* `Composite.MayReport.map_perm`: what is read off reports without their scores is settled.
-/

namespace AlertEngine

/-- The weights are added in some order after the items have been taken in some order. -/
def ScoreItem.IsScore (items : List ScoreItem) (score : Float) : Prop :=
  ∃ (taken : List ScoreItem) (summands : List (String × Float)), taken.Perm items ∧
    summands.Perm (bestWeights taken) ∧ Binary64.sum (summands.map Prod.snd) = score

theorem ScoreItem.isScore_score (items : List ScoreItem) : IsScore items (score items) :=
  ⟨items, bestWeights items, .refl items, .refl (bestWeights items), rfl⟩

/-- What a report says apart from the score, the outcome and the time at which it is made. -/
def Event.unscored (e : Event) : Event :=
  { e with leftValue := 0, status := .ok, createdAt := .epoch }

namespace Composite

def reportScoring (c : Composite) (now : Instant) (key : String) (g : ScoreGroup) (score : Float) :
    Event :=
  { c.report now key g with
    leftValue := score
    status := if c.comparison.holds score c.strategy.rightValue then .problem else .ok }

theorem unscored_reportScoring (c : Composite) (now : Instant) (key : String) (g : ScoreGroup)
    (score : Float) :
    (c.reportScoring now key g score).unscored = (c.report .epoch key g).unscored := by
  simp only [Event.unscored, reportScoring, report]

/-- The reports of a scan that takes the groups, their items and their weights in some order. -/
def MayReport (c : Composite) (now : Instant) (events : List Event) : Prop :=
  ∃ (order : List (String × ScoreGroup)) (score : String × ScoreGroup → Float),
    order.Perm c.groups.toList ∧
    (∀ entry ∈ order, ScoreItem.IsScore (entry.2.items.toList.map Prod.snd) (score entry)) ∧
    events = order.map fun entry => c.reportScoring now entry.1 entry.2 (score entry)

theorem mayReport_scan (c : Composite) (now : Instant) : c.MayReport now (c.scan now).1 :=
  ⟨c.groups.toList, fun entry => entry.2.score, .refl c.groups.toList,
    fun _ _ => ScoreItem.isScore_score _, rfl⟩

variable {c : Composite} {now : Instant} {events : List Event} {key : String} {g : ScoreGroup}

namespace MayReport

theorem map_perm {α : Type} {read : Event → α} {told : String × ScoreGroup → α}
    (reports : c.MayReport now events)
    (settled : ∀ entry score, read (c.reportScoring now entry.1 entry.2 score) = told entry) :
    (events.map read).Perm (c.groups.toList.map told) := by
  obtain ⟨order, score, perm, -, rfl⟩ := reports
  have same : (order.map fun entry => c.reportScoring now entry.1 entry.2 (score entry)).map read =
      order.map told := by
    rw [List.map_map]
    exact List.map_congr_left fun entry _ => settled entry (score entry)
  rw [same]
  exact perm.map told

theorem ids_perm (reports : c.MayReport now events) :
    (events.map Event.id).Perm (c.groups.keys.map (idStart c.id ++ ·)) := by
  rw [← Std.ExtTreeMap.map_fst_toList_eq_keys, List.map_map]
  exact reports.map_perm fun _ _ => rfl

theorem nodup_ids (reports : c.MayReport now events) : (events.map Event.id).Nodup :=
  reports.ids_perm.nodup_iff.mpr
    (c.groups.nodup_keys.map fun _ _ same => (composite_idStart_append_inj.mp same).2)

theorem exists_mem (reports : c.MayReport now events) (found : c.groups[key]? = some g) :
    ∃ score, ScoreItem.IsScore (g.items.toList.map Prod.snd) score ∧
      c.reportScoring now key g score ∈ events := by
  obtain ⟨order, score, perm, scores, rfl⟩ := reports
  have listed : (key, g) ∈ order :=
    perm.mem_iff.mpr (Std.ExtTreeMap.mem_toList_iff_getElem?_eq_some.mpr found)
  exact ⟨score (key, g), scores (key, g) listed, List.mem_map_of_mem listed⟩

theorem mem_unscored_iff (reports : c.MayReport now events) {event : Event} :
    event ∈ events.map Event.unscored ↔
      ∃ key g, c.groups[key]? = some g ∧ event = (c.report .epoch key g).unscored := by
  have perm : (events.map Event.unscored).Perm
      (c.groups.toList.map fun entry => (c.report .epoch entry.1 entry.2).unscored) :=
    reports.map_perm fun entry => c.unscored_reportScoring now entry.1 entry.2
  simp only [perm.mem_iff, List.mem_map, Prod.exists,
    Std.ExtTreeMap.mem_toList_iff_getElem?_eq_some, eq_comm (b := event)]

end MayReport

end Composite

end AlertEngine
