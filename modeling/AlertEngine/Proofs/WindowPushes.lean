import AlertEngine.SlidingWindow
import Mathlib.Data.List.Induction

/-! # Windows after many pushes

A window compares a sample with its newest one alone, and forgets what goes beyond its limit. Still
it tells whether a sample is older than any that has ever been pushed, and it holds the latest of
those that it has accepted.

* `SlidingWindow.push`, `pushAll`: one push, and a sequence of them.
* `accepted`: the samples of a sequence that are accepted, the last one first.
* `pushAll_eq`: the window is cut off from them.
* `isTimely`, `isLate_pushAll`: a sample is accepted if no earlier push is newer, accepted or not.
* `window_after_pushes`: both, with the order, the length and the newest sample of the window.
-/

namespace AlertEngine.SlidingWindow

/-! ## Pushes -/

def push (w : SlidingWindow) (s : Sample) : SlidingWindow := (w.push? s).getD w

def pushAll (w : SlidingWindow) (samples : List Sample) : SlidingWindow := samples.foldl push w

def accepted (w : SlidingWindow) : List Sample → List Sample
  | [] => []
  | s :: later => (w.push s).accepted later ++ if (w.push? s).isSome then [s] else []

/-- Whether a sample is at least as new as all that have been pushed before. A window without room
compares nothing. -/
def isTimely (limit : Nat) (before : List Sample) (s : Sample) : Bool :=
  limit = 0 || before.all fun earlier => earlier.timestamp ≤ s.timestamp

variable {samples : List Sample} {limit : Nat}

theorem pushAll_cons (w : SlidingWindow) (first : Sample) (samples : List Sample) :
    w.pushAll (first :: samples) = (w.push first).pushAll samples := rfl

theorem pushAll_snoc (w : SlidingWindow) (samples : List Sample) (s : Sample) :
    w.pushAll (samples ++ [s]) = (w.pushAll samples).push s := by
  rw [pushAll, List.foldl_append]
  rfl

theorem accepted_snoc (w : SlidingWindow) (samples : List Sample) (s : Sample) :
    w.accepted (samples ++ [s]) =
      if ((w.pushAll samples).push? s).isSome then s :: w.accepted samples
      else w.accepted samples := by
  induction samples generalizing w with
  | nil => cases pushed : (w.push? s).isSome <;> simp [accepted, pushAll, pushed]
  | cons first samples inductionHypothesis =>
    rw [List.cons_append, accepted, accepted, inductionHypothesis, pushAll_cons]
    split
    · rfl
    · rfl

theorem accepted_subset (w : SlidingWindow) (samples : List Sample) :
    w.accepted samples ⊆ samples := by
  induction samples generalizing w with
  | nil => exact List.Subset.refl _
  | cons first samples inductionHypothesis =>
    intro s member
    rw [accepted, List.mem_append] at member
    rcases member with later | own
    · exact List.mem_cons_of_mem first (inductionHypothesis (w.push first) later)
    · rw [List.mem_ite_nil_right, List.mem_singleton] at own
      rw [own.2]
      exact List.mem_cons_self

/-! ## What is held -/

/-- The newest sample is kept as long as there is room for one. -/
theorem newest?_take (positive : 0 < limit) (taken : List Sample) :
    (⟨limit, taken.take limit⟩ : SlidingWindow).newest? = taken.head? := by
  rw [newest?, List.head?_take, if_neg (Nat.ne_of_gt positive)]

/-- Cutting off before a push or after it gives the same window. -/
theorem take_cons_take (limit : Nat) (s : Sample) (taken : List Sample) :
    (s :: taken.take limit).take limit = (s :: taken).take limit := by
  cases limit with
  | zero => rfl
  | succ n => rw [List.take_succ_cons, List.take_succ_cons, List.take_take,
      Nat.min_eq_left (Nat.le_succ n)]

theorem pushAll_eq (limit : Nat) (samples : List Sample) :
    pushAll { limit := limit } samples =
      ⟨limit, (accepted { limit := limit } samples).take limit⟩ := by
  induction samples using List.reverseRecOn with
  | nil => simp [pushAll, accepted]
  | append_singleton samples s inductionHypothesis =>
    rw [pushAll_snoc, accepted_snoc, push, inductionHypothesis, push?]
    cases isLate ⟨limit, (accepted { limit := limit } samples).take limit⟩ s.timestamp with
    | true => rfl
    | false => simp [take_cons_take]

/-! ## What is late -/

/-- The sample accepted last is at least as new as every sample pushed so far: one that was refused
was older than another one. -/
theorem newest_accepted (positive : 0 < limit) {earlier : Sample} (pushed : earlier ∈ samples) :
    ∃ newest, (accepted { limit := limit } samples).head? = some newest ∧
      earlier.timestamp ≤ newest.timestamp := by
  induction samples using List.reverseRecOn with
  | nil => cases pushed
  | append_singleton samples s inductionHypothesis =>
    rw [accepted_snoc, pushAll_eq, push?]
    rw [List.mem_append, List.mem_singleton] at pushed
    cases late : isLate ⟨limit, (accepted { limit := limit } samples).take limit⟩ s.timestamp with
    | true =>
      simp only [if_true, Option.isSome_none, Bool.false_eq_true, if_false]
      rcases pushed with before | rfl
      · exact inductionHypothesis before
      · rw [isLate, newest?_take positive] at late
        cases newest : (accepted { limit := limit } samples).head? with
        | none =>
          rw [newest] at late
          cases late
        | some newer =>
          rw [newest] at late
          exact ⟨newer, rfl, Int64.le_of_lt (of_decide_eq_true late)⟩
    | false =>
      simp only [Bool.false_eq_true, if_false, Option.isSome_some, if_true, List.head?_cons]
      refine ⟨s, rfl, ?_⟩
      rcases pushed with before | rfl
      · obtain ⟨newest, found, newer⟩ := inductionHypothesis before
        rw [isLate, newest?_take positive, found, decide_eq_false_iff_not, Int64.not_lt] at late
        exact Int64.le_trans newer late
      · exact Int64.le_refl _

theorem isLate_pushAll (limit : Nat) (samples : List Sample) (s : Sample) :
    (pushAll { limit := limit } samples).isLate s.timestamp = !isTimely limit samples s := by
  rw [pushAll_eq]
  rcases Nat.eq_zero_or_pos limit with rfl | positive
  · rfl
  · have room : (decide (limit = 0)) = false := decide_eq_false (Nat.ne_of_gt positive)
    rw [isLate, newest?_take positive, isTimely, room, Bool.false_or]
    cases newest : (accepted { limit := limit } samples).head? with
    | none =>
      have nothing : samples = [] := List.eq_nil_iff_forall_not_mem.mpr fun earlier pushed => by
        obtain ⟨_, found, _⟩ := newest_accepted positive pushed
        rw [newest] at found
        cases found
      rw [nothing]
      rfl
    | some newer =>
      -- The one sample that is compared has been pushed, and it is the newest of all.
      have pushed : newer ∈ samples := accepted_subset _ _ (List.mem_of_head? newest)
      rw [Bool.eq_iff_iff, decide_eq_true_eq, Bool.not_eq_true', ← Bool.not_eq_true,
        List.all_eq_true, ← Int64.not_le, not_iff_not]
      constructor
      · intro inOrder earlier member
        obtain ⟨_, found, least⟩ := newest_accepted positive member
        rw [newest, Option.some.injEq] at found
        rw [decide_eq_true_eq]
        exact Int64.le_trans least (found ▸ inOrder)
      · exact fun every => of_decide_eq_true (every newer pushed)

/-- Accepted samples do not grow older. -/
theorem pairwise_accepted (positive : 0 < limit) (samples : List Sample) :
    (accepted { limit := limit } samples).Pairwise fun newer older =>
      older.timestamp ≤ newer.timestamp := by
  induction samples using List.reverseRecOn with
  | nil => exact List.Pairwise.nil
  | append_singleton samples s inductionHypothesis =>
    rw [accepted_snoc]
    split
    · rename_i taken
      refine List.Pairwise.cons (fun older member => ?_) inductionHypothesis
      rw [← Option.ne_none_iff_isSome, ne_eq, push?_eq_none_iff, isLate_pushAll, isTimely,
        decide_eq_false (Nat.ne_of_gt positive), Bool.false_or, Bool.not_eq_true',
        Bool.not_eq_false, List.all_eq_true] at taken
      exact of_decide_eq_true (taken older (accepted_subset _ _ member))
    · exact inductionHypothesis

/-- After any sequence of pushes, a sample is accepted if it is at least as new as every sample
pushed before, accepted or not, and a sample that is refused changes nothing. The window holds the
samples accepted last, as many as it has room for, in the order of their times with the newest one
first; it is full when at least that many have been accepted. -/
theorem window_after_pushes (limit : Nat) (samples : List Sample) :
    let w := pushAll { limit := limit } samples
    let taken := accepted { limit := limit } samples
    (∀ s, w.push? s =
      if isTimely limit samples s then some { w with samples := (s :: w.samples).take limit }
      else none) ∧
    (∀ s, w.push s =
      if isTimely limit samples s then { w with samples := (s :: w.samples).take limit }
      else w) ∧
    (∀ s, accepted { limit := limit } (samples ++ [s]) =
      if isTimely limit samples s then s :: taken else taken) ∧
    w.limit = limit ∧ w.samples = taken.take limit ∧
    (w.samples.Pairwise fun newer older => older.timestamp ≤ newer.timestamp) ∧
    w.samples.length ≤ limit ∧
    (w.isFull = true ↔ min limit taken.length = limit) ∧
    w.newest? = if limit = 0 then none else taken.head? := by
  intro w taken
  have held : w = ⟨limit, taken.take limit⟩ := pushAll_eq limit samples
  have pushed (s : Sample) : w.push? s =
      if isTimely limit samples s then some { w with samples := (s :: w.samples).take limit }
      else none := by
    have size : w.limit = limit := congrArg SlidingWindow.limit held
    rw [push?, isLate_pushAll, size]
    cases isTimely limit samples s <;> rfl
  refine ⟨pushed, fun s => ?_, fun s => ?_, congrArg SlidingWindow.limit held,
    congrArg SlidingWindow.samples held, ?_, ?_, ?_, ?_⟩
  · rw [push, pushed]
    cases isTimely limit samples s <;> rfl
  · rw [accepted_snoc, pushed]
    cases isTimely limit samples s <;> rfl
  · rw [held]
    rcases Nat.eq_zero_or_pos limit with rfl | positive
    · exact List.Pairwise.nil
    · exact (pairwise_accepted positive samples).take
  · rw [held]
    exact List.length_take_le limit taken
  · rw [held, isFull, decide_eq_true_eq, List.length_take]
    exact ⟨Nat.le_antisymm (Nat.min_le_left _ _), Nat.le_of_eq ∘ Eq.symm⟩
  · rw [held]
    rcases Nat.eq_zero_or_pos limit with rfl | positive
    · rfl
    · rw [newest?_take positive, if_neg (Nat.ne_of_gt positive)]

/-- An older sample is refused, an equally old one is accepted and pushes the first one out. -/
example :
    let pushes : List Sample := [⟨1, 10⟩, ⟨2, 9⟩, ⟨3, 10⟩, ⟨4, 12⟩]
    (pushAll { limit := 2 } pushes).samples = [⟨4, 12⟩, ⟨3, 10⟩] ∧
      accepted { limit := 2 } pushes = [⟨4, 12⟩, ⟨3, 10⟩, ⟨1, 10⟩] := by
  decide +kernel

end AlertEngine.SlidingWindow
