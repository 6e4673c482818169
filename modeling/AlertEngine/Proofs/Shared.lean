import AlertEngine.Dictionary

/-! # Shared lemmas

Facts on which several theories rest and that are not about the engine itself.

* `bind_eq_ok_iff`, `bind_eq_error_iff`, `map_eq_error_iff`: a computation with errors succeeds when
  each of its parts does, and else passes on the first fault.
* `bind_of_eq_some`: a computation goes on with the value that its first part finds.
* `append_mark_inj_of_count`, `append_mark_inj`: texts with a mark in them.
* `exists_of_map_eq`: look-ups that agree in part.
* `mem_iff_exists_getElem?`, `mem_congr`: the keys of an ordered map.
* `nodup_toList`, `toList_filter_key`: the entries of an ordered map, as a list.
-/

namespace AlertEngine

open Std (TransCmp LawfulEqCmp ExtTreeMap)

/-! ## Computations that may fail -/

theorem bind_eq_ok_iff {ε α β : Type} {x : Except ε α} {f : α → Except ε β} {b : β} :
    x >>= f = .ok b ↔ ∃ a, x = .ok a ∧ f a = .ok b := by
  cases x with
  | error fault => simp [bind, Except.bind]
  | ok a => simp [bind, Except.bind]

theorem bind_eq_error_iff {ε α β : Type} {x : Except ε α} {f : α → Except ε β} {fault : ε} :
    x >>= f = .error fault ↔ x = .error fault ∨ ∃ a, x = .ok a ∧ f a = .error fault := by
  cases x with
  | error _ => simp [bind, Except.bind]
  | ok a => simp [bind, Except.bind]

theorem pure_eq_ok_iff {ε α : Type} {a b : α} : (pure a : Except ε α) = .ok b ↔ a = b := by
  simp [pure, Except.pure]

theorem map_eq_error_iff {ε α β : Type} {x : Except ε α} {f : α → β} {fault : ε} :
    x.map f = .error fault ↔ x = .error fault := by
  cases x <;> simp [Except.map]

theorem map_eq_ok_iff {ε α β : Type} {x : Except ε α} {f : α → β} {b : β} :
    x.map f = .ok b ↔ ∃ a, x = .ok a ∧ f a = b := by
  cases x <;> simp [Except.map]

theorem bind_of_eq_some {α β : Type} {x : Option α} {a : α} (found : x = some a)
    (f : α → Option β) : x >>= f = f a := by
  rw [found]
  rfl

/-! ## Texts with marks -/

/-- Two texts with a mark behind parts that have as many marks are equal part by part. -/
theorem append_mark_inj_of_count {mark : Char} {a b c d : List Char}
    (counts : a.count mark = b.count mark) (same : a ++ mark :: c = b ++ mark :: d) :
    a = b ∧ c = d := by
  induction a generalizing b with
  | nil =>
    cases b with
    | nil => exact ⟨rfl, (List.cons.inj same).2⟩
    | cons y b =>
      obtain ⟨rfl, -⟩ := List.cons.inj same
      rw [List.count_nil, List.count_cons_self] at counts
      omega
  | cons x a inductionHypothesis =>
    cases b with
    | nil =>
      obtain ⟨rfl, -⟩ := List.cons.inj same
      rw [List.count_nil, List.count_cons_self] at counts
      omega
    | cons y b =>
      obtain ⟨rfl, rest⟩ := List.cons.inj same
      rw [List.count_cons, List.count_cons, Nat.add_right_cancel_iff] at counts
      obtain ⟨rfl, behind⟩ := inductionHypothesis counts rest
      exact ⟨rfl, behind⟩

/-- Two texts with a mark behind parts that have none are equal part by part. -/
theorem append_mark_inj {mark : Char} {a b c d : List Char} (plain : mark ∉ a) (plain' : mark ∉ b)
    (same : a ++ mark :: c = b ++ mark :: d) : a = b ∧ c = d :=
  append_mark_inj_of_count
    ((List.count_eq_zero.mpr plain).trans (List.count_eq_zero.mpr plain').symm) same

/-! ## Values that agree in part -/

theorem exists_of_map_eq {α β : Type} {f : α → β} {x y : Option α} {a : α}
    (same : x.map f = y.map f) (found : x = some a) : ∃ b, y = some b ∧ f b = f a := by
  rw [found, Option.map_some, eq_comm, Option.map_eq_some_iff] at same
  exact same

/-! ## Entries of ordered maps -/

variable {α β : Type} {compare : α → α → Ordering} [TransCmp compare]

theorem mem_iff_exists_getElem? {map : ExtTreeMap α β compare} {key : α} :
    key ∈ map ↔ ∃ value, map[key]? = some value := by
  rw [ExtTreeMap.mem_iff_isSome_getElem?, Option.isSome_iff_exists]

/-- Maps that agree on a part of every value have the same keys. -/
theorem mem_congr {γ : Type} {f : β → γ} {map other : ExtTreeMap α β compare} {key : α}
    (same : (map[key]?).map f = (other[key]?).map f) : key ∈ map ↔ key ∈ other := by
  rw [ExtTreeMap.mem_iff_isSome_getElem?, ExtTreeMap.mem_iff_isSome_getElem?,
    ← Option.isSome_map (f := f), same, Option.isSome_map]

variable [LawfulEqCmp compare]

theorem nodup_toList (map : ExtTreeMap α β compare) : map.toList.Nodup :=
  map.distinct_keys_toList.imp fun distinct equal =>
    distinct (by rw [equal]; exact Std.ReflCmp.compare_self)

/-- The entries under one key are what the look-up finds. -/
theorem toList_filter_key [DecidableEq α] (map : ExtTreeMap α β compare) (key : α) :
    map.toList.filter (fun entry => entry.1 == key) = (map[key]?).toList.map (key, ·) := by
  have sameMembers : ∀ entry,
      entry ∈ map.toList.filter (fun entry => entry.1 == key) ↔
        entry ∈ (map[key]?).toList.map (key, ·) := by
    rintro ⟨a, b⟩
    simp only [List.mem_filter, ExtTreeMap.mem_toList_iff_getElem?_eq_some, beq_iff_eq,
      List.mem_map, Option.mem_toList, Prod.mk.injEq]
    constructor
    · rintro ⟨found, rfl⟩
      exact ⟨b, found, rfl, rfl⟩
    · rintro ⟨_, found, rfl, rfl⟩
      exact ⟨found, rfl⟩
  have nodup : (map.toList.filter fun entry => entry.1 == key).Nodup :=
    (nodup_toList map).filter _
  cases found : map[key]? with
  | none =>
    rw [found] at sameMembers
    exact List.eq_nil_iff_forall_not_mem.mpr fun entry member =>
      List.not_mem_nil ((sameMembers entry).mp member)
  | some value =>
    rw [found] at sameMembers
    exact List.perm_singleton.mp
      ((List.perm_ext_iff_of_nodup nodup (by simp)).mpr sameMembers)

end AlertEngine
