import AlertEngine.Proofs.DoubleSums
import AlertEngine.Proofs.WrittenEvents

/-! # Events and their doubles

An event comes back from its line just when the doubles in it do, however deep they stand in its
fields. Nothing else of an event can get lost: neither its texts, its whole numbers and its time,
nor the tags and the fields that are left out where there are none.

* `Json.WellFormed`: the values that fields have; `Json.Holds`: the doubles that stand in a value.
* `Json.WellFormed.settled`, `Json.readsBack_of_holds`: a value comes back with its doubles, and its
  doubles with the value.
* `Json.readsBack_of_zero`: both zeros come back.
* `Event.read_iff_doubles_read`: an event and its doubles.
-/

namespace AlertEngine

/-! ## Doubles in values -/

namespace Json

variable {x : Float} {j : Json} {depth : Nat}

/-- The values of fields, with lists and objects nested at most so deep: whole numbers have 64 bits,
with a sign or without one, and objects have their keys once and in order. -/
inductive WellFormed : Nat → Json → Prop
  | null {depth : Nat} : WellFormed depth .null
  | bool {depth : Nat} (b : Bool) : WellFormed depth (.bool b)
  | whole {depth : Nat} {i : Int} (low : Int64.minValue.toInt ≤ i) (high : i ≤ UInt64.size - 1) :
    WellFormed depth (.whole i)
  | double {depth : Nat} (x : Float) : WellFormed depth (.double x)
  | text {depth : Nat} (s : String) : WellFormed depth (.text s)
  | list {depth : Nat} {items : List Json} (formed : ∀ v ∈ items, WellFormed depth v) :
    WellFormed (depth + 1) (.list items)
  | object {depth : Nat} {members : List (String × Json)}
    (ordered : (Dictionary.ofEntries members).toList = members)
    (formed : ∀ m ∈ members, WellFormed depth m.2) : WellFormed (depth + 1) (.object members)

inductive Holds (x : Float) : Json → Prop
  | double : Holds x (.double x)
  | item {items : List Json} {v : Json} (present : v ∈ items) (holds : Holds x v) :
    Holds x (.list items)
  | member {members : List (String × Json)} {m : String × Json} (present : m ∈ members)
    (holds : Holds x m.2) : Holds x (.object members)

/-- A value comes back if all of its doubles do. -/
theorem WellFormed.settled (formed : WellFormed depth j) (back : ∀ x, j.Holds x → ReadsBack x) :
    Settled depth j := by
  induction formed with
  | null => exact .null
  | bool b => exact .bool b
  | whole low high => exact .whole low high
  | double _ => exact .double (back _ .double)
  | text s => exact .text s
  | list _ inductionHypothesis =>
    exact .list fun v present =>
      inductionHypothesis v present fun x holds => back x (.item present holds)
  | object ordered _ inductionHypothesis =>
    exact .object ordered fun m present =>
      inductionHypothesis m present fun x holds => back x (.member present holds)

/-- Members of an object that comes back come back one by one. -/
theorem json?_of_member {members : List (String × Json)}
    (ordered : (Dictionary.ofEntries members).toList = members)
    (read : (tree (.object members)).json? (depth + 1) = some (.object members)) :
    ∀ m ∈ members, (tree m.2).json? depth = some m.2 := by
  intro m present
  rw [tree, Tree.json?, treeMembers_eq_map, Option.map_eq_some_iff] at read
  obtain ⟨entries, decoded, same⟩ := read
  rw [ofMembers, Json.object.injEq] at same
  have nodup : (members.map Prod.fst).Nodup := by
    rw [← ordered, Std.ExtTreeMap.map_fst_toList_eq_keys]
    exact (Dictionary.ofEntries members).nodup_keys
  have found : (Dictionary.ofEntries entries)[m.1]? = some m.2 := by
    rw [← Std.ExtTreeMap.mem_toList_iff_getElem?_eq_some, same]
    exact present
  obtain ⟨written, given, entry⟩ :=
    mem_of_mapM_eq_some decoded (Dictionary.mem_of_getElem?_ofEntries found)
  obtain ⟨other, presentOther, rfl⟩ := List.mem_map.mp given
  simp only [bind, Option.bind_eq_some_iff, pure, Option.some.injEq, Prod.mk.injEq] at entry
  obtain ⟨key, sameKey, value, decodedValue, rfl, rfl⟩ := entry
  have own : other = m := List.inj_on_of_nodup_map nodup presentOther present sameKey
  rwa [own] at decodedValue

/-- In a value that comes back all doubles do. -/
theorem readsBack_of_holds (holds : j.Holds x) (formed : WellFormed depth j)
    (back : (tree j).json? depth = some j) : ReadsBack x := by
  induction holds generalizing depth with
  | double => exact readsBack_of_json? back
  | item present _ inductionHypothesis =>
    cases formed with
    | list formed =>
      rw [tree, Tree.json?, treeItems_eq_map, Option.map_eq_some_iff] at back
      obtain ⟨items, read, same⟩ := back
      cases same
      exact inductionHypothesis (formed _ present) (forall_of_mapM_map_eq_some read _ present)
  | member present _ inductionHypothesis =>
    cases formed with
    | object ordered formed =>
      exact inductionHypothesis (formed _ present) (json?_of_member ordered back _ present)

theorem readsBack_of_zero (zero : (x == 0) = true) : ReadsBack x := by
  obtain ⟨s, parts⟩ := Binary64.beq_zero_iff.mp zero
  cases s with
  | positive =>
    have same : x = 0 := Binary64.parts_injective parts
    rw [same]
    decide +kernel
  | negative =>
    have same : x = -0 := Binary64.parts_injective parts
    rw [same]
    decide +kernel

end Json

/-! ## Doubles in events -/

namespace Event

variable {e : Event}

def Holds (e : Event) (x : Float) : Prop :=
  x = e.leftValue ∨ ∃ entry ∈ e.fields.toList, entry.2.Holds x

/-- An event is decoded from each of its lines as it was just when each of its doubles but the zeros
is read from its digits as it was. -/
theorem read_iff_doubles_read {line : String} (isLine : e.IsLine line)
    (formed : ∀ entry ∈ e.fields.toList, Json.WellFormed maxFieldDepth entry.2)
    (regular : e.createdAt.Regular) :
    ofText? line = some e ↔ ∀ x, e.Holds x → (x == 0) = false → Json.ReadsBack x := by
  rw [isLine.ofText?_eq]
  constructor
  · rintro read x (rfl | ⟨entry, present, holds⟩) _
    · exact (readsBack_of_ofText?_write read).1
    · have found := Std.ExtTreeMap.mem_toList_iff_getElem?_eq_some.mp present
      obtain ⟨v, same, decoded⟩ := fields_of_ofText?_write read found
      rw [found] at same
      cases same
      exact Json.readsBack_of_holds holds (formed entry present) decoded
  · intro back
    have allBack (x : Float) (holds : e.Holds x) : Json.ReadsBack x := by
      cases zero : x == 0 with
      | true => exact Json.readsBack_of_zero zero
      | false => exact back x holds zero
    exact ofText?_write (allBack _ (.inl rfl))
      (fun entry present => (formed entry present).settled fun x holds =>
        allBack x (.inr ⟨entry, present, holds⟩)) regular

def emptiedScores : Json := .list [.double 1.5, .whole (-5), .text "é\n"]

def emptied : Event where
  id := "m_9_all"
  status := .ok
  leftValue := -0.0
  step := 0
  strategyId := 9
  metric := "\"cpu\""
  endpoint := ""
  timestamp := -1
  fields := Dictionary.ofEntries
    [("scores", .object [("1_0", emptiedScores)]), ("threshold", .double 60)]
  createdAt := Instant.epoch

/-- The event comes back, with its tags in descending order too, and so does what is left of it
without its fields. -/
theorem emptied_comes_back :
    let tags : List (String × String) := [("host", "a"), ("endpoint", "web-01")]
    let tagged := { emptied with tags := Dictionary.ofEntries tags }
    ofText? emptied.write = some emptied ∧
      ofText? (String.ofList (Json.object (tagged.members.map (retag tags))).write) = some tagged ∧
      ofText? emptied.simplified.write = some emptied.simplified := by
  intro tags tagged
  have fields : ∀ entry ∈ emptied.fields.toList,
      entry = ("scores", .object [("1_0", emptiedScores)]) ∨ entry = ("threshold", .double 60) := by
    intro entry present
    have given := Dictionary.mem_of_getElem?_ofEntries
      (Std.ExtTreeMap.mem_toList_iff_getElem?_eq_some.mp present)
    simpa using given
  have formed : ∀ entry ∈ emptied.fields.toList, Json.WellFormed maxFieldDepth entry.2 := by
    intro entry present
    rcases fields entry present with rfl | rfl
    · refine .object rfl (List.forall_mem_singleton.mpr (.list ?_))
      simp only [List.forall_mem_cons, List.not_mem_nil, false_imp_iff, implies_true, and_true]
      exact ⟨.double 1.5, .whole (by decide) (by decide), .text "é\n"⟩
    · exact .double 60
  have back : ∀ x, emptied.Holds x → (x == 0) = false → Json.ReadsBack x := by
    rintro x (rfl | ⟨entry, present, holds⟩) nonzero
    · exact absurd nonzero (by decide +kernel)
    · rcases fields entry present with rfl | rfl
      · obtain - | - | ⟨inObject, holds⟩ := holds
        obtain rfl := List.mem_singleton.mp inObject
        obtain - | ⟨inList, holds⟩ | - := holds
        simp only [List.mem_cons, List.not_mem_nil, or_false] at inList
        rcases inList with rfl | rfl | rfl
        · cases holds
          decide +kernel
        · cases holds
        · cases holds
      · cases holds
        decide +kernel
  have noFields : emptied.simplified.fields.toList = [] := rfl
  refine ⟨(read_iff_doubles_read emptied.isLine_write formed (by decide)).mpr back, ?_, ?_⟩
  · have reversed : tags.Perm tagged.tags.toList :=
      (Dictionary.toList_ofEntries_perm (by decide)).symm
    exact (read_iff_doubles_read (e := tagged) ⟨tags, reversed, rfl⟩ formed (by decide)).mpr back
  · refine (read_iff_doubles_read emptied.simplified.isLine_write (fun entry present => ?_)
      (by decide)).mpr ?_
    · rw [noFields] at present
      cases present
    · rintro x (rfl | ⟨entry, present, holds⟩) nonzero
      · exact absurd nonzero (by decide +kernel)
      · rw [noFields] at present
        cases present

end Event

end AlertEngine
