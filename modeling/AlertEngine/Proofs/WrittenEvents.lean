import AlertEngine.Event
import AlertEngine.Proofs.WrittenInstants
import AlertEngine.Proofs.WrittenJson

/-! # Events as they are written are read

The line of an event is decoded as the event again. What can go wrong is its numbers: a value that
is not finite is written as `null`, which is no value of an event, and a finite one comes back as
the double that its digits are read as.

* `Dictionary.ofEntries_of_perm`: a dictionary is made again from its entries.
* `Json.record?_tree`, `Json.lookup_members`: an object of known keys as a record.
* `Event.ofText?_write`: an event whose numbers read back is decoded as it was;
  `Event.ofText?_write_of_not_isFinite`: one with a value that is not finite is refused.
* `Event.IsLine`: the lines of an event, with its tags in any order; `Event.IsLine.ofText?_eq`: they
  are decoded alike.
-/

namespace AlertEngine

/-! ## Dictionaries -/

namespace Dictionary

variable {α : Type} {entries : List (String × α)} {key : String} {value : α}

theorem getElem?_ofEntries_snoc (entries : List (String × α)) (last : String × α) (key : String) :
    (ofEntries (entries ++ [last]))[key]? =
      if last.1 = key then some last.2 else (ofEntries entries)[key]? := by
  simp only [ofEntries, List.foldl_append, List.foldl_cons, List.foldl_nil,
    Std.ExtTreeMap.getElem?_insert, Std.compare_eq_iff_eq]

theorem mem_of_getElem?_ofEntries (found : (ofEntries entries)[key]? = some value) :
    (key, value) ∈ entries := by
  induction entries using List.reverseRecOn with
  | nil => simp [ofEntries] at found
  | append_singleton entries last inductionHypothesis =>
    rw [getElem?_ofEntries_snoc] at found
    rw [List.mem_append, List.mem_singleton]
    split at found
    · rename_i own
      cases found
      exact .inr (Prod.ext own.symm rfl)
    · exact .inl (inductionHypothesis found)

theorem getElem?_ofEntries_of_mem (nodup : (entries.map Prod.fst).Nodup)
    (member : (key, value) ∈ entries) : (ofEntries entries)[key]? = some value := by
  induction entries using List.reverseRecOn with
  | nil => cases member
  | append_singleton entries last inductionHypothesis =>
    rw [List.map_append, List.map_singleton, List.nodup_append] at nodup
    obtain ⟨before, -, apart⟩ := nodup
    rw [List.mem_append, List.mem_singleton] at member
    rw [getElem?_ofEntries_snoc]
    rcases member with earlier | rfl
    · have other := apart key (List.mem_map_of_mem earlier) last.1 (List.mem_singleton_self _)
      rw [if_neg (Ne.symm other), inductionHypothesis before earlier]
    · exact if_pos rfl

/-- Entries of different keys all stay. -/
theorem toList_ofEntries_perm (nodup : (entries.map Prod.fst).Nodup) :
    (ofEntries entries).toList.Perm entries := by
  rw [List.perm_ext_iff_of_nodup (nodup_toList _) nodup.of_map]
  intro entry
  rw [Std.ExtTreeMap.mem_toList_iff_getElem?_eq_some]
  exact ⟨mem_of_getElem?_ofEntries, getElem?_ofEntries_of_mem nodup⟩

/-- A dictionary is made again from its entries in any order. -/
theorem ofEntries_of_perm {d : Dictionary α} (perm : entries.Perm d.toList) :
    ofEntries entries = d := by
  apply Std.ExtTreeMap.ext_getElem?
  intro key
  have nodup : (entries.map Prod.fst).Nodup := by
    rw [(perm.map Prod.fst).nodup_iff, Std.ExtTreeMap.map_fst_toList_eq_keys]
    exact d.nodup_keys
  apply Option.ext
  intro value
  rw [← Std.ExtTreeMap.mem_toList_iff_getElem?_eq_some (t := d), ← perm.mem_iff]
  exact ⟨mem_of_getElem?_ofEntries, getElem?_ofEntries_of_mem nodup⟩

end Dictionary

/-! ## Records -/

namespace Json

variable {α : Type} {names : List String} {members : List (String × Json)} {name : String}

/-- An object whose keys are known and apart is a record of its members. -/
theorem record?_tree (known : ∀ m ∈ members, m.1 ∈ names)
    (nodup : (members.map Prod.fst).Nodup) :
    (tree (.object members)).record? names = some (members.map fun m => (m.1, tree m.2)) := by
  have fields : (members.map fun m => (some m.1, tree m.2)).mapM
      (fun m => m.1.map fun name => (name, m.2)) = some (members.map fun m => (m.1, tree m.2)) :=
    mapM_map fun _ _ => rfl
  have kept : (members.map fun m => (m.1, tree m.2)).filter (fun f => names.contains f.1) =
      members.map fun m => (m.1, tree m.2) := by
    rw [List.filter_eq_self]
    intro field member
    obtain ⟨m, present, rfl⟩ := List.mem_map.mp member
    exact List.contains_iff_mem.mpr (known m present)
  have keys : (members.map fun m => (m.1, tree m.2)).map (·.1) = members.map Prod.fst := by
    rw [List.map_map]
    rfl
  rw [tree, Tree.record?, treeMembers_eq_map, fields]
  simp only [bind, Option.bind_some, kept, keys, nodup, if_true]

/-- A field of the record is the member of that name. -/
theorem lookup_members (nodup : (members.map Prod.fst).Nodup) {v : Json}
    (member : (name, v) ∈ members) :
    (members.map fun m => (m.1, tree m.2)).lookup name = some (tree v) := by
  induction members with
  | nil => cases member
  | cons m ms inductionHypothesis =>
    rw [List.map_cons, List.nodup_cons] at nodup
    rw [List.map_cons, List.lookup_cons]
    rcases List.mem_cons.mp member with rfl | later
    · rw [beq_self_eq_true]
    · have apart : name ≠ m.1 := fun same =>
        nodup.1 (same ▸ List.mem_map_of_mem later)
      rw [beq_false_of_ne apart]
      exact inductionHypothesis nodup.2 later

theorem lookup_members_eq_none (missing : name ∉ members.map Prod.fst) :
    (members.map fun m => (m.1, tree m.2)).lookup name = none := by
  rw [List.lookup_eq_none_iff]
  intro field member
  obtain ⟨m, present, rfl⟩ := List.mem_map.mp member
  rw [bne_iff_ne]
  exact fun same => missing (same ▸ List.mem_map_of_mem present)

/-- Every value of a decoded dictionary is decoded from a member of that key. -/
theorem exists_member_of_dictionary? {decode : Tree → Option α} {t : Tree} {d : Dictionary α}
    (read : t.dictionary? decode = some d) {key : String} {x : α} (found : d[key]? = some x) :
    ∃ members, t = .object members ∧ ∃ m ∈ members, m.1 = some key ∧ decode m.2 = some x := by
  rw [Tree.dictionary?, Option.map_eq_some_iff] at read
  obtain ⟨entries, readEntries, rfl⟩ := read
  have member := Dictionary.mem_of_getElem?_ofEntries found
  cases t with
  | object members =>
    obtain ⟨m, present, decoded⟩ := mem_of_mapM_eq_some readEntries member
    simp only [bind, Option.bind_eq_some_iff, pure, Option.some.injEq, Prod.mk.injEq] at decoded
    obtain ⟨k, named, y, decodedValue, rfl, rfl⟩ := decoded
    exact ⟨members, rfl, m, present, named, decodedValue⟩
  | null => cases readEntries
  | bool b => cases readEntries
  | number n => cases readEntries
  | text s => cases readEntries
  | list items => cases readEntries

/-- What is read off a written dictionary is read off its values, each under its key. -/
theorem getElem?_of_dictionary?_tree {decode : Tree → Option α} {d : Dictionary Json}
    {read : Dictionary α} (decoded : (tree (.object d.toList)).dictionary? decode = some read)
    {key : String} {x : α} (found : read[key]? = some x) :
    ∃ v, d[key]? = some v ∧ decode (tree v) = some x := by
  obtain ⟨members, same, m, member, named, decodedValue⟩ :=
    exists_member_of_dictionary? decoded found
  rw [tree, treeMembers_eq_map, Tree.object.injEq] at same
  subst same
  obtain ⟨⟨k, v⟩, present, rfl⟩ := List.mem_map.mp member
  cases named
  exact ⟨v, Std.ExtTreeMap.mem_toList_iff_getElem?_eq_some.mp present, decodedValue⟩

/-- A dictionary whose values come back comes back, in whatever order its entries are written. -/
theorem dictionary?_tree {decode : Tree → Option α} {encode : α → Json} {d : Dictionary α}
    {entries : List (String × α)} (perm : entries.Perm d.toList)
    (decodes : ∀ entry ∈ d.toList, decode (tree (encode entry.2)) = some entry.2) :
    (tree (.object (entries.map fun entry => (entry.1, encode entry.2)))).dictionary? decode =
      some d := by
  have each : ∀ entry ∈ entries, (do
      return (← (some entry.1 : Option String), ← decode (tree (encode entry.2))) :
        Option (String × α)) = some entry :=
    fun entry member => by rw [decodes entry (perm.subset member)]; rfl
  rw [Tree.dictionary?, tree, Tree.entries?, treeMembers_eq_map, List.map_map]
  exact (congrArg _ (mapM_map_eq_some each)).trans
    (congrArg some (Dictionary.ofEntries_of_perm perm))

theorem int64?_ofInt (i : Int64) : (tree (.whole i.toInt)).int64? = some i := by
  rw [tree, Tree.int64?, integer?_ofInt (Int64.minValue_le_toInt i) (Int64.toInt_le i)]
  simp

theorem uint32?_ofNat (n : UInt32) : (tree (.whole n.toNat)).uint32? = some n := by
  have small : n.toNat < UInt32.size := n.toNat_lt_size
  rw [tree, Tree.uint32?, integer?_ofInt (Int.natCast_nonneg _) (by omega)]
  simp

end Json

/-! ## Events -/

namespace Status

theorem ofName?_name (s : Status) : ofName? s.name = some s := by
  cases s <;> decide

end Status

namespace Event

variable {e : Event}

def keys : List String :=
  ["id", "status", "left_value", "step", "strategy_id", "metric", "endpoint", "timestamp", "tags",
    "fields", "created_at"]

theorem map_fst_members (e : Event) :
    e.members.map Prod.fst =
      ["id", "status", "left_value", "step", "strategy_id", "metric", "endpoint", "timestamp"] ++
        (if e.tags.isEmpty then [] else ["tags"]) ++
          (if e.fields.isEmpty then [] else ["fields"]) ++ ["created_at"] := by
  rw [members]
  split <;> split <;> rfl

/-- The keys of an event stand in the order of the record, where two of them may be left out. -/
theorem keys_members (e : Event) : (e.members.map Prod.fst).Sublist keys := by
  rw [map_fst_members]
  cases e.tags.isEmpty <;> cases e.fields.isEmpty <;> decide

theorem not_mem_keys_members (e : Event) :
    (e.tags.isEmpty = true → "tags" ∉ e.members.map Prod.fst) ∧
      (e.fields.isEmpty = true → "fields" ∉ e.members.map Prod.fst) := by
  rw [map_fst_members]
  cases e.tags.isEmpty <;> cases e.fields.isEmpty <;> decide

theorem nodup_members (e : Event) : (e.members.map Prod.fst).Nodup :=
  (keys_members e).nodup (by decide)

def written (e : Event) : Json.Record := e.members.map fun m => (m.1, Json.tree m.2)

theorem ofText?_object (members : List (String × Json)) :
    ofText? (String.ofList (Json.object members).write) = ofTree? (Json.tree (.object members)) := by
  rw [ofText?, String.toList_ofList, Json.ofText?_write]
  rfl

theorem record?_members (e : Event) :
    (Json.tree (.object e.members)).record? keys = some e.written :=
  Json.record?_tree (fun _ member => (keys_members e).subset (List.mem_map_of_mem member))
    (nodup_members e)

theorem required?_written {α : Type} {name : String} {v : Json} (member : (name, v) ∈ e.members)
    (decode : Json.Tree → Option α) : e.written.required? name decode = decode (Json.tree v) := by
  rw [Json.Record.required?, written, Json.lookup_members (nodup_members e) member]
  rfl

/-- A dictionary of an event comes back also when it is left out because it is empty. -/
theorem withDefault?_written {α : Type} {name : String} {d : Dictionary α} (encode : α → Json)
    {decode : Json.Tree → Option α}
    (member : d.isEmpty = false →
      (name, .object (d.toList.map fun entry => (entry.1, encode entry.2))) ∈ e.members)
    (missing : d.isEmpty = true → name ∉ e.members.map Prod.fst)
    (decodes : ∀ entry ∈ d.toList, decode (Json.tree (encode entry.2)) = some entry.2) :
    e.written.withDefault? name ∅ (Json.Tree.dictionary? decode) = some d := by
  rw [Json.Record.withDefault?, written]
  cases empty : d.isEmpty with
  | true =>
    rw [Json.lookup_members_eq_none (missing empty)]
    exact congrArg some (Std.ExtTreeMap.isEmpty_iff.mp empty).symm
  | false =>
    rw [Json.lookup_members (nodup_members e) (member empty)]
    exact Json.dictionary?_tree (.refl _) decodes

theorem tags_written (e : Event) :
    e.written.withDefault? "tags" ∅ (Json.Tree.dictionary? Json.Tree.text?) = some e.tags := by
  refine withDefault?_written .text (fun present => ?_) (not_mem_keys_members e).1
    fun _ _ => rfl
  simp [members, present]

theorem fields_written (settled : ∀ entry ∈ e.fields.toList, Json.Settled maxFieldDepth entry.2) :
    e.written.withDefault? "fields" ∅ (Json.Tree.dictionary? (Json.Tree.json? maxFieldDepth)) =
      some e.fields := by
  refine withDefault?_written (fun v => v) (fun present => ?_) (not_mem_keys_members e).2
    fun entry member => (settled entry member).json?_tree
  simp [members, present]

theorem text_written {name s : String} (member : (name, Json.text s) ∈ e.members) :
    e.written.required? name Json.Tree.text? = some s := required?_written member _

theorem id_written (e : Event) : e.written.required? "id" Json.Tree.text? = some e.id :=
  text_written (by simp [members])

theorem status_written (e : Event) :
    e.written.required? "status" Status.ofTree? = some e.status :=
  (required?_written (v := .text e.status.name) (by simp [members]) _).trans
    (Status.ofName?_name e.status)

theorem leftValue_written (e : Event) :
    e.written.required? "left_value" Json.Tree.float? =
      (Json.tree (.ofFloat e.leftValue)).float? :=
  required?_written (by simp [members]) _

theorem step_written (e : Event) : e.written.required? "step" Json.Tree.uint32? = some e.step :=
  (required?_written (v := .whole e.step.toNat) (by simp [members]) _).trans
    (Json.uint32?_ofNat e.step)

theorem strategyId_written (e : Event) :
    e.written.required? "strategy_id" Json.Tree.int64? = some e.strategyId :=
  (required?_written (v := .whole e.strategyId.toInt) (by simp [members]) _).trans
    (Json.int64?_ofInt e.strategyId)

theorem timestamp_written (e : Event) :
    e.written.required? "timestamp" Json.Tree.int64? = some e.timestamp :=
  (required?_written (v := .whole e.timestamp.toInt) (by simp [members]) _).trans
    (Json.int64?_ofInt e.timestamp)

theorem createdAt_written (regular : e.createdAt.Regular) :
    (e.written.required? "created_at" fun t => do Instant.read? (← t.text?).toList) =
      some e.createdAt := by
  rw [required?_written (v := .text (String.ofList e.createdAt.write)) (by simp [members])]
  refine (bind_of_eq_some rfl _).trans ?_
  rw [String.toList_ofList]
  exact Instant.read?_write regular

/-- The line of an event is decoded as the event, where its numbers read back. -/
theorem ofText?_write (back : Json.ReadsBack e.leftValue)
    (settled : ∀ entry ∈ e.fields.toList, Json.Settled maxFieldDepth entry.2)
    (regular : e.createdAt.Regular) : ofText? e.write = some e := by
  have leftValue := leftValue_written e
  rw [back.ofFloat, back] at leftValue
  rw [write, ofText?_object, ofTree?]
  refine (bind_of_eq_some (record?_members e) _).trans ?_
  refine (bind_of_eq_some (id_written e) _).trans ?_
  refine (bind_of_eq_some (status_written e) _).trans ?_
  refine (bind_of_eq_some leftValue _).trans ?_
  refine (bind_of_eq_some (step_written e) _).trans ?_
  refine (bind_of_eq_some (strategyId_written e) _).trans ?_
  refine (bind_of_eq_some (text_written (s := e.metric) (by simp [members])) _).trans ?_
  refine (bind_of_eq_some (text_written (s := e.endpoint) (by simp [members])) _).trans ?_
  refine (bind_of_eq_some (timestamp_written e) _).trans ?_
  refine (bind_of_eq_some (tags_written e) _).trans ?_
  refine (bind_of_eq_some (fields_written settled) _).trans ?_
  exact bind_of_eq_some (createdAt_written regular) _

/-- The value and the fields of the event that is decoded from a line are read off the ones that
were written. -/
theorem parts_of_ofText?_write {d : Event} (read : ofText? e.write = some d) :
    (Json.tree (.ofFloat e.leftValue)).float? = some d.leftValue ∧
      e.written.withDefault? "fields" ∅
        (Json.Tree.dictionary? (Json.Tree.json? maxFieldDepth)) = some d.fields := by
  rw [write, ofText?_object] at read
  simp only [ofTree?, bind, Option.bind_eq_some_iff, pure, Option.some.injEq] at read
  obtain ⟨record, members, _, _, _, _, leftValue, found, _, _, _, _, _, _, _, _, _, _, _, _, fields,
    foundFields, _, _, rfl⟩ := read
  have same : record = e.written := Option.some.inj (members.symm.trans (record?_members e))
  rw [same, leftValue_written] at found
  rw [same] at foundFields
  exact ⟨found, foundFields⟩

/-- A field of the event that is decoded from a line is decoded from the field of that key. -/
theorem fields_of_ofText?_write {d : Event} (read : ofText? e.write = some d) {key : String}
    {x : Json} (found : d.fields[key]? = some x) :
    ∃ v, e.fields[key]? = some v ∧ (Json.tree v).json? maxFieldDepth = some x := by
  have fields := (parts_of_ofText?_write read).2
  rw [Json.Record.withDefault?, written] at fields
  cases empty : e.fields.isEmpty with
  | true =>
    rw [Json.lookup_members_eq_none ((not_mem_keys_members e).2 empty)] at fields
    rw [← Option.some.inj fields] at found
    simp at found
  | false =>
    have member : ("fields", Json.object e.fields.toList) ∈ e.members := by simp [members, empty]
    rw [Json.lookup_members (nodup_members e) member] at fields
    exact Json.getElem?_of_dictionary?_tree fields found

/-- An event comes back only if its value and the doubles among its fields do. -/
theorem readsBack_of_ofText?_write (read : ofText? e.write = some e) :
    Json.ReadsBack e.leftValue ∧
      ∀ (key : String) (x : Float), e.fields[key]? = some (.double x) → Json.ReadsBack x := by
  constructor
  · have back := (parts_of_ofText?_write read).1
    rw [Json.ofFloat] at back
    split at back
    · exact back
    · cases back
  · intro key x found
    obtain ⟨v, same, decoded⟩ := fields_of_ofText?_write read found
    rw [found] at same
    cases same
    exact Json.readsBack_of_json? decoded

/-- The line of an event whose value is not finite is refused. -/
theorem ofText?_write_of_not_isFinite (infinite : e.leftValue.isFinite = false) :
    ofText? e.write = none := by
  cases read : ofText? e.write with
  | none => rfl
  | some d =>
    have back := (parts_of_ofText?_write read).1
    rw [Json.ofFloat, infinite] at back
    cases back

/-! ## Tags in any order -/

def retag (tags : List (String × String)) (m : String × Json) : String × Json :=
  if m.1 = "tags" then (m.1, .object (tags.map fun t => (t.1, .text t.2))) else m

/-- The tags of an event lie in a hash table, so a line of the event has them in any order. -/
def IsLine (e : Event) (line : String) : Prop :=
  ∃ tags : List (String × String), tags.Perm e.tags.toList ∧
    line = String.ofList (Json.object (e.members.map (retag tags))).write

theorem isLine_write (e : Event) : e.IsLine e.write := by
  refine ⟨e.tags.toList, .refl _, ?_⟩
  have own : e.members.map (retag e.tags.toList) = e.members := by
    rw [members]
    split <;> split <;> rfl
  rw [own, write]

variable {tags : List (String × String)}

theorem map_fst_retag (tags : List (String × String)) (members : List (String × Json)) :
    (members.map (retag tags)).map Prod.fst = members.map Prod.fst := by
  rw [List.map_map]
  refine List.map_congr_left fun m _ => ?_
  rw [Function.comp_apply, retag]
  split
  · rfl
  · rfl

theorem lookup_retag {name : String} (other : name ≠ "tags") (members : List (String × Json)) :
    ((members.map (retag tags)).map fun m => (m.1, Json.tree m.2)).lookup name =
      (members.map fun m => (m.1, Json.tree m.2)).lookup name := by
  induction members with
  | nil => rfl
  | cons m ms inductionHypothesis =>
    rw [List.map_cons, List.map_cons, List.map_cons, List.lookup_cons, List.lookup_cons,
      inductionHypothesis]
    by_cases own : m.1 = "tags"
    · rw [retag, if_pos own, own, beq_false_of_ne other]
    · rw [retag, if_neg own]

/-- The tags are read as they were, whatever their order. -/
theorem tags_retag (perm : tags.Perm e.tags.toList) :
    Json.Record.withDefault? ((e.members.map (retag tags)).map fun m => (m.1, Json.tree m.2)) "tags"
      ∅ (Json.Tree.dictionary? Json.Tree.text?) = some e.tags := by
  rw [Json.Record.withDefault?]
  cases empty : e.tags.isEmpty with
  | true =>
    rw [Json.lookup_members_eq_none
      (by rw [map_fst_retag]; exact (not_mem_keys_members e).1 empty)]
    exact congrArg some (Std.ExtTreeMap.isEmpty_iff.mp empty).symm
  | false =>
    have member : ("tags", Json.object (tags.map fun t => (t.1, .text t.2))) ∈
        e.members.map (retag tags) := by
      refine List.mem_map.mpr
        ⟨("tags", .object (e.tags.toList.map fun t => (t.1, .text t.2))), ?_, rfl⟩
      simp [members, empty]
    rw [Json.lookup_members (by rw [map_fst_retag]; exact nodup_members e) member]
    exact Json.dictionary?_tree perm fun _ _ => rfl

/-- An event is decoded from the fields of its record alone. -/
theorem ofTree?_congr {t u : Json.Tree} {r s : Json.Record} (first : t.record? keys = some r)
    (second : u.record? keys = some s) (others : ∀ name ≠ "tags", r.lookup name = s.lookup name)
    (tags : r.withDefault? "tags" ∅ (Json.Tree.dictionary? Json.Tree.text?) =
      s.withDefault? "tags" ∅ (Json.Tree.dictionary? Json.Tree.text?)) :
    ofTree? t = ofTree? u := by
  have required {α : Type} (name : String) (other : name ≠ "tags") (decode : Json.Tree → Option α) :
      r.required? name decode = s.required? name decode := by
    rw [Json.Record.required?, others name other, Json.Record.required?]
  have fields {α : Type} (default : α) (decode : Json.Tree → Option α) :
      r.withDefault? "fields" default decode = s.withDefault? "fields" default decode := by
    rw [Json.Record.withDefault?, others "fields" (by decide), Json.Record.withDefault?]
  rw [keys] at first second
  simp only [ofTree?, first, second, bind, Option.bind_some, tags, fields,
    required "id" (by decide), required "status" (by decide), required "left_value" (by decide),
    required "step" (by decide), required "strategy_id" (by decide), required "metric" (by decide),
    required "endpoint" (by decide), required "timestamp" (by decide),
    required "created_at" (by decide)]

/-- All lines of an event are decoded alike. -/
theorem IsLine.ofText?_eq {line : String} (isLine : e.IsLine line) :
    ofText? line = ofText? e.write := by
  obtain ⟨tags, perm, rfl⟩ := isLine
  have record : (Json.tree (.object (e.members.map (retag tags)))).record? keys =
      some ((e.members.map (retag tags)).map fun m => (m.1, Json.tree m.2)) := by
    refine Json.record?_tree (fun m member => (keys_members e).subset ?_) ?_
    · rw [← map_fst_retag tags]
      exact List.mem_map_of_mem member
    · rw [map_fst_retag]
      exact nodup_members e
  rw [write, ofText?_object, ofText?_object]
  exact ofTree?_congr record (record?_members e) (fun name other => lookup_retag other e.members)
    ((tags_retag perm).trans (tags_written e).symm)

end Event

end AlertEngine
