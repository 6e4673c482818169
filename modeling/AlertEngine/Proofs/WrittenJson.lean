import AlertEngine.Json.Record
import AlertEngine.Proofs.Shared
import AlertEngine.Proofs.WrittenNumbers

/-! # Values as they are written are read

The text of a value is read as the tree of that text, and the tree of a value that the decoder may
give is decoded as that value again.

* `quoted?_quote`: a text in quotes is read back, whatever characters it has.
* `tree`: what is read off the text of a value; `readsWritten`, `ofText?_write`.
* `ReadsBack`: doubles whose text is read as the same double. The reader does not round to the
  nearest double, so not all do.
* `Settled`, `Settled.json?_tree`: values that come back as they were.
-/

namespace AlertEngine.Json

variable {rest : List Char}

/-! ## Texts -/

theorem units?_escaped (c : Char) (before : List Nat) (s : List Char) :
    units? before (escape c ++ s) = units? (c.toNat :: before) s := by
  have control : ∀ n < 0x20,
      hex? ['0', '0', Nat.digitChar (n / 16), Nat.digitChar (n % 16)] = some n := by decide
  unfold escape
  split
  · rename_i same
    rw [same]
    exact units?_escape rfl before s
  split
  · rename_i same
    rw [same]
    exact units?_escape rfl before s
  split
  · rename_i same
    rw [same]
    exact units?_escape rfl before s
  split
  · rename_i same
    rw [same]
    exact units?_escape rfl before s
  split
  · rename_i same
    rw [same]
    exact units?_escape rfl before s
  split
  · rename_i same
    rw [same]
    exact units?_escape rfl before s
  split
  · rename_i same
    rw [same]
    exact units?_escape rfl before s
  split
  · rename_i low
    exact units?_hex (control c.toNat low) before s
  · rename_i quote backslash _ _ _ _ _ visible
    exact units?_plain quote backslash visible before s

theorem units?_flatMap_escape (s : List Char) (before : List Nat) (rest : List Char) :
    units? before (s.flatMap escape ++ '"' :: rest) =
      some (before.reverse ++ s.map Char.toNat, rest) := by
  induction s generalizing before with
  | nil => rw [List.flatMap_nil, List.nil_append, units?_quote, List.map_nil, List.append_nil]
  | cons c s inductionHypothesis =>
    rw [List.flatMap_cons, List.append_assoc, units?_escaped, inductionHypothesis,
      List.reverse_cons, List.append_assoc]
    rfl

theorem not_isSurrogate (c : Char) :
    isHighSurrogate c.toNat = false ∧ isLowSurrogate c.toNat = false := by
  have valid : c.toNat < 0xD800 ∨ 0xDFFF < c.toNat ∧ c.toNat < 0x110000 := c.valid
  simp only [isHighSurrogate, isLowSurrogate, Bool.and_eq_false_iff, decide_eq_false_iff_not]
  omega

theorem joinUnits?_toNat (s before : List Char) :
    joinUnits? none before (s.map Char.toNat) = some (before.reverse ++ s) := by
  induction s generalizing before with
  | nil => rw [List.map_nil, joinUnits?, List.append_nil]; rfl
  | cons c s inductionHypothesis =>
    obtain ⟨high, low⟩ := not_isSurrogate c
    simp only [List.map_cons, joinUnits?, high, low, Bool.false_eq_true, if_false,
      Char.ofNat_toNat, inductionHypothesis, List.reverse_cons, List.append_assoc,
      List.singleton_append]

/-- A text in quotes is read back behind its opening quote. -/
theorem quoted?_quote (s : String) (rest : List Char) :
    quoted? (s.toList.flatMap escape ++ '"' :: rest) = some (some s, rest) := by
  rw [quoted?, units?_flatMap_escape, Option.map_some, List.reverse_nil, List.nil_append,
    joinUnits?_toNat, List.reverse_nil, List.nil_append, Option.map_some, String.ofList_toList]

theorem quote_append (s : String) (rest : List Char) :
    quote s ++ rest = '"' :: (s.toList.flatMap escape ++ '"' :: rest) := by
  simp [quote]

/-! ## Trees -/

def written? (x : Float) : Option Numeral := (numeral? (numberLayout.write x)).map Prod.fst

mutual

def tree : Json → Tree
  | .null => .null
  | .bool b => .bool b
  | .whole i => .number (.ofInt i)
  | .double x =>
    match written? x with
    | some n => .number n
    | none => .null
  | .text s => .text (some s)
  | .list items => .list (treeItems items)
  | .object members => .object (treeMembers members)

def treeItems : List Json → List Tree
  | [] => []
  | v :: vs => tree v :: treeItems vs

def treeMembers : List (String × Json) → List (Option String × Tree)
  | [] => []
  | (k, v) :: ms => (some k, tree v) :: treeMembers ms

end

theorem treeItems_eq_map (items : List Json) : treeItems items = items.map tree := by
  induction items with
  | nil => rfl
  | cons v vs inductionHypothesis => rw [treeItems, inductionHypothesis, List.map_cons]

theorem treeMembers_eq_map (members : List (String × Json)) :
    treeMembers members = members.map fun m => (some m.1, tree m.2) := by
  induction members with
  | nil => rfl
  | cons m ms inductionHypothesis => rw [treeMembers, inductionHypothesis, List.map_cons]

/-! ## Texts of values -/

variable {fuel : Nat}

theorem isSpace_of_digit {c : Char} (digit : Decimal.isDigit c = true) : isSpace c = false := by
  cases space : isSpace c with
  | false => rfl
  | true =>
    simp only [isSpace, Bool.or_eq_true, decide_eq_true_eq] at space
    rcases space with ((rfl | rfl) | rfl) | rfl <;> exact absurd digit (by decide)

/-- A text that is a number as a whole is read as that number. -/
theorem value?_numeral {s : List Char} {n : Numeral} (read : numeral? s = some (n, [])) :
    Takes endsNumber (value? (fuel + 1)) s (.number n) := by
  intro rest goesOn
  obtain ⟨c, t, first, joined, takes⟩ := takes_of_numeral? read
  have visible : isSpace c = false := by
    rcases first with rfl | digit
    · decide
    · exact isSpace_of_digit digit
  have taken := takes rest goesOn
  rw [joined, List.cons_append] at taken ⊢
  rw [value?_number (skipSpace_of_first visible _) first, taken]
  rfl

theorem value?_double (x : Float) :
    Takes endsNumber (value? (fuel + 1)) (numberLayout.write x) (tree (.double x)) := by
  cases finite : x.isFinite with
  | false =>
    have unread : written? x = none := by
      rw [written?, write_of_not_isFinite finite]
      rfl
    rw [write_of_not_isFinite finite, tree, unread]
    exact fun rest _ => value?_null (skipSpace_of_first (by decide) _)
  | true =>
    obtain ⟨n, read, -⟩ := numeral?_write finite
    rw [tree, written?, read]
    exact value?_numeral read

theorem value?_quote (s : String) :
    Takes endsNumber (value? (fuel + 1)) (quote s) (.text (some s)) := by
  intro rest _
  rw [quote_append, value?_text (skipSpace_of_first (by decide) _), quoted?_quote]
  rfl

/-- An element is followed by the mark that it has behind it. -/
theorem Takes.before_mark {reader : List Char → Option (Tree × List Char)} {part : List Char}
    {v : Tree} (takes : Takes endsNumber reader part v) {c : Char} (mark : endsNumber c = true)
    (visible : isSpace c = false) (rest : List Char) :
    reader (part ++ c :: rest) = some (v, c :: rest) ∧ skipSpace (c :: rest) = c :: rest :=
  ⟨takes _ (goesOn_cons mark rest), skipSpace_of_first visible rest⟩

theorem members?_write_start (k : String) (v rest : List Char) :
    ∃ t u, skipSpace (quote k ++ ':' :: v ++ rest) = '"' :: t ∧ quoted? t = some (some k, u) ∧
      skipSpace u = ':' :: (v ++ rest) := by
  refine ⟨k.toList.flatMap escape ++ '"' :: ':' :: (v ++ rest), ':' :: (v ++ rest), ?_,
    quoted?_quote k _, skipSpace_of_first (by decide) _⟩
  rw [List.append_assoc, quote_append]
  exact skipSpace_of_first (by decide) _

/-- What the three readers of values make of the texts of values that are shorter than the fuel. -/
structure ReadsWritten (fuel : Nat) : Prop where
  value : ∀ j : Json, (write j).length < fuel → Takes endsNumber (value? fuel) (write j) (tree j)
  items : ∀ (v : Json) (vs : List Json), (writeItems (v :: vs)).length + 1 < fuel → ∀ rest,
    items? fuel (writeItems (v :: vs) ++ ']' :: rest) = some (treeItems (v :: vs), rest)
  members : ∀ (m : String × Json) (ms : List (String × Json)),
    (writeMembers (m :: ms)).length + 1 < fuel → ∀ rest,
      members? fuel (writeMembers (m :: ms) ++ '}' :: rest) =
        some (treeMembers (m :: ms), rest)

theorem ReadsWritten.value_succ (reads : ReadsWritten fuel) (j : Json)
    (enough : (write j).length < fuel + 1) :
    Takes endsNumber (value? (fuel + 1)) (write j) (tree j) := by
  cases j with
  | null => exact fun rest _ => value?_null (skipSpace_of_first (by decide) _)
  | bool b =>
    cases b with
    | false => exact fun rest _ => value?_false (skipSpace_of_first (by decide) _)
    | true => exact fun rest _ => value?_true (skipSpace_of_first (by decide) _)
  | whole i => exact value?_numeral (numeral?_writeInteger i)
  | double x => exact value?_double x
  | text s => exact value?_quote s
  | list items =>
    intro rest _
    rw [write, List.append_assoc, List.cons_append, tree]
    cases items with
    | nil =>
      exact value?_emptyList (skipSpace_of_first (by decide) _) (skipSpace_of_first (by decide) _)
    | cons v vs =>
      rw [write, List.length_append, List.length_cons, List.length_singleton] at enough
      exact value?_list (skipSpace_of_first (by decide) _) (reads.items v vs (by omega) rest)
  | object members =>
    intro rest _
    rw [write, List.append_assoc, List.cons_append, tree]
    cases members with
    | nil =>
      exact value?_emptyObject (skipSpace_of_first (by decide) _) (skipSpace_of_first (by decide) _)
    | cons m ms =>
      rw [write, List.length_append, List.length_cons, List.length_singleton] at enough
      exact value?_object (skipSpace_of_first (by decide) _) (reads.members m ms (by omega) rest)

theorem ReadsWritten.items_succ (reads : ReadsWritten fuel) (v : Json) (vs : List Json)
    (enough : (writeItems (v :: vs)).length + 1 < fuel + 1) (rest : List Char) :
    items? (fuel + 1) (writeItems (v :: vs) ++ ']' :: rest) =
      some (treeItems (v :: vs), rest) := by
  cases vs with
  | nil =>
    rw [writeItems] at enough ⊢
    obtain ⟨read, closes⟩ := (reads.value v (by omega)).before_mark (c := ']') (by decide)
      (by decide) rest
    exact items?_last read closes
  | cons w vs =>
    rw [writeItems, List.length_append, List.length_cons] at enough
    obtain ⟨read, comma⟩ := (reads.value v (by omega)).before_mark (c := ',') (by decide)
      (by decide) (writeItems (w :: vs) ++ ']' :: rest)
    rw [writeItems, List.append_assoc, List.cons_append]
    exact items?_more read comma (reads.items w vs (by omega) rest)

theorem ReadsWritten.members_succ (reads : ReadsWritten fuel) (m : String × Json)
    (ms : List (String × Json)) (enough : (writeMembers (m :: ms)).length + 1 < fuel + 1)
    (rest : List Char) :
    members? (fuel + 1) (writeMembers (m :: ms) ++ '}' :: rest) =
      some (treeMembers (m :: ms), rest) := by
  obtain ⟨k, v⟩ := m
  cases ms with
  | nil =>
    rw [writeMembers, List.length_append, List.length_cons] at enough
    obtain ⟨read, closes⟩ := (reads.value v (by omega)).before_mark (c := '}') (by decide)
      (by decide) rest
    obtain ⟨t, u, start, readKey, colon⟩ := members?_write_start k (write v) ('}' :: rest)
    rw [writeMembers]
    exact members?_last start readKey colon read closes
  | cons m ms =>
    rw [writeMembers, List.length_append, List.length_cons, List.length_append,
      List.length_cons] at enough
    obtain ⟨read, comma⟩ := (reads.value v (by omega)).before_mark (c := ',') (by decide)
      (by decide) (writeMembers (m :: ms) ++ '}' :: rest)
    obtain ⟨t, u, start, readKey, colon⟩ := members?_write_start k
      (write v ++ ',' :: writeMembers (m :: ms)) ('}' :: rest)
    rw [List.append_assoc, List.cons_append] at colon
    rw [writeMembers]
    exact members?_more start readKey colon read comma (reads.members m ms (by omega) rest)

theorem readsWritten (fuel : Nat) : ReadsWritten fuel := by
  -- Each reader gives the others one unit of fuel less, so the three statements go together.
  induction fuel with
  | zero =>
    exact ⟨fun _ enough => absurd enough (Nat.not_lt_zero _),
      fun _ _ enough => absurd enough (Nat.not_lt_zero _),
      fun _ _ enough => absurd enough (Nat.not_lt_zero _)⟩
  | succ fuel inductionHypothesis =>
    exact ⟨inductionHypothesis.value_succ, inductionHypothesis.items_succ,
      inductionHypothesis.members_succ⟩

/-- The text of a value is one value, with its tree. -/
theorem ofText?_write (j : Json) : Tree.ofText? (write j) = some (tree j) := by
  refine ofText?_eq_some_iff.mpr ⟨[], ?_, fun _ member => by cases member⟩
  have read := (readsWritten _).value j (Nat.lt_succ_self _) [] goesOn_nil
  rwa [List.append_nil] at read

/-! ## Decoding -/

def ReadsBack (x : Float) : Prop := (tree (.double x)).float? = some x

instance (x : Float) : Decidable (ReadsBack x) := inferInstanceAs (Decidable (_ = _))

-- The 17 digits are taken as a whole number first, which is rounded before it is divided.
example : ¬ ReadsBack 12.100000000000001 := by decide +kernel

theorem tree_double_of_not_isFinite {x : Float} (infinite : x.isFinite = false) :
    tree (.double x) = .null := by
  rw [tree, written?, write_of_not_isFinite infinite]
  rfl

theorem ReadsBack.isFinite {x : Float} (back : ReadsBack x) : x.isFinite := by
  cases finite : x.isFinite with
  | false =>
    rw [ReadsBack, tree_double_of_not_isFinite finite] at back
    cases back
  | true => rfl

theorem ReadsBack.ofFloat {x : Float} (back : ReadsBack x) : ofFloat x = .double x :=
  if_pos back.isFinite

theorem integer?_ofInt {lo hi i : Int} (low : lo ≤ i) (high : i ≤ hi) :
    Tree.integer? lo hi (.number (.ofInt i)) = some i := by
  simp [Tree.integer?, Numeral.integer?_ofInt, low, high]

/-- Values that are decoded from their text as they were: whole numbers have 64 bits, doubles read
back, and the members of an object stand in ascending order of their keys. -/
inductive Settled : Nat → Json → Prop
  | null {depth : Nat} : Settled depth .null
  | bool {depth : Nat} (b : Bool) : Settled depth (.bool b)
  | whole {depth : Nat} {i : Int} (low : Int64.minValue.toInt ≤ i) (high : i ≤ UInt64.size - 1) :
    Settled depth (.whole i)
  | double {depth : Nat} {x : Float} (back : ReadsBack x) : Settled depth (.double x)
  | text {depth : Nat} (s : String) : Settled depth (.text s)
  | list {depth : Nat} {items : List Json} (settled : ∀ v ∈ items, Settled depth v) :
    Settled (depth + 1) (.list items)
  | object {depth : Nat} {members : List (String × Json)}
    (ordered : (Dictionary.ofEntries members).toList = members)
    (settled : ∀ m ∈ members, Settled depth m.2) : Settled (depth + 1) (.object members)

theorem mapM_map {α β γ : Type} {decode : β → Option γ} {encode : α → β} {result : α → γ}
    {items : List α} (decodes : ∀ v ∈ items, decode (encode v) = some (result v)) :
    (items.map encode).mapM decode = some (items.map result) := by
  induction items with
  | nil => rfl
  | cons v vs inductionHypothesis =>
    rw [List.forall_mem_cons] at decodes
    rw [List.map_cons, List.mapM_cons, decodes.1, inductionHypothesis decodes.2]
    rfl

theorem mapM_map_eq_some {α β : Type} {decode : β → Option α} {encode : α → β} {items : List α}
    (decodes : ∀ v ∈ items, decode (encode v) = some v) :
    (items.map encode).mapM decode = some items :=
  (mapM_map decodes).trans (congrArg some (List.map_id' items))

/-- Items that come back as a list come back one by one. -/
theorem forall_of_mapM_map_eq_some {α β : Type} {decode : β → Option α} {encode : α → β}
    {items : List α} (read : (items.map encode).mapM decode = some items) :
    ∀ v ∈ items, decode (encode v) = some v := by
  induction items with
  | nil => simp
  | cons v vs inductionHypothesis =>
    rw [List.map_cons, List.mapM_cons] at read
    simp only [bind, Option.bind_eq_some_iff, pure, Option.some.injEq, List.cons.injEq] at read
    obtain ⟨first, decoded, rest, readRest, rfl, rfl⟩ := read
    rw [List.forall_mem_cons]
    exact ⟨decoded, inductionHypothesis readRest⟩

theorem mem_of_mapM_eq_some {α β : Type} {decode : α → Option β} {items : List α}
    {values : List β} (read : items.mapM decode = some values) {v : β} (member : v ∈ values) :
    ∃ item ∈ items, decode item = some v := by
  induction items generalizing values with
  | nil =>
    cases read
    cases member
  | cons item items inductionHypothesis =>
    rw [List.mapM_cons] at read
    simp only [bind, Option.bind_eq_some_iff, pure, Option.some.injEq] at read
    obtain ⟨first, decoded, rest, readRest, rfl⟩ := read
    rcases List.mem_cons.mp member with rfl | later
    · exact ⟨item, List.mem_cons_self, decoded⟩
    · obtain ⟨found, present, decodedLater⟩ := inductionHypothesis readRest later
      exact ⟨found, List.mem_cons_of_mem item present, decodedLater⟩

theorem json?_double {x : Float} (back : ReadsBack x) (depth : Nat) :
    (tree (.double x)).json? depth = some (.double x) := by
  obtain ⟨n, read, fractional⟩ := numeral?_write back.isFinite
  rw [ReadsBack, tree, written?, read] at back
  have unwhole : Tree.integer? Int64.minValue.toInt (UInt64.size - 1) (.number n) = none := by
    simp [Tree.integer?, Numeral.integer?, fractional]
  rw [tree, written?, read]
  simp only [Option.map_some] at back ⊢
  rw [Tree.json?, unwhole, back]
  rfl

theorem readsBack_of_json? {x : Float} {depth : Nat}
    (back : (tree (.double x)).json? depth = some (.double x)) : ReadsBack x := by
  rw [ReadsBack]
  rw [tree] at back ⊢
  cases read : written? x with
  | none =>
    simp only [read, Tree.json?] at back
    cases back
  | some n =>
    simp only [read, Tree.json?] at back ⊢
    split at back
    · cases back
    · rw [Option.map_eq_some_iff] at back
      obtain ⟨y, decoded, same⟩ := back
      cases same
      exact decoded

/-- A settled value comes back as it was. -/
theorem Settled.json?_tree {depth : Nat} {j : Json} (settled : Settled depth j) :
    (tree j).json? depth = some j := by
  induction settled with
  | null => rw [tree, Tree.json?]
  | bool b => rw [tree, Tree.json?]
  | whole low high => rw [tree, Tree.json?, integer?_ofInt low high]
  | double back => exact json?_double back _
  | text s => rw [tree, Tree.json?, Option.map_some]
  | list settled inductionHypothesis =>
    rw [tree, Tree.json?, treeItems_eq_map, mapM_map_eq_some inductionHypothesis, Option.map_some]
  | object ordered settled inductionHypothesis =>
    rename_i depth members
    have decodes : ∀ m ∈ members, (do
        return (← (some m.1 : Option String), ← (tree m.2).json? depth) : Option (String × Json)) =
          some m := fun m member => by rw [inductionHypothesis m member]; rfl
    rw [tree, Tree.json?, treeMembers_eq_map, mapM_map_eq_some decodes, Option.map_some, ofMembers,
      ordered]

end AlertEngine.Json
