import ContractShell.Proofs.Interface.Loading

/-!
The two forms of an interface document.

The methods of a document are members of an object, or items of a list that carry their names. What a document says does
not depend on its form: the first entry that cannot be loaded is the same, and so is its fault.

## Main statements

* `ofJson_of_carries`: an item is loaded under its name as the member is that it says the same as.
* `entriesOfItems_eq`: so are all items, in their order.
* `ofJson_eq_of_listed`: a document with its methods as a list is loaded as the one with its methods as an object is.
-/

namespace ContractShell.Interface

/-! ## 1. Documents in two forms -/

/-- An item carries a name, and else says what an object says. -/
inductive Carries (name : String) : Json → Json → Prop where
  | obj {m item : List (String × Json)} (hname : Json.find? "name" item = some (.str name))
      (hrest : ∀ key, key ≠ "name" → Json.find? key item = Json.find? key m) : Carries name (.obj m) (.obj item)

/-- The methods of one document are the members of an object, those of the other are the same entries as a list, in the
same order and each with its name. The documents say the same otherwise. -/
structure Listed (members m listed : List (String × Json)) : Prop where
  object : Json.find? "methods" m = some (.obj members)
  list : ∃ items, Json.find? "methods" listed = some (.arr items) ∧
    List.Forall₂ (fun p v => Carries p.1 p.2 v) members items
  rest : ∀ key, key ≠ "methods" → Json.find? key listed = Json.find? key m

theorem carries_set (name : String) (m : List (String × Json)) :
    Carries name (.obj m) (.obj (Json.set "name" (.str name) m)) :=
  .obj (Json.find?_set_self ..) fun _ hkey => Json.find?_set_of_ne hkey ..

/-- A document with methods that are objects has another form. -/
theorem exists_listed {members m : List (String × Json)} (h : Json.find? "methods" m = some (.obj members))
    (hobjects : ∀ p ∈ members, p.2.members?.isSome = true) : ∃ listed, Listed members m listed := by
  have heach : ∀ p ∈ members, ∃ v, Carries p.1 p.2 v := by
    intro p hp
    obtain ⟨name, v⟩ := p
    cases v with
    | obj fields => exact ⟨_, carries_set name fields⟩
    | _ => cases hobjects _ hp
  obtain ⟨items, hitems⟩ := exists_forall₂ heach
  exact ⟨Json.set "methods" (.arr items) m, h, ⟨items, Json.find?_set_self .., hitems⟩,
    fun _ hkey => Json.find?_set_of_ne hkey ..⟩

/-! ## 2. Entries -/

/-- An item is loaded under its name as the member is that it says the same as. -/
theorem ofJson_of_carries {name : String} {v item : Json} (h : Carries name v item) :
    Entry.ofJson name item = Entry.ofJson name v := by
  cases h with
  | @obj m item _ hrest =>
    have heither : ∀ key other, key ≠ "name" → other ≠ "name" → eitherOf key other item = eitherOf key other m := by
      intro key other hkey hother
      rw [eitherOf, eitherOf, hrest key hkey, hrest other hother]
    have htext : ∀ key, key ≠ "name" → textOf key item = textOf key m := by
      intro key hkey
      rw [textOf, textOf, hrest key hkey]
    have hflag : readOnlyOf item = readOnlyOf m := by
      rw [readOnlyOf, readOnlyOf, heither _ _ (by decide) (by decide)]
    rw [Entry.ofJson, Entry.ofJson, heither _ _ (by decide) (by decide), hflag, htext _ (by decide), htext _ (by decide),
      htext _ (by decide)]

/-- The name that an item carries is found, when no entry before it has the name. -/
theorem nameIn_of_carries {name : String} {v item : Json} (h : Carries name v item) (hname : name ≠ "")
    {done : List Entry} (hnew : name ∉ done.map (·.name)) : nameIn done item = .ok name := by
  have hcarried : carried? item = some (.str name) := by
    cases h with
    | obj hfind _ =>
      rw [carried?, Json.member?, hfind, Option.filter_some, Json.isVacant, if_pos]
      simpa using hname
  rw [nameIn_eq, hcarried]
  exact if_neg fun hany => hnew ((any_name_iff done name).mp hany)

section

variable {members : List (String × Json)} {items : List Json}

/-- Items are loaded next to the entries before them as the members are. -/
theorem foldlM_items_eq (h : List.Forall₂ (fun p v => Carries p.1 p.2 v) members items)
    (hkeys : (members.map Prod.fst).Nodup) (hnames : ∀ p ∈ members, p.1 ≠ "") {done : List Entry}
    (hnew : ∀ p ∈ members, p.1 ∉ done.map (·.name)) :
    (items.foldlM (fun done v => do
      let name ← nameIn done v
      return setEntry (← Entry.ofJson name v) done) done : Except Fault (List Entry)) =
    members.foldlM (fun done p => return setEntry (← Entry.ofJson p.1 p.2) done) done := by
  -- The names so far are none of the keys to come, so no item is refused for its name.
  induction h generalizing done with
  | nil => rfl
  | @cons p item members items hitem _ ih =>
    rw [List.map_cons, List.nodup_cons] at hkeys
    rw [List.forall_mem_cons] at hnames hnew
    rw [List.foldlM_cons, List.foldlM_cons, nameIn_of_carries hitem hnames.1 hnew.1]
    simp only [bind, Except.bind, ofJson_of_carries hitem]
    cases he : Entry.ofJson p.1 p.2 with
    | error f => rfl
    | ok e =>
      refine ih hkeys.2 hnames.2 fun q hq hmem => ?_
      rw [mem_names_setEntry, (ofJson_eq_ok_iff.mp he).name] at hmem
      rcases hmem with heq | hmem
      · exact hkeys.1 (heq ▸ List.mem_map_of_mem hq)
      · exact hnew.2 q hq hmem

/-- Items are loaded as the members are that they say the same as. -/
theorem entriesOfItems_eq (h : List.Forall₂ (fun p v => Carries p.1 p.2 v) members items)
    (hkeys : (members.map Prod.fst).Nodup) (hnames : ∀ p ∈ members, p.1 ≠ "") :
    entriesOfItems items = entriesOfMembers members :=
  foldlM_items_eq h hkeys hnames fun _ _ => List.not_mem_nil

/-! ## 3. Documents -/

/-- A document with its methods as a list is loaded as the one with its methods as an object is: with the same entries in
the same order, or with the same fault. -/
theorem ofJson_eq_of_listed {m listed : List (String × Json)} (h : Listed members m listed)
    (hkeys : (members.map Prod.fst).Nodup) (hnames : ∀ p ∈ members, p.1 ≠ "") :
    Document.ofJson (.obj listed) = Document.ofJson (.obj m) ∧
      ∀ d, Document.ofJson (.obj m) = .ok d → List.Forall₂ (fun p e => e.IsOf p.1 p.2) members d.methods := by
  obtain ⟨items, hitems, hall⟩ := h.list
  constructor
  · rw [Document.ofJson, Document.ofJson, hitems, h.object, h.rest "types" (by decide), entriesOf, entriesOf,
      entriesOfItems_eq hall hkeys hnames]
  · intro d hd
    have hmethods := (ofJson_eq_ok hd).1
    rw [Json.member?, h.object] at hmethods
    exact forall₂_of_entriesOfMembers hkeys hmethods

end

/-- The key of a member counts, not a name in its value. -/
theorem ofJson_eq_of_listed_renamed :
    let members : List (String × Json) :=
      [("read", .obj [("entry_point", .int 1)]), ("write", .obj [("name", .str "read"), ("entry_point", .int 2)])]
    let m : List (String × Json) := [("methods", .obj members), ("types", .str "t")]
    ∃ listed, Listed members m listed ∧ (members.map Prod.fst).Nodup ∧ (∀ p ∈ members, p.1 ≠ "") ∧
      Document.ofJson (.obj listed) = .ok ⟨[⟨"read", "", "", 1, "", false⟩, ⟨"write", "", "", 2, "", false⟩], "t"⟩ := by
  intro members m
  have hobject : Json.find? "methods" m = some (.obj members) := rfl
  obtain ⟨listed, hlisted⟩ := exists_listed hobject (by simp [members, Json.members?])
  have hkeys : (members.map Prod.fst).Nodup := by decide
  have hnames : ∀ p ∈ members, p.1 ≠ "" := by simp [members]
  refine ⟨listed, hlisted, hkeys, hnames, ?_⟩
  rw [(ofJson_eq_of_listed hlisted hkeys hnames).1]
  rfl

end ContractShell.Interface
