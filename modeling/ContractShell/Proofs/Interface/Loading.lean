import ContractShell.Interface.Document
import ContractShell.Proofs.Json.Reading
import ContractShell.Proofs.Correspondence
import ContractShell.Proofs.Steps

/-!
What an interface document loads to.

The methods of a document come out one by one in the order of its entries, and what cannot be loaded is an invalid
document. Two kinds of names in a list of entries break this: a name that is a list or an object ends the reading with a
fault of another kind, and a name that is no text is not looked for among the names before it, so that its entry may take
the place of another.

## Main statements

* `forall₂_of_entriesOfMembers`: members with different keys become entries in their order.
* `forall₂_of_entriesOfItems`: so do the items of a list, if none takes the place of another.
* `loadsFaithfully_iff`: a text loads faithfully exactly if no name in a list is of one of the two kinds.
-/

namespace ContractShell.Interface

/-! ## 1. What is to be loaded -/

/-- The entry of a method: what a value says under a name. -/
inductive Entry.IsOf (name : String) : Entry → Json → Prop where
  | obj {m : List (String × Json)} {entryPoint : Nat} {readOnly : Bool}
      (hpoint : EntryPoint.read (eitherOf "entry_point" "entry-point" m) = .ok entryPoint)
      (hflag : readOnlyOf m = some readOnly) :
      IsOf name ⟨name, textOf "argument" m, textOf "return" m, entryPoint, textOf "description" m, readOnly⟩ (.obj m)

/-- The name that an entry of a list carries. A name that is vacant does not count. -/
def carried? (v : Json) : Option Json := (v.member? "name").filter fun n => !n.isVacant

/-- The name of the method that an entry of a list is for. -/
def nameOf? (v : Json) : Option String := (carried? v).map (·.shown)

/-- The entry of an item: what the item says under the name that it carries. -/
def Entry.IsOfItem (e : Entry) (v : Json) : Prop := ∃ name, nameOf? v = some name ∧ e.IsOf name v

/-- Entries stand for methods one by one, in order: members of an object under their keys, items of a list under the
names that they carry. -/
inductive Represent : List Entry → Json → Prop where
  | members {es : List Entry} {m : List (String × Json)} (h : List.Forall₂ (fun p e => e.IsOf p.1 p.2) m es) :
      Represent es (.obj m)
  | items {es : List Entry} {items : List Json} (h : List.Forall₂ (fun v e => e.IsOfItem v) items es) :
      Represent es (.arr items)

/-- A document stands for a value: its methods for the value's methods, under names of their own. -/
structure Document.Represents (d : Document) (v : Json) : Prop where
  methods : ∃ methods, v.member? "methods" = some methods ∧ Represent d.methods methods
  names : (d.methods.map (·.name)).Nodup
  types : v.member? "types" = some (.str d.types)

/-- A fault that is reported as an invalid document. -/
def Fault.isInvalid : Fault → Bool
  | .compoundName _ => false
  | _ => true

/-- A text is refused as an invalid document, or loads to a document that stands for it. -/
structure LoadsFaithfully (text : String) : Prop where
  refused : ∀ f, Document.ofText text = .error f → f.isInvalid = true
  represents : ∀ d, Document.ofText text = .ok d → ∃ v, Json.read? text = some v ∧ d.Represents v

/-- A text whose methods are a list. -/
def ListsMethods (text : String) (items : List Json) : Prop :=
  ∃ v, Json.read? text = some v ∧ v.member? "methods" = some (.arr items)

/-! ## 2. Names that are not told apart -/

/-- A property of an item next to the ones before it holds somewhere in a list. -/
def Occurs {α : Type} (P : List α → α → Prop) (items : List α) : Prop :=
  ∃ before v after, items = before ++ v :: after ∧ P before v

/-- The name of an entry is a list or an object, and the entries before it can be loaded. -/
def IsCompound (before : List Json) (v : Json) : Prop :=
  (entriesOfItems before).isOk = true ∧ ((∃ l, carried? v = some (.arr l)) ∨ ∃ m, carried? v = some (.obj m))

/-- The name of an entry is no text, but shown as a text that names an entry before it. -/
def TakesPlace (before : List Json) (v : Json) : Prop :=
  ∃ n, carried? v = some n ∧ n.text? = none ∧ n.shown ∈ before.filterMap nameOf?

theorem occurs_concat {α : Type} {P : List α → α → Prop} {items : List α} {v : α} :
    Occurs P (items ++ [v]) ↔ Occurs P items ∨ P items v := by
  constructor
  · rintro ⟨before, w, after, heq, hw⟩
    rcases List.eq_nil_or_concat after with rfl | ⟨after, x, rfl⟩
    · obtain ⟨rfl, hlast⟩ := List.append_inj' heq rfl
      cases hlast
      exact .inr hw
    · have hsplit : items ++ [v] = (before ++ w :: after) ++ [x] := by simpa using heq
      exact .inl ⟨before, w, after, (List.append_inj' hsplit rfl).1, hw⟩
  · rintro (⟨before, w, after, rfl, hw⟩ | hv)
    · exact ⟨before, w, after ++ [v], by simp, hw⟩
    · exact ⟨items, v, [], rfl, hv⟩

/-! ## 3. Entries -/

theorem ofJson_eq_ok_iff {name : String} {v : Json} {e : Entry} : Entry.ofJson name v = .ok e ↔ e.IsOf name v := by
  constructor
  · intro h
    cases v with
    | obj m =>
      rw [Entry.ofJson] at h
      split at h
      · cases h
      · rename_i hpoint
        split at h
        · cases h
        · rename_i hflag
          cases h
          exact .obj hpoint hflag
    | _ => cases h
  · rintro ⟨hpoint, hflag⟩
    rw [Entry.ofJson, hpoint]
    simp only [hflag]

theorem Entry.IsOf.name {e : Entry} {name : String} {v : Json} (h : e.IsOf name v) : e.name = name := by
  cases h
  rfl

/-- What is wrong with an entry makes the document invalid. -/
theorem isInvalid_of_ofJson {name : String} {v : Json} {f : Fault} (h : Entry.ofJson name v = .error f) :
    f.isInvalid = true := by
  cases v with
  | obj m =>
    rw [Entry.ofJson] at h
    split at h
    · cases h
      rfl
    · split at h
      · cases h
        rfl
      · cases h
  | _ =>
    cases h
    rfl

theorem any_name_iff (es : List Entry) (name : String) :
    es.any (·.name == name) = true ↔ name ∈ es.map (·.name) := by
  simp only [List.any_eq_true, beq_iff_eq, List.mem_map]

theorem mem_names_setEntry (e : Entry) (es : List Entry) (name : String) :
    name ∈ (setEntry e es).map (·.name) ↔ name = e.name ∨ name ∈ es.map (·.name) := by
  induction es with
  | nil => simp [setEntry]
  | cons x es ih =>
    rw [setEntry]
    by_cases hx : x.name = e.name
    · rw [if_pos hx, List.map_cons, List.map_cons, List.mem_cons, List.mem_cons, hx]
      tauto
    · rw [if_neg hx, List.map_cons, List.map_cons, List.mem_cons, List.mem_cons, ih]
      tauto

/-- An entry takes the place of the entry of its name, so names stay different. -/
theorem nodup_names_setEntry {e : Entry} {es : List Entry} (h : (es.map (·.name)).Nodup) :
    ((setEntry e es).map (·.name)).Nodup := by
  induction es with
  | nil => simp [setEntry]
  | cons x es ih =>
    rw [List.map_cons, List.nodup_cons] at h
    rw [setEntry]
    by_cases hx : x.name = e.name
    · rw [if_pos hx, List.map_cons, List.nodup_cons, ← hx]
      exact h
    · rw [if_neg hx, List.map_cons, List.nodup_cons, mem_names_setEntry, not_or]
      exact ⟨⟨hx, h.1⟩, ih h.2⟩

theorem setEntry_of_new {e : Entry} {es : List Entry} (h : e.name ∉ es.map (·.name)) : setEntry e es = es ++ [e] := by
  induction es with
  | nil => rfl
  | cons x es ih =>
    rw [List.map_cons, List.mem_cons, not_or] at h
    rw [setEntry, if_neg (Ne.symm h.1), ih h.2, List.cons_append]

/-! ## 4. Members of an object -/

/-- Members with different keys become entries in their order. -/
theorem forall₂_of_entriesOfMembers {m : List (String × Json)} {es : List Entry} (hkeys : (m.map Prod.fst).Nodup)
    (h : entriesOfMembers m = .ok es) : List.Forall₂ (fun p e => e.IsOf p.1 p.2) m es := by
  refine of_foldlM_upTo (fun before done => (before.map Prod.fst).Nodup →
    List.Forall₂ (fun p e => e.IsOf p.1 p.2) before done)
    (fun before done p done' ih hstep hkeys => ?_) (fun _ => .nil) h hkeys
  obtain ⟨e, he, heq⟩ := of_bind_eq_ok hstep
  cases heq
  rw [List.map_append, List.nodup_append] at hkeys
  -- The names so far are the keys so far, so the next key is new and its entry stands at the end.
  have hall : List.Forall₂ (fun p e => e.IsOf p.1 p.2) before done := ih hkeys.1
  have hnames : before.map Prod.fst = done.map (·.name) := map_eq_of_forall₂ (fun p e hp => hp.name.symm) hall
  have hnew : e.name ∉ done.map (·.name) := by
    rw [(ofJson_eq_ok_iff.mp he).name, ← hnames]
    exact fun hmem => hkeys.2.2 p.1 hmem p.1 (by simp) rfl
  rw [setEntry_of_new hnew]
  exact List.rel_append hall (.cons (ofJson_eq_ok_iff.mp he) .nil)

theorem isInvalid_of_entriesOfMembers {m : List (String × Json)} {f : Fault} (h : entriesOfMembers m = .error f) :
    f.isInvalid = true := by
  obtain ⟨before, p, after, done, -, -, hstep⟩ := foldlM_eq_error_iff.mp h
  cases he : Entry.ofJson p.1 p.2 with
  | error g =>
    rw [he] at hstep
    cases hstep
    exact isInvalid_of_ofJson he
  | ok e =>
    rw [he] at hstep
    cases hstep

/-! ## 5. Items of a list -/

theorem nameIn_eq (done : List Entry) (v : Json) : nameIn done v =
    match carried? v with
    | none => .error .unnamed
    | some (.str s) => if done.any (·.name == s) then .error (.duplicate s) else .ok s
    | some (.arr _) => .error (.compoundName "list")
    | some (.obj _) => .error (.compoundName "dict")
    | some n => .ok n.shown := by
  unfold nameIn carried?
  cases v.member? "name" with
  | none => rfl
  | some n =>
    cases hvacant : n.isVacant with
    | true => simp [Option.filter, hvacant]
    | false =>
      simp only [Option.filter, hvacant, Bool.false_eq_true, if_false, Bool.not_false, if_true]
      cases n <;> rfl

/-- The name under which an item is loaded is the one that it carries. A name that is text is new. -/
theorem carried_of_nameIn {done : List Entry} {v : Json} {name : String} (h : nameIn done v = .ok name) :
    ∃ n, carried? v = some n ∧ n.shown = name ∧ (n.text? = none ∨ name ∉ done.map (·.name)) := by
  rw [nameIn_eq] at h
  cases hv : carried? v with
  | none =>
    rw [hv] at h
    cases h
  | some n =>
    rw [hv] at h
    cases n with
    | str s =>
      simp only at h
      split at h
      · cases h
      · rename_i hnew
        cases h
        exact ⟨_, rfl, rfl, .inr fun hmem => hnew ((any_name_iff done name).mpr hmem)⟩
    | arr l => cases h
    | obj m => cases h
    | _ =>
      cases h
      exact ⟨_, rfl, rfl, .inl rfl⟩

theorem nameOf?_of_nameIn {done : List Entry} {v : Json} {name : String} (h : nameIn done v = .ok name) :
    nameOf? v = some name := by
  obtain ⟨n, hn, hshown, -⟩ := carried_of_nameIn h
  rw [nameOf?, hn, Option.map_some, hshown]

theorem nameIn_eq_duplicate {done : List Entry} {v : Json} {s : String} (hv : carried? v = some (.str s))
    (hs : s ∈ done.map (·.name)) : nameIn done v = .error (.duplicate s) := by
  rw [nameIn_eq, hv]
  exact if_pos ((any_name_iff done s).mpr hs)

/-- Only a name that is a list or an object makes for a fault of another kind. -/
theorem nameIn_eq_error_iff {done : List Entry} {v : Json} :
    (∃ f, nameIn done v = .error f ∧ f.isInvalid = false) ↔
      (∃ l, carried? v = some (.arr l)) ∨ ∃ m, carried? v = some (.obj m) := by
  constructor
  · rintro ⟨f, h, hf⟩
    rw [nameIn_eq] at h
    split at h
    · cases h
      cases hf
    · split at h
      · cases h
        cases hf
      · cases h
    · exact .inl ⟨_, ‹_›⟩
    · exact .inr ⟨_, ‹_›⟩
    · cases h
  · rintro (⟨l, hl⟩ | ⟨m, hm⟩)
    · exact ⟨.compoundName "list", by rw [nameIn_eq, hl], rfl⟩
    · exact ⟨.compoundName "dict", by rw [nameIn_eq, hm], rfl⟩

/-- The names of the entries so far are those that the items so far carry. -/
theorem mem_names_of_entriesOfItems {items : List Json} {es : List Entry} (h : entriesOfItems items = .ok es)
    (name : String) : name ∈ es.map (·.name) ↔ name ∈ items.filterMap nameOf? := by
  refine of_foldlM_upTo (fun before done => name ∈ done.map (·.name) ↔ name ∈ before.filterMap nameOf?)
    (fun before done v done' ih hstep => ?_) (by simp) h
  obtain ⟨new, hname, hrest⟩ := of_bind_eq_ok hstep
  obtain ⟨e, he, heq⟩ := of_bind_eq_ok hrest
  cases heq
  rw [mem_names_setEntry, ih, (ofJson_eq_ok_iff.mp he).name, List.filterMap_append, List.mem_append]
  simp only [List.filterMap_cons, nameOf?_of_nameIn hname, List.filterMap_nil, List.mem_singleton]
  exact or_comm

theorem names_of_forall₂ {items : List Json} {es : List Entry}
    (h : List.Forall₂ (fun v e => e.IsOfItem v) items es) :
    items.filterMap nameOf? = es.map (·.name) := by
  induction h with
  | nil => rfl
  | cons hab _ ih =>
    obtain ⟨name, hname, he⟩ := hab
    rw [List.filterMap_cons_some hname, ih, List.map_cons, he.name]

/-- Items of which none takes the place of another become entries in their order. -/
theorem forall₂_of_entriesOfItems {items : List Json} {es : List Entry} (hplaces : ¬ Occurs TakesPlace items)
    (h : entriesOfItems items = .ok es) : List.Forall₂ (fun v e => e.IsOfItem v) items es := by
  refine of_foldlM_upTo
    (fun before done => ¬ Occurs TakesPlace before → List.Forall₂ (fun v e => e.IsOfItem v) before done)
    (fun before done v done' ih hstep hplaces => ?_) (fun _ => .nil) h hplaces
  obtain ⟨name, hname, hrest⟩ := of_bind_eq_ok hstep
  obtain ⟨e, he, heq⟩ := of_bind_eq_ok hrest
  cases heq
  rw [occurs_concat, not_or] at hplaces
  have hall := ih hplaces.1
  -- A name that is text was looked for among the names so far; any other one is none of them by assumption.
  have hnew : e.name ∉ done.map (·.name) := by
    intro hmem
    rw [(ofJson_eq_ok_iff.mp he).name] at hmem
    obtain ⟨n, hn, rfl, htext | hfresh⟩ := carried_of_nameIn hname
    · exact hplaces.2 ⟨n, hn, htext, by rwa [names_of_forall₂ hall]⟩
    · exact hfresh hmem
  rw [setEntry_of_new hnew]
  exact List.rel_append hall (.cons ⟨name, nameOf?_of_nameIn hname, ofJson_eq_ok_iff.mp he⟩ .nil)

/-- The step at which the items of a list cannot be loaded. -/
theorem entriesOfItems_eq_error_iff {items : List Json} {f : Fault} : entriesOfItems items = .error f ↔
    ∃ before v after done, items = before ++ v :: after ∧ entriesOfItems before = .ok done ∧
      (nameIn done v = .error f ∨ ∃ name, nameIn done v = .ok name ∧ Entry.ofJson name v = .error f) := by
  rw [entriesOfItems, foldlM_eq_error_iff]
  refine exists_congr fun before => exists_congr fun v => exists_congr fun after => exists_congr fun done => ?_
  refine and_congr_right fun _ => and_congr_right fun _ => ?_
  cases nameIn done v with
  | error g => simp [bind, Except.bind]
  | ok name =>
    cases he : Entry.ofJson name v with
    | error g => simp [bind, Except.bind, he]
    | ok e => simp [bind, Except.bind, pure, Except.pure, he]

/-- An item whose name is the text of a name before it is refused as a duplicate. -/
theorem entriesOfItems_eq_duplicate {before after : List Json} {v : Json} {s : String} {done : List Entry}
    (hbefore : entriesOfItems before = .ok done) (hv : carried? v = some (.str s)) (hs : s ∈ before.filterMap nameOf?) :
    entriesOfItems (before ++ v :: after) = .error (.duplicate s) :=
  entriesOfItems_eq_error_iff.mpr ⟨before, v, after, done, rfl, hbefore,
    .inl (nameIn_eq_duplicate hv ((mem_names_of_entriesOfItems hbefore s).mpr hs))⟩

/-- The fault of a list is of another kind exactly if a name is a list or an object. -/
theorem entriesOfItems_compound_iff {items : List Json} :
    (∃ f, entriesOfItems items = .error f ∧ f.isInvalid = false) ↔ Occurs IsCompound items := by
  constructor
  · rintro ⟨f, h, hf⟩
    obtain ⟨before, v, after, done, hsplit, hbefore, hname | ⟨name, -, hentry⟩⟩ := entriesOfItems_eq_error_iff.mp h
    · exact ⟨before, v, after, hsplit, isOk_iff.mpr ⟨done, hbefore⟩, nameIn_eq_error_iff.mp ⟨f, hname, hf⟩⟩
    · rw [isInvalid_of_ofJson hentry] at hf
      cases hf
  · rintro ⟨before, v, after, hsplit, hloads, hcompound⟩
    obtain ⟨done, hbefore⟩ := isOk_iff.mp hloads
    obtain ⟨f, hname, hf⟩ := nameIn_eq_error_iff.mpr hcompound
    exact ⟨f, entriesOfItems_eq_error_iff.mpr ⟨before, v, after, done, hsplit, hbefore, .inl hname⟩, hf⟩

/-! ## 6. Documents -/

theorem nodup_names_of_entriesOf {v : Option Json} {es : List Entry} (h : entriesOf v = .ok es) :
    (es.map (·.name)).Nodup := by
  cases v with
  | none => cases h
  | some v =>
    cases v with
    | obj m =>
      refine of_foldlM (fun es => (es.map (·.name)).Nodup) (fun done p done' hdone hp => ?_) List.nodup_nil h
      obtain ⟨e, -, heq⟩ := of_bind_eq_ok hp
      cases heq
      exact nodup_names_setEntry hdone
    | arr items =>
      refine of_foldlM (fun es => (es.map (·.name)).Nodup) (fun done v done' hdone hv => ?_) List.nodup_nil h
      obtain ⟨name, -, hentry⟩ := of_bind_eq_ok hv
      obtain ⟨e, -, heq⟩ := of_bind_eq_ok hentry
      cases heq
      exact nodup_names_setEntry hdone
    | _ => cases h

/-- In entries that stand for items one by one under different names, none has taken the place of another. -/
theorem not_takesPlace_of_forall₂ {items : List Json} {es : List Entry} (hnames : (es.map (·.name)).Nodup)
    (h : List.Forall₂ (fun v e => e.IsOfItem v) items es) : ¬ Occurs TakesPlace items := by
  rintro ⟨before, v, after, rfl, n, hn, -, hmem⟩
  rw [← names_of_forall₂ h, List.filterMap_append, List.nodup_append] at hnames
  have hv : nameOf? v = some n.shown := by rw [nameOf?, hn, Option.map_some]
  exact hnames.2.2 n.shown hmem n.shown (by simp [hv]) rfl

theorem ofJson_eq_ok {v : Json} {d : Document} (h : Document.ofJson v = .ok d) :
    entriesOf (v.member? "methods") = .ok d.methods ∧ v.member? "types" = some (.str d.types) := by
  cases v with
  | obj m =>
    rw [Document.ofJson] at h
    obtain ⟨es, hes, hrest⟩ := of_bind_eq_ok h
    split at hrest
    · rename_i htypes
      cases hrest
      exact ⟨hes, htypes⟩
    · cases hrest
  | _ => cases h

/-- The faults of the methods come before the others. -/
theorem ofJson_eq_error {v methods : Json} {f : Fault} (hmethods : v.member? "methods" = some methods)
    (h : entriesOf (some methods) = .error f) : Document.ofJson v = .error f := by
  cases v with
  | obj m =>
    rw [Document.ofJson, show Json.find? "methods" m = some methods from hmethods, h]
    rfl
  | _ => cases hmethods

/-- A fault of another kind is that of a list of methods. -/
theorem exists_compound_of_entriesOf {v : Option Json} {f : Fault} (h : entriesOf v = .error f)
    (hf : f.isInvalid = false) : ∃ items, v = some (.arr items) ∧ Occurs IsCompound items := by
  cases v with
  | none =>
    cases h
    cases hf
  | some methods =>
    cases methods with
    | obj m =>
      rw [isInvalid_of_entriesOfMembers h] at hf
      cases hf
    | arr items => exact ⟨items, rfl, entriesOfItems_compound_iff.mp ⟨f, h, hf⟩⟩
    | _ =>
      cases h
      cases hf

theorem exists_compound_of_ofJson {v : Json} {f : Fault} (h : Document.ofJson v = .error f) (hf : f.isInvalid = false) :
    ∃ items, v.member? "methods" = some (.arr items) ∧ Occurs IsCompound items := by
  cases v with
  | obj m =>
    rw [Document.ofJson] at h
    cases hentries : entriesOf (Json.find? "methods" m) with
    | ok es =>
      simp only [hentries, bind, Except.bind] at h
      split at h
      · cases h
      · cases h
        cases hf
    | error g =>
      rw [hentries] at h
      cases h
      exact exists_compound_of_entriesOf hentries hf
  | _ =>
    cases h
    cases hf

/-- The methods of a document that was read stand for those of its value, if none takes the place of another. -/
theorem represents_of_ofJson {v : Json} {d : Document} (hkeys : v.KeysOnce) (h : Document.ofJson v = .ok d)
    (hplaces : ∀ items, v.member? "methods" = some (.arr items) → ¬ Occurs TakesPlace items) : d.Represents v := by
  obtain ⟨hmethods, htypes⟩ := ofJson_eq_ok h
  refine ⟨?_, nodup_names_of_entriesOf hmethods, htypes⟩
  cases hfind : v.member? "methods" with
  | none =>
    rw [hfind] at hmethods
    cases hmethods
  | some methods =>
    rw [hfind] at hmethods
    refine ⟨methods, rfl, ?_⟩
    cases methods with
    | obj m => exact .members (forall₂_of_entriesOfMembers ((Json.keysOnce_obj m).mp (hkeys.member? hfind)).1 hmethods)
    | arr items => exact .items (forall₂_of_entriesOfItems (hplaces items hfind) hmethods)
    | _ => cases hmethods

theorem ofText_of_read? {text : String} {v : Json} (h : Json.read? text = some v) :
    Document.ofText text = Document.ofJson v := by
  unfold Document.ofText
  rw [h]

/-- A text that loads faithfully has no name of the two kinds. -/
theorem LoadsFaithfully.not_occurs {text : String} (h : LoadsFaithfully text) {items : List Json}
    (hitems : ListsMethods text items) :
    ¬ Occurs IsCompound items ∧ ((Document.ofText text).isOk = true → ¬ Occurs TakesPlace items) := by
  obtain ⟨v, hv, hmethods⟩ := hitems
  constructor
  · intro hcompound
    obtain ⟨f, hf, hkind⟩ := entriesOfItems_compound_iff.mpr hcompound
    rw [h.refused f ((ofText_of_read? hv).trans (ofJson_eq_error hmethods hf))] at hkind
    cases hkind
  · intro hok hplace
    obtain ⟨d, hd⟩ := isOk_iff.mp hok
    obtain ⟨w, hw, hrepresents⟩ := h.represents d hd
    obtain rfl : v = w := Option.some.inj (hv.symm.trans hw)
    obtain ⟨methods, hfind, hall⟩ := hrepresents.methods
    obtain rfl : .arr items = methods := Option.some.inj (hmethods.symm.trans hfind)
    cases hall with
    | items hall => exact not_takesPlace_of_forall₂ hrepresents.names hall hplace

/-- A text without names of the two kinds loads faithfully. -/
theorem loadsFaithfully_of_not_occurs {text : String} (h : ∀ items, ListsMethods text items →
    ¬ Occurs IsCompound items ∧ ((Document.ofText text).isOk = true → ¬ Occurs TakesPlace items)) :
    LoadsFaithfully text := by
  cases hv : Json.read? text with
  | none =>
    have hmalformed : Document.ofText text = .error .malformed := by
      rw [Document.ofText, hv]
    refine ⟨fun f hf => ?_, fun d hd => ?_⟩
    · cases hmalformed.symm.trans hf
      rfl
    · cases hmalformed.symm.trans hd
  | some v =>
    refine ⟨fun f hf => Bool.of_not_eq_false fun hkind => ?_, fun d hd => ⟨v, hv, ?_⟩⟩
    · rw [ofText_of_read? hv] at hf
      obtain ⟨items, hmethods, hcompound⟩ := exists_compound_of_ofJson hf hkind
      exact (h items ⟨v, hv, hmethods⟩).1 hcompound
    · have hok : (Document.ofText text).isOk = true := isOk_iff.mpr ⟨d, hd⟩
      rw [ofText_of_read? hv] at hd
      exact represents_of_ofJson (Json.keysOnce_of_read? hv) hd fun items hmethods => (h items ⟨v, hv, hmethods⟩).2 hok

/-- A name that is the text of a name before it is refused. -/
theorem ofText_eq_duplicate {text s : String} {before after : List Json} {v : Json}
    (hitems : ListsMethods text (before ++ v :: after)) (hloads : (entriesOfItems before).isOk = true)
    (hcarried : carried? v = some (.str s)) (hs : s ∈ before.filterMap nameOf?) :
    Document.ofText text = .error (.duplicate s) := by
  obtain ⟨w, hw, hmethods⟩ := hitems
  obtain ⟨done, hbefore⟩ := isOk_iff.mp hloads
  rw [ofText_of_read? hw, ofJson_eq_error hmethods (entriesOfItems_eq_duplicate hbefore hcarried hs)]

/-- A text loads faithfully exactly if, where its methods are a list, no name is a list or an object that is met, and
no entry takes the place of another in what is loaded. A name that is the text of a name before it is always refused. -/
theorem loadsFaithfully_iff (text : String) :
    (LoadsFaithfully text ↔ ∀ items, ListsMethods text items →
      ¬ Occurs IsCompound items ∧ ((Document.ofText text).isOk = true → ¬ Occurs TakesPlace items)) ∧
    ∀ before v after s, ListsMethods text (before ++ v :: after) → (entriesOfItems before).isOk = true →
      carried? v = some (.str s) → s ∈ before.filterMap nameOf? → Document.ofText text = .error (.duplicate s) :=
  ⟨⟨fun h _ hitems => h.not_occurs hitems, loadsFaithfully_of_not_occurs⟩,
    fun _ _ _ _ hitems hloads hcarried hs => ofText_eq_duplicate hitems hloads hcarried hs⟩

/-- A list of two methods: the first is named by the text `1`, the name of the second is given. -/
def pairText (second : List Char) : List Char :=
  ['\x7b', '"', 'm', 'e', 't', 'h', 'o', 'd', 's', '"', ':', '[', '\x7b', '"', 'n', 'a', 'm', 'e', '"', ':', '"', '1',
  '"', ',', '"', 'e', 'n', 't', 'r', 'y', '_', 'p', 'o', 'i', 'n', 't', '"', ':', '1', '\x7d', ',', '\x7b', '"', 'n',
  'a', 'm', 'e', '"', ':'] ++
    second ++
    [',', '"', 'e', 'n', 't', 'r', 'y', '_', 'p', 'o', 'i', 'n', 't', '"', ':', '2', '\x7d', ']', ',', '"', 't', 'y',
    'p', 'e', 's', '"', ':', '"', 't', '"', '\x7d']

/-- The items of the list. -/
def pairItems (second : Json) : List Json :=
  [.obj [("name", .str "1"), ("entry_point", .int 1)], .obj [("name", second), ("entry_point", .int 2)]]

theorem read?_pairText_str : Json.read? (String.ofList (pairText ['"', '1', '"'])) =
    some (.obj [("methods", .arr (pairItems (.str "1"))), ("types", .str "t")]) := by
  apply Json.read?_ofList
  rfl

theorem read?_pairText_int : Json.read? (String.ofList (pairText ['1'])) =
    some (.obj [("methods", .arr (pairItems (.int 1))), ("types", .str "t")]) := by
  apply Json.read?_ofList
  rfl

/-- The name `1` written twice as text is refused. -/
theorem loadsFaithfully_pairText : LoadsFaithfully (String.ofList (pairText ['"', '1', '"'])) ∧
    Document.ofText (String.ofList (pairText ['"', '1', '"'])) = .error (.duplicate "1") := by
  have hlists : ListsMethods (String.ofList (pairText ['"', '1', '"'])) (pairItems (.str "1")) :=
    ⟨_, read?_pairText_str, rfl⟩
  obtain ⟨hiff, hrefused⟩ := loadsFaithfully_iff (String.ofList (pairText ['"', '1', '"']))
  have hload := hrefused [.obj [("name", .str "1"), ("entry_point", .int 1)]]
    (.obj [("name", .str "1"), ("entry_point", .int 2)]) [] "1" hlists rfl rfl (by decide)
  have htext : ∀ v ∈ pairItems (.str "1"), carried? v = some (.str "1") := by
    intro v hv
    rcases List.mem_pair.mp hv with rfl | rfl <;> rfl
  refine ⟨hiff.mpr ?_, hload⟩
  rintro items ⟨w, hw, hmethods⟩
  obtain rfl := Option.some.inj (read?_pairText_str.symm.trans hw)
  obtain rfl : pairItems (.str "1") = items := Json.arr.inj (Option.some.inj hmethods)
  constructor
  · rintro ⟨before, v, after, hsplit, -, ⟨l, hl⟩ | ⟨m, hm⟩⟩
    · cases (htext v (by simp [hsplit])).symm.trans hl
    · cases (htext v (by simp [hsplit])).symm.trans hm
  · rintro - ⟨before, v, after, hsplit, n, hn, hplain, -⟩
    cases (htext v (by simp [hsplit])).symm.trans hn
    cases hplain

/-- The name `1` written as text and as a number is loaded as one method. -/
theorem not_loadsFaithfully_pairText : ¬ LoadsFaithfully (String.ofList (pairText ['1'])) := by
  intro h
  have hload : Document.ofText (String.ofList (pairText ['1'])) = .ok ⟨[⟨"1", "", "", 2, "", false⟩], "t"⟩ :=
    (ofText_of_read? read?_pairText_int).trans rfl
  obtain ⟨v, hv, hrepresents⟩ := h.represents _ hload
  obtain rfl := Option.some.inj (read?_pairText_int.symm.trans hv)
  obtain ⟨methods, hmethods, hall⟩ := hrepresents.methods
  obtain rfl : .arr (pairItems (.int 1)) = methods := Option.some.inj hmethods
  cases hall with
  | items hall => exact absurd hall.length_eq (by decide)

end ContractShell.Interface
