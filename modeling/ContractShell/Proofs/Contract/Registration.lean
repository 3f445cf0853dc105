import ContractShell.Proofs.Correspondence
import ContractShell.Proofs.Library.Derivation
import ContractShell.Session.Basic

/-!
What a registration adds to a session.

A contract's methods are found one after the other, with the schemas of the earlier ones remembered; they are those that
each entry would have on its own. No command of a new contract takes the name of an earlier one, so the earlier names
resolve as before.

## Main statements

* `prepare_eq_ok_iff`: when the contract of a document and its commands can be made, and which they are.
* `enroll_all_or_nothing`: a registration that fails changes nothing, and one that succeeds only adds.
-/

namespace ContractShell

open Command (Declaration Registry)

namespace Registration

/-! ## 1. Methods -/

/-- The method of an entry, with the schemas of its types in a library. -/
def IsMethod (lib : Library) (e : Interface.Entry) (m : Method) : Prop :=
  m.name = e.name ∧ lib.schema e.argument = .ok m.arguments ∧ lib.schema e.result = .ok m.result ∧
    m.entryPoint = e.entryPoint ∧ m.readOnly = e.readOnly ∧ m.description = e.description

/-- The command of a method. Its arguments are those of the method's schema. -/
def IsCommandOf (contract : String) (m : Method) (d : Declaration) : Prop :=
  d.name = Contract.commandName contract m.name ∧ m.arguments.args = .ok d.args ∧ d.description = m.description ∧
    d.hidden = false ∧ d.action = .method contract m

theorem schema_of_schemaFrom {lib : Library} {memo memo' : Library.Memo} (hmemo : memo.Sound lib) {name : String}
    {result : Except SchemaFault Schema} (h : lib.schemaFrom memo name = (result, memo')) :
    memo'.Sound lib ∧ ∀ schema, result = .ok schema ↔ lib.schema name = .ok schema := by
  have hsound := Library.schemaFrom_sound hmemo name
  rw [h] at hsound
  refine ⟨hsound, ?_⟩
  intro schema
  have hfound := @Library.schemaFrom_eq_ok_iff lib memo hmemo name schema
  rw [h] at hfound
  exact hfound.trans Library.schema_eq_ok_iff.symm

theorem forall₂_of_methodsFrom {lib : Library} {memo : Library.Memo} (hmemo : memo.Sound lib)
    {es : List Interface.Entry} {ms : List Method} (h : methodsFrom lib memo es = .ok ms) :
    List.Forall₂ (IsMethod lib) es ms := by
  -- What is remembered after an entry is sound again, so the next entry is found as it would be by itself.
  induction es generalizing memo ms with
  | nil =>
    cases h
    exact .nil
  | cons e r ih =>
    unfold methodsFrom at h
    split at h
    · cases h
    · rename_i arguments memo₁ hfirst
      have harguments := schema_of_schemaFrom hmemo hfirst
      split at h
      · cases h
      · rename_i result memo₂ hsecond
        have hresult := schema_of_schemaFrom harguments.1 hsecond
        cases hrest : methodsFrom lib memo₂ r with
        | error f =>
          rw [hrest] at h
          cases h
        | ok rest =>
          rw [hrest] at h
          cases h
          have hmethod : IsMethod lib e ⟨e.name, arguments, result, e.entryPoint, e.readOnly, e.description⟩ :=
            ⟨rfl, (harguments.2 _).mp rfl, (hresult.2 _).mp rfl, rfl, rfl, rfl⟩
          exact .cons hmethod (ih hresult.1 hrest)

theorem methodsFrom_of_forall₂ {lib : Library} {es : List Interface.Entry} {ms : List Method}
    (h : List.Forall₂ (IsMethod lib) es ms) (memo : Library.Memo) (hmemo : memo.Sound lib) :
    methodsFrom lib memo es = .ok ms := by
  induction h generalizing memo with
  | nil => rfl
  | @cons e m r rest hm hrest ih =>
    obtain ⟨name, arguments, result, entryPoint, readOnly, description⟩ := m
    obtain ⟨rfl, harguments, hresult, rfl, rfl, rfl⟩ := hm
    unfold methodsFrom
    cases hfirst : lib.schemaFrom memo e.argument with
    | mk found memo₁ =>
      have hfound := schema_of_schemaFrom hmemo hfirst
      rw [(hfound.2 _).mpr harguments]
      cases hsecond : lib.schemaFrom memo₁ e.result with
      | mk found' memo₂ =>
        have hfound' := schema_of_schemaFrom hfound.1 hsecond
        rw [(hfound'.2 _).mpr hresult] at hsecond
        simp only [hsecond, ih memo₂ hfound'.1]
        rfl

theorem methodsOf_eq_ok_iff {lib : Library} {d : Interface.Document} {ms : List Method} :
    methodsOf lib d = .ok ms ↔
      List.Forall₂ (IsMethod lib) (d.methods.mergeSort fun a b => a.name ≤ b.name) ms := by
  unfold methodsOf
  constructor
  · exact forall₂_of_methodsFrom Library.Memo.sound_nil
  · exact fun h => methodsFrom_of_forall₂ h [] Library.Memo.sound_nil

/-! ## 2. Commands -/

theorem declarationOf_eq_ok_iff {contract : String} {m : Method} {d : Declaration} :
    declarationOf contract m = .ok d ↔ IsCommandOf contract m d := by
  unfold declarationOf IsCommandOf
  split
  · rename_i f hargs
    constructor
    · intro h
      cases h
    · rintro ⟨_, hd, _⟩
      rw [hargs] at hd
      cases hd
  · rename_i args hargs
    constructor
    · intro h
      cases h
      exact ⟨rfl, hargs, rfl, rfl, rfl⟩
    · rintro ⟨hname, hd, hdescription, hhidden, haction⟩
      rw [hargs] at hd
      cases hd
      obtain ⟨name, description, args, hidden, action, _⟩ := d
      cases hname
      cases hdescription
      cases hhidden
      cases haction
      rfl

/-- A name that is taken is found before the arguments of the method are looked at. -/
theorem declarationsFor_cons_eq_ok_iff {commands : Registry} {contract : String} {m : Method} {r : List Method}
    {ds : List Declaration} :
    declarationsFor commands contract (m :: r) = .ok ds ↔
      commands.contains (Contract.commandName contract m.name) = false ∧
        ∃ d rest, declarationOf contract m = .ok d ∧ declarationsFor commands contract r = .ok rest ∧ ds = d :: rest := by
  rw [declarationsFor]
  cases htaken : commands.contains (Contract.commandName contract m.name) with
  | true => simp
  | false =>
    cases hd : declarationOf contract m with
    | error f => simp
    | ok d =>
      cases hrest : declarationsFor commands contract r with
      | error f => simp [Except.map]
      | ok rest => simp [Except.map, eq_comm]

theorem declarationsFor_eq_ok_iff {commands : Registry} {contract : String} {ms : List Method}
    {ds : List Declaration} :
    declarationsFor commands contract ms = .ok ds ↔
      (∀ m ∈ ms, commands.contains (Contract.commandName contract m.name) = false) ∧
        List.Forall₂ (IsCommandOf contract) ms ds := by
  induction ms generalizing ds with
  | nil =>
    rw [declarationsFor, List.forall₂_nil_left_iff, Except.ok.injEq, eq_comm]
    simp
  | cons m r ih =>
    rw [declarationsFor_cons_eq_ok_iff, List.forall_mem_cons, List.forall₂_cons_left_iff]
    constructor
    · rintro ⟨hfree, d, rest, hd, hrest, rfl⟩
      obtain ⟨hfrees, hall⟩ := ih.mp hrest
      exact ⟨⟨hfree, hfrees⟩, d, rest, declarationOf_eq_ok_iff.mp hd, hall, rfl⟩
    · rintro ⟨⟨hfree, hfrees⟩, d, rest, hd, hall, rfl⟩
      exact ⟨hfree, d, rest, declarationOf_eq_ok_iff.mpr hd, ih.mpr ⟨hfrees, hall⟩, rfl⟩

theorem prepare_eq_ok_iff {contracts : Contracts} {commands : Registry} {name address : String}
    {d : Interface.Document} {c : Contract} {ds : List Declaration} :
    prepare contracts commands name address d = .ok (c, ds) ↔
      isName name = true ∧ contracts.contains name = false ∧ c.name = name ∧
        Base58.decode address.toList = .ok c.address ∧ Library.ofText d.types = .ok c.library ∧
        List.Forall₂ (IsMethod c.library) (d.methods.mergeSort fun a b => a.name ≤ b.name) c.methods ∧
        (∀ m ∈ c.methods, commands.contains (Contract.commandName name m.name) = false) ∧
        List.Forall₂ (IsCommandOf name) c.methods ds := by
  obtain ⟨cname, caddress, cmethods, clibrary⟩ := c
  rw [← methodsOf_eq_ok_iff]
  simp only [← declarationsFor_eq_ok_iff]
  unfold prepare
  constructor
  · intro h
    split at h
    · cases h
    · rename_i hname
      split at h
      · cases h
      · rename_i hfresh
        split at h
        · cases h
        · rename_i addressBytes haddress
          split at h
          · cases h
          · rename_i lib hlib
            split at h
            · cases h
            · rename_i methods hmethods
              cases hds : declarationsFor commands name methods with
              | error f =>
                rw [hds] at h
                cases h
              | ok found =>
                rw [hds] at h
                cases h
                exact ⟨by simpa using hname, by simpa using hfresh, rfl, haddress, hlib, hmethods, hds⟩
  · rintro ⟨hname, hfresh, rfl, haddress, hlib, hmethods, hds⟩
    rw [if_neg (by simp [hname]), if_neg (by simp [hfresh])]
    simp only [haddress, hlib, hmethods, hds]
    rfl

end Registration

/-! ## 3. Tables -/

theorem find?_foldl_add_of_not_mem {ds : List Declaration} {name : String} (h : name ∉ ds.map (·.name)) (r : Registry) :
    (ds.foldl Registry.add r).find? name = r.find? name := by
  induction ds generalizing r with
  | nil => rfl
  | cons d ds ih =>
    rw [List.map_cons, List.mem_cons, not_or] at h
    rw [List.foldl_cons, ih h.2, Registry.find?_add_other r d (Ne.symm h.1)]

theorem find?_foldl_add_of_mem {ds : List Declaration} (hnodup : (ds.map (·.name)).Nodup) {d : Declaration}
    (hd : d ∈ ds) (r : Registry) : (ds.foldl Registry.add r).find? d.name = some d := by
  induction ds generalizing r with
  | nil => cases hd
  | cons e ds ih =>
    rw [List.map_cons, List.nodup_cons] at hnodup
    rw [List.foldl_cons]
    rcases List.mem_cons.mp hd with rfl | hd
    · rw [find?_foldl_add_of_not_mem hnodup.1, Registry.find?_add_self]
    · exact ih hnodup.2 hd _

theorem commandName_injective {contract a b : String}
    (h : Contract.commandName contract a = Contract.commandName contract b) : a = b := by
  unfold Contract.commandName at h
  rw [← String.toList_inj] at h ⊢
  simpa using h

/-! ## 4. Sessions -/

/-- A contract of a document can be registered: its name is of the right form and not taken, its address can be read, its
types load, and each of its methods has schemas, arguments, and a command that is not there yet. -/
structure Registrable (s : Session) (name address : String) (d : Interface.Document) : Prop where
  name_valid : Registration.isName name = true
  name_free : s.contracts.contains name = false
  address_valid : ∃ b, Base58.decode address.toList = .ok b
  methods_valid : ∃ lib, Library.ofText d.types = .ok lib ∧ ∀ e ∈ d.methods,
    s.commands.contains (Contract.commandName name e.name) = false ∧
      (∃ arguments args, lib.schema e.argument = .ok arguments ∧ arguments.args = .ok args) ∧
      ∃ result, lib.schema e.result = .ok result

/-- What a session is after a contract was registered: the contract stands at the end of the table of contracts, its
commands stand at the end of the table of commands in the order of the methods' names, and nothing else has changed. -/
structure Enrolled (s : Session) (name address : String) (d : Interface.Document) (c : Contract) (after : Session) :
    Prop where
  others : after = { s with contracts := after.contracts, commands := after.commands }
  contracts : after.contracts.all = s.contracts.all ++ [c]
  contract_name : c.name = name
  contract_address : Base58.decode address.toList = .ok c.address
  contract_library : Library.ofText d.types = .ok c.library
  commands : ∃ es ds, es.Perm d.methods ∧ es.Pairwise (·.name ≤ ·.name) ∧
    List.Forall₂ (Registration.IsMethod c.library) es c.methods ∧
    List.Forall₂ (Registration.IsCommandOf name) c.methods ds ∧
    after.commands.declarations = s.commands.declarations ++ ds ∧
    ((d.methods.map (·.name)).Nodup → ∀ x ∈ ds, after.commands.find? x.name = some x)
  revision : after.commands.revision = s.commands.revision + d.methods.length
  contracts_kept : ∀ other, s.contracts.contains other = true → after.contracts.find? other = s.contracts.find? other
  commands_kept : ∀ other, s.commands.contains other = true → after.commands.find? other = s.commands.find? other

theorem registrable_iff {s : Session} {name address : String} {d : Interface.Document} :
    Registrable s name address d ↔
      ∃ c ds, Registration.prepare s.contracts s.commands name address d = .ok (c, ds) := by
  have hmem : ∀ e, e ∈ d.methods.mergeSort (fun a b => a.name ≤ b.name) ↔ e ∈ d.methods := fun e =>
    (List.mergeSort_perm d.methods _).mem_iff
  simp only [Registration.prepare_eq_ok_iff]
  constructor
  · rintro ⟨hname, hfree, ⟨b, hb⟩, lib, hlib, hmethods⟩
    -- Each entry has a method and each method a command, so there are lists of them.
    obtain ⟨ms, hms⟩ : ∃ ms, List.Forall₂ (Registration.IsMethod lib)
        (d.methods.mergeSort fun a b => a.name ≤ b.name) ms := by
      apply exists_forall₂
      intro e he
      obtain ⟨_, ⟨arguments, args, harguments, _⟩, result, hresult⟩ := hmethods e ((hmem e).mp he)
      exact ⟨⟨e.name, arguments, result, e.entryPoint, e.readOnly, e.description⟩, rfl, harguments, hresult, rfl, rfl, rfl⟩
    obtain ⟨ds, hds⟩ : ∃ ds, List.Forall₂ (Registration.IsCommandOf name) ms ds := by
      apply exists_forall₂
      intro m hm
      obtain ⟨e, he, hmethod⟩ := forall₂_mem_left hms hm
      obtain ⟨_, ⟨arguments, args, harguments, hargs⟩, _⟩ := hmethods e ((hmem e).mp he)
      have hsame : m.arguments = arguments := Except.ok.inj (hmethod.2.1.symm.trans harguments)
      rw [← hsame] at hargs
      exact ⟨⟨_, m.description, args, false, .method name m, Command.optionalLast_of_required (required_of_args hargs)⟩,
        rfl, hargs, rfl, rfl, rfl⟩
    refine ⟨⟨name, b, ms, lib⟩, ds, hname, hfree, rfl, hb, hlib, hms, ?_, hds⟩
    intro m hm
    obtain ⟨e, he, hmethod⟩ := forall₂_mem_left hms hm
    rw [hmethod.1]
    exact (hmethods e ((hmem e).mp he)).1
  · rintro ⟨c, ds, hname, hfree, _, hb, hlib, hms, hfrees, hds⟩
    refine ⟨hname, hfree, ⟨_, hb⟩, c.library, hlib, ?_⟩
    intro e he
    obtain ⟨m, hm, hmethod⟩ := forall₂_mem_right hms ((hmem e).mpr he)
    obtain ⟨x, _, hx⟩ := forall₂_mem_right hds hm
    refine ⟨?_, ⟨m.arguments, x.args, hmethod.2.1, hx.2.1⟩, m.result, hmethod.2.2.1⟩
    rw [← hmethod.1]
    exact hfrees m hm

theorem enroll_of_prepare {s : Session} {name address : String} {d : Interface.Document} {c : Contract}
    {ds : List Declaration} (h : Registration.prepare s.contracts s.commands name address d = .ok (c, ds)) :
    s.enroll name address d =
      (.ok c, { s with contracts := s.contracts.add c, commands := ds.foldl Registry.add s.commands }) := by
  obtain ⟨_, hfree, hname, _⟩ := Registration.prepare_eq_ok_iff.mp h
  have hinsert : s.contracts.insert c = .ok (s.contracts.add c) := by
    unfold Contracts.insert
    rw [hname, hfree]
    rfl
  unfold Session.enroll Registration.register
  rw [h]
  simp only [hinsert]

/-- A registration that fails leaves the session as it was. -/
theorem session_of_enroll_error {s after : Session} {name address : String} {d : Interface.Document}
    {f : Registration.Fault} (h : s.enroll name address d = (.error f, after)) : after = s := by
  unfold Session.enroll at h
  split at h
  · cases h
    rfl
  · cases h

/-- What a registration adds, and that it adds nothing under a name that was there before. -/
theorem enrolled_of_prepare {s : Session} {name address : String} {d : Interface.Document} {c : Contract}
    {ds : List Declaration} (h : Registration.prepare s.contracts s.commands name address d = .ok (c, ds)) :
    Enrolled s name address d c
      { s with contracts := s.contracts.add c, commands := ds.foldl Registry.add s.commands } := by
  obtain ⟨_, hfree, hname, haddress, hlib, hms, hfrees, hds⟩ := Registration.prepare_eq_ok_iff.mp h
  have hperm := List.mergeSort_perm d.methods fun a b => decide (a.name ≤ b.name)
  have hdecls := Registration.declarations_foldl_add ds s.commands
  -- The new commands are named after the methods, which are the entries of the document in another order.
  have hnames : ds.map (·.name) = (c.methods.map (·.name)).map (Contract.commandName name) := by
    rw [List.map_map]
    exact (map_eq_of_forall₂ (fun m x hx => hx.1.symm) hds).symm
  have hmethods : c.methods.map (·.name) = (d.methods.mergeSort fun a b => a.name ≤ b.name).map (·.name) :=
    (map_eq_of_forall₂ (fun e m hm => hm.1.symm) hms).symm
  refine ⟨rfl, rfl, hname, haddress, hlib, ⟨_, ds, hperm, ?_, hms, hds, hdecls, ?_⟩, ?_, ?_, ?_⟩
  · have hsorted := @List.pairwise_mergeSort _ (fun a b : Interface.Entry => decide (a.name ≤ b.name))
      (fun a b c hab hbc => by simpa using String.le_trans (of_decide_eq_true hab) (of_decide_eq_true hbc))
      (fun a b => by simpa using String.le_total a.name b.name) d.methods
    exact hsorted.imp of_decide_eq_true
  · intro hnodup x hx
    have hsorted : (c.methods.map (·.name)).Nodup := by
      rw [hmethods]
      exact (hperm.map (·.name)).nodup_iff.mpr hnodup
    have hdistinct : (ds.map (·.name)).Nodup := by
      rw [hnames]
      exact List.Pairwise.map _ (fun _ _ hne h => hne (commandName_injective h)) hsorted
    exact find?_foldl_add_of_mem hdistinct hx s.commands
  · rw [Registry.counted, Registry.counted, hdecls, List.length_append, ← hds.length_eq, ← hms.length_eq, hperm.length_eq]
  · intro other hother
    apply Contracts.find?_add_other
    rintro rfl
    rw [hname, hfree] at hother
    cases hother
  · intro other hother
    apply find?_foldl_add_of_not_mem
    rw [hnames]
    intro hmem
    obtain ⟨n, hn, rfl⟩ := List.mem_map.mp hmem
    obtain ⟨m, hm, rfl⟩ := List.mem_map.mp hn
    rw [hfrees m hm] at hother
    cases hother

/-- A registration that succeeds finds its name well-formed and free. -/
theorem enrolled_of_enroll {s after : Session} {name address : String} {d : Interface.Document} {c : Contract}
    (h : s.enroll name address d = (.ok c, after)) :
    Registration.isName name = true ∧ s.contracts.find? name = none ∧ Enrolled s name address d c after := by
  cases hprepare : Registration.prepare s.contracts s.commands name address d with
  | error f =>
    unfold Session.enroll Registration.register at h
    rw [hprepare] at h
    cases h
  | ok p =>
    obtain ⟨c', ds⟩ := p
    rw [enroll_of_prepare hprepare] at h
    cases h
    obtain ⟨hvalid, hfree, -⟩ := Registration.prepare_eq_ok_iff.mp hprepare
    rw [Contracts.contains, Option.isSome_eq_false_iff, Option.isNone_iff_eq_none] at hfree
    exact ⟨hvalid, hfree, enrolled_of_prepare hprepare⟩

/-- The name of a new contract is new, so the contracts still have different names. -/
theorem Enrolled.nodup_names {s after : Session} {name address : String} {d : Interface.Document} {c : Contract}
    (h : Enrolled s name address d c after) (hfree : s.contracts.find? name = none)
    (hnodup : (s.contracts.all.map (·.name)).Nodup) : (after.contracts.all.map (·.name)).Nodup := by
  rw [h.contracts, List.map_append, List.map_singleton, h.contract_name]
  refine List.nodup_append.mpr ⟨hnodup, List.nodup_singleton _, ?_⟩
  intro a ha b hb
  rw [List.mem_singleton.mp hb]
  obtain ⟨other, hother, rfl⟩ := List.mem_map.mp ha
  intro heq
  have hnone := List.find?_eq_none.mp hfree other hother
  rw [heq, beq_self_eq_true] at hnone
  exact hnone rfl

/-- A contract is registered when it can be, and then the session has it and its commands beside all that it had; when it
cannot be, the session stays as it is. -/
theorem enroll_all_or_nothing (s : Session) (name address : String) (d : Interface.Document) :
    (¬ Registrable s name address d ∧ ∃ f, s.enroll name address d = (.error f, s)) ∨
      (Registrable s name address d ∧
        ∃ c after, s.enroll name address d = (.ok c, after) ∧ Enrolled s name address d c after) := by
  rw [registrable_iff]
  cases h : Registration.prepare s.contracts s.commands name address d with
  | error f =>
    left
    refine ⟨by simp, f, ?_⟩
    unfold Session.enroll Registration.register
    rw [h]
  | ok p =>
    obtain ⟨c, ds⟩ := p
    right
    exact ⟨⟨c, ds, rfl⟩, c, _, enroll_of_prepare h, enrolled_of_prepare h⟩

end ContractShell
