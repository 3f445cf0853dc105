import ContractShell.Command.Standard
import ContractShell.Proofs.Contract.Reach
import ContractShell.Proofs.Session.MethodCall
import ContractShell.Proofs.Session.Turn
import Mathlib.Data.List.Induction
import Mathlib.Data.List.Sort
import Mathlib.Data.String.Basic

/-!
The names of commands, from the start of a session on.

The table of commands accepts any name; that names differ is owed to those who add to it. In a session that starts with the
built-in commands it never comes to a name that is added twice. The name of a contract has no point in it and is not taken
twice, and the methods of a document have different names, so the point after the contract's name keeps all commands apart,
even if the names of methods hold more points.

## Main statements

* `Registry.lookup_index`: the index of the table finds what the table resolves a name to.
* `Session.IsStocked.isWellNamed`: which names there are, and what they stand for.
* `Shell.isWellNamed_run`: this holds throughout every run, and the command of a method always finds its contract.
-/

namespace ContractShell

open Command (Declaration Registry)

/-! ## 1. The index -/

namespace Command.Registry

/-- A table is empty, or a declaration was added to it. -/
theorem addRecOn {P : Registry → Prop} (r : Registry) (empty : P .empty) (add : ∀ r d, P r → P (r.add d)) : P r := by
  obtain ⟨ds, hds⟩ : ∃ ds, r = ofDeclarations ds := ⟨r.declarations, (ofDeclarations_declarations r).symm⟩
  subst hds
  induction ds using List.reverseRecOn with
  | nil => exact empty
  | append_singleton ds d ih =>
    have hadded := add _ d ih
    rw [add_eq] at hadded
    exact hadded

/-- Sets what a name stands for in an index. A name that is there keeps its place. -/
def setEntry (d : Declaration) : List (String × Declaration) → List (String × Declaration)
  | [] => [(d.name, d)]
  | (name, x) :: r => if name = d.name then (name, d) :: r else (name, x) :: setEntry d r

/-- The index that the additions to a table build: each name once, with the declaration that was added last. -/
def index (r : Registry) : List (String × Declaration) := r.declarations.foldl (fun entries d => setEntry d entries) []

theorem index_add (r : Registry) (d : Declaration) : (r.add d).index = setEntry d r.index := by
  simp [index, add]

theorem lookup_setEntry_self (d : Declaration) (entries : List (String × Declaration)) :
    (setEntry d entries).lookup d.name = some d := by
  induction entries with
  | nil => exact List.lookup_cons_self
  | cons p entries ih =>
    rw [setEntry]
    by_cases hp : p.1 = d.name
    · rw [if_pos hp, hp]
      exact List.lookup_cons_self
    · have hne : (d.name == p.1) = false := by simpa using Ne.symm hp
      rw [if_neg hp, List.lookup_cons, hne]
      exact ih

theorem lookup_setEntry_other {d : Declaration} {name : String} (h : d.name ≠ name)
    (entries : List (String × Declaration)) : (setEntry d entries).lookup name = entries.lookup name := by
  have hname : (name == d.name) = false := by simpa using Ne.symm h
  induction entries with
  | nil => simp only [setEntry, List.lookup_cons, hname, List.lookup_nil]
  | cons p entries ih =>
    obtain ⟨other, x⟩ := p
    rw [setEntry]
    by_cases hother : other = d.name
    · rw [if_pos hother, List.lookup_cons, List.lookup_cons, hother, hname]
    · rw [if_neg hother, List.lookup_cons, List.lookup_cons, ih]

/-- The index finds what the table resolves a name to. -/
theorem lookup_index (r : Registry) (name : String) : r.index.lookup name = r.find? name := by
  induction r using Registry.addRecOn with
  | empty => rfl
  | add r d ih =>
    rw [index_add]
    by_cases hname : d.name = name
    · rw [← hname, lookup_setEntry_self, find?_add_self]
    · rw [lookup_setEntry_other hname, ih, find?_add_other _ _ hname]

theorem setEntry_of_not_mem {d : Declaration} {entries : List (String × Declaration)} (h : d.name ∉ entries.map (·.1)) :
    setEntry d entries = entries ++ [(d.name, d)] := by
  induction entries with
  | nil => rfl
  | cons p entries ih =>
    rw [List.map_cons, List.mem_cons, not_or] at h
    rw [setEntry, if_neg (Ne.symm h.1), ih h.2, List.cons_append]

/-- When no name was added twice, the index has the names of the table. -/
theorem names_index {r : Registry} (h : r.names.Nodup) : r.index.map (·.1) = r.names := by
  induction r using Registry.addRecOn with
  | empty => rfl
  | add r d ih =>
    have hnames : (r.add d).names = r.names ++ [d.name] := by simp [names, add]
    rw [hnames] at h
    obtain ⟨hnodup, -, hnew⟩ := List.nodup_append.mp h
    have hrest := ih hnodup
    rw [index_add, setEntry_of_not_mem, List.map_append, hrest, hnames]
    · rfl
    · rw [hrest]
      exact fun hmem => hnew _ hmem _ (List.mem_singleton_self _) rfl

/-- When no name was added twice, every declaration is the one that its name resolves to. -/
theorem find?_of_mem {r : Registry} (h : r.names.Nodup) {d : Declaration} (hd : d ∈ r.declarations) :
    r.find? d.name = some d := by
  have hreverse : (r.declarations.reverse.map (·.name)).Nodup := by
    rw [List.map_reverse, List.nodup_reverse]
    exact h
  exact find?_eq_some_of_nodup hreverse (List.mem_reverse.mpr hd)

theorem mem_of_find? {r : Registry} {name : String} {d : Declaration} (h : r.find? name = some d) :
    d ∈ r.declarations := List.mem_reverse.mp (List.mem_of_find?_eq_some h)

/-- The names that listings show are in alphabetical order. -/
theorem pairwise_visibleNames (r : Registry) : r.visibleNames.Pairwise (· ≤ ·) := List.pairwise_mergeSort' (· ≤ ·) _

theorem visibleNames_perm (r : Registry) :
    r.visibleNames.Perm ((r.declarations.filter fun d => !d.hidden).map (·.name)) := List.mergeSort_perm _ _

end Command.Registry

/-! ## 2. What the names of commands tell -/

namespace Contract

/-- The name of a command tells the contract and the method. -/
theorem commandName_inj {c c' method method' : String} (hc : Registration.isName c = true)
    (hc' : Registration.isName c' = true) (h : commandName c method = commandName c' method') :
    c = c' ∧ method = method' := by
  have hsplit := congrArg (Text.split '.') (congrArg String.toList h)
  rw [toList_commandName, toList_commandName, Text.split_append (not_mem_of_isName hc),
    Text.split_append (not_mem_of_isName hc'), List.cons.injEq] at hsplit
  have hcontract := String.toList_inj.mp hsplit.1
  rw [hcontract] at h
  exact ⟨hcontract, commandName_injective h⟩

/-- No built-in command has a point in its name. -/
theorem commandName_not_standard (c method : String) : commandName c method ∉ Registry.standard.names := by
  have hnone : ∀ name ∈ Registry.standard.names, '.' ∉ name.toList := by decide
  intro hmem
  apply hnone _ hmem
  rw [toList_commandName]
  simp

/-- The names of a contract's commands. -/
def commandNames (c : Contract) : List String := c.methods.map fun m => commandName c.name m.name

end Contract

/-! ## 3. Sessions -/

/-- What the names of a session's commands are and what they stand for: they are all different, so that the table has as
many additions, entries and places in its index, which finds what the table resolves a name to; the built-in ones stand for
the built-in commands; the other ones are those of the contracts' methods, and each stands for a method that is found under
its name in a contract that is found under its name. -/
structure Session.IsWellNamed (s : Session) : Prop where
  names_nodup : s.commands.names.Nodup
  revision_eq : s.commands.revision = s.commands.size
  index_length : s.commands.index.length = s.commands.size
  index_lookup : ∀ name, s.commands.index.lookup name = s.commands.find? name
  standard : ∀ d ∈ Command.standardDeclarations, s.commands.find? d.name = some d
  names : s.commands.names = Registry.standard.names ++ s.contracts.all.flatMap Contract.commandNames
  methods : ∀ d ∈ s.commands.declarations, ∀ contract m, d.action = .method contract m →
    d.name = Contract.commandName contract m.name ∧
      ∃ c, s.contracts.get contract = .ok c ∧ c.method? m.name = some m

/-- The tables of a session hold the built-in commands and, for each contract in turn, one command for each method. The
contracts have different names without points, and each has methods of different names. -/
structure Session.IsStocked (s : Session) : Prop where
  contracts_nodup : (s.contracts.all.map (·.name)).Nodup
  isName : ∀ c ∈ s.contracts.all, Registration.isName c.name = true
  methods_nodup : ∀ c ∈ s.contracts.all, (c.methods.map (·.name)).Nodup
  declarations : ∃ dss, s.commands.declarations = Command.standardDeclarations ++ dss.flatten ∧
    List.Forall₂ (fun c ds => List.Forall₂ (Registration.IsCommandOf c.name) c.methods ds) s.contracts.all dss

theorem Session.IsStocked.start (disk : Disk) (environment : List (String × String)) (terms : Terms) :
    (Session.start Registry.standard disk environment terms).IsStocked where
  contracts_nodup := List.nodup_nil
  isName := by simp [Session.start, Contracts.empty]
  methods_nodup := by simp [Session.start, Contracts.empty]
  declarations := ⟨[], by rw [List.flatten_nil, List.append_nil]; rfl, .nil⟩

namespace Session.IsStocked

variable {s s' : Session}

theorem of_keeps (h : s.IsStocked) (hkeeps : s.Keeps s') : s'.IsStocked := by
  obtain ⟨hcontracts, hcommands⟩ := hkeeps
  constructor
  · rw [hcontracts]
    exact h.contracts_nodup
  · rw [hcontracts]
    exact h.isName
  · rw [hcontracts]
    exact h.methods_nodup
  · rw [hcontracts, hcommands]
    exact h.declarations

/-- A registration puts one contract at the end of its table and the contract's commands at the end of theirs. -/
theorem enroll (h : s.IsStocked) (name address : String) {d : Interface.Document} (hd : (d.methods.map (·.name)).Nodup) :
    (s.enroll name address d).2.IsStocked := by
  rcases henroll : s.enroll name address d with ⟨r, after⟩
  cases r with
  | error f =>
    rw [session_of_enroll_error henroll]
    exact h
  | ok c =>
    obtain ⟨hvalid, hfree, henrolled⟩ := enrolled_of_enroll henroll
    obtain ⟨es, ds, hperm, -, hms, hds, hadded, -⟩ := henrolled.commands
    obtain ⟨dss, hdeclarations, hcommands⟩ := h.declarations
    have hcontracts := henrolled.contracts
    have hname := henrolled.contract_name
    have hmethods : c.methods.map (·.name) = es.map (·.name) := (map_eq_of_forall₂ (fun e m hm => hm.1.symm) hms).symm
    refine ⟨henrolled.nodup_names hfree h.contracts_nodup, ?_, ?_, dss ++ [ds], ?_, ?_⟩
    · intro other hother
      rw [hcontracts] at hother
      rcases List.mem_append.mp hother with hother | hother
      · exact h.isName other hother
      · rw [List.mem_singleton.mp hother, hname]
        exact hvalid
    · intro other hother
      rw [hcontracts] at hother
      rcases List.mem_append.mp hother with hother | hother
      · exact h.methods_nodup other hother
      · rw [List.mem_singleton.mp hother, hmethods]
        exact (hperm.map (·.name)).nodup_iff.mpr hd
    · rw [hadded, hdeclarations, List.flatten_append, List.flatten_singleton, List.append_assoc]
    · rw [hcontracts]
      refine List.rel_append hcommands (.cons ?_ .nil)
      rw [hname]
      exact hds

theorem of_keepsOrEnrolls (h : s.IsStocked) (hstep : s.KeepsOrEnrolls s') : s'.IsStocked := by
  rcases hstep with hkeeps | ⟨name, address, d, hd, rfl⟩
  · exact h.of_keeps hkeeps
  · exact h.enroll name address hd

/-- The names of commands are those of the built-in commands and those of the contracts' methods, in this order. -/
theorem names_eq (h : s.IsStocked) :
    s.commands.names = Registry.standard.names ++ s.contracts.all.flatMap Contract.commandNames := by
  obtain ⟨dss, hdeclarations, hcommands⟩ := h.declarations
  have hnames : s.contracts.all.map Contract.commandNames = dss.map (List.map (·.name)) :=
    map_eq_of_forall₂ (fun c ds hds => map_eq_of_forall₂ (fun m d hd => hd.1.symm) hds) hcommands
  rw [Registry.names, hdeclarations, List.map_append, List.map_flatten, List.flatMap_def, hnames]
  rfl

theorem names_nodup (h : s.IsStocked) : s.commands.names.Nodup := by
  rw [h.names_eq]
  refine List.nodup_append.mpr ⟨Command.standard_names_nodup, ?_, ?_⟩
  · refine List.nodup_flatMap.mpr ⟨fun c hc => ?_, ?_⟩
    · have hmethods := h.methods_nodup c hc
      have hmap : c.commandNames = (c.methods.map (·.name)).map (Contract.commandName c.name) := by
        rw [List.map_map]
        rfl
      rw [hmap]
      exact hmethods.map fun _ _ heq => commandName_injective heq
    · -- Two contracts have different names, and these are what stands in front of the first point.
      have hpairs : s.contracts.all.Pairwise fun c c' => c.name ≠ c'.name :=
        List.pairwise_map.mp h.contracts_nodup
      refine hpairs.imp_of_mem fun {c c'} hc hc' hne => ?_
      intro name hname hname'
      obtain ⟨m, -, rfl⟩ := List.mem_map.mp hname
      obtain ⟨m', -, heq⟩ := List.mem_map.mp hname'
      exact hne (Contract.commandName_inj (h.isName c' hc') (h.isName c hc) heq).1.symm
  · intro name hstandard other hother
    rintro rfl
    obtain ⟨c, -, hname⟩ := List.mem_flatMap.mp hother
    obtain ⟨m, -, rfl⟩ := List.mem_map.mp hname
    exact Contract.commandName_not_standard _ _ hstandard

/-- The built-in commands are not commands of methods. -/
theorem standard_builtin : ∀ d ∈ Command.standardDeclarations, ∃ b, d.action = .builtin b := by
  simp [Command.standardDeclarations]

theorem isWellNamed (h : s.IsStocked) : s.IsWellNamed where
  names_nodup := h.names_nodup
  revision_eq := s.commands.counted
  index_length := by
    have hlength := congrArg List.length (Registry.names_index h.names_nodup)
    rw [List.length_map, Registry.names, List.length_map] at hlength
    exact hlength
  index_lookup := s.commands.lookup_index
  standard d hd := by
    obtain ⟨dss, hdeclarations, -⟩ := h.declarations
    exact Registry.find?_of_mem h.names_nodup (hdeclarations ▸ List.mem_append_left _ hd)
  names := h.names_eq
  methods d hd contract m haction := by
    obtain ⟨dss, hdeclarations, hcommands⟩ := h.declarations
    rw [hdeclarations] at hd
    rcases List.mem_append.mp hd with hd | hd
    · obtain ⟨b, hb⟩ := standard_builtin d hd
      rw [hb] at haction
      cases haction
    · obtain ⟨ds, hds, hd⟩ := List.mem_flatten.mp hd
      obtain ⟨c, hc, hmethods⟩ := forall₂_mem_left hcommands hds
      obtain ⟨m', hm', hname, -, -, -, hcall⟩ := forall₂_mem_left hmethods hd
      rw [hcall] at haction
      cases haction
      refine ⟨hname, c, ?_, Contract.method?_of_mem (h.methods_nodup c hc) hm'⟩
      have hfind : s.contracts.find? c.name = some c := find?_eq_some_of_nodup h.contracts_nodup hc
      rw [Contracts.get, hfind]

end Session.IsStocked

/-! ## 4. Why commands of methods fail -/

namespace Session

section

variable {α β : Type} {P : Fault → Prop}

/-- Whatever fault an attempt ends with has a property. -/
def Attempt.Blames (x : Attempt α) (P : Fault → Prop) : Prop := ∀ w f w', x w = (.error f, w') → P f

theorem blames_pure (a : α) : (pure a : Attempt α).Blames P := by
  intro w f w' h
  cases h

theorem blames_settle {r : Except Fault α} (hr : ∀ f, r = .error f → P f) : (settle r).Blames P := by
  intro w f w' h
  cases h
  exact hr f rfl

theorem blames_bind {x : Attempt α} {g : α → Attempt β} (hx : x.Blames P) (hg : ∀ a, (g a).Blames P) :
    (x >>= g).Blames P := by
  intro w f w' h
  rw [steps_bind_apply] at h
  cases hstep : x w with
  | mk r w₁ =>
    rw [hstep] at h
    cases r with
    | error e =>
      cases h
      exact hx w _ _ hstep
    | ok a => exact hg a w₁ f w' h

theorem of_mapError_eq_error {ε : Type} {r : Except ε α} {g : ε → Fault} (hg : ∀ e, P (g e)) {f : Fault}
    (h : r.mapError g = .error f) : P f := by
  cases r with
  | error e =>
    cases h
    exact hg e
  | ok a => cases h

end

/-- A fault is not that a contract or a method cannot be found. -/
def Fault.IsElsewhere (f : Fault) : Prop := ∀ fault, f ≠ .contract fault

theorem isElsewhere_key {s : Session} {action : String} {f : Fault} (h : s.key action = .error f) : f.IsElsewhere := by
  unfold key at h
  cases hwallet : s.wallet with
  | none =>
    rw [hwallet] at h
    cases h
    exact fun _ h => by cases h
  | some wallet =>
    rw [hwallet] at h
    cases h

theorem isElsewhere_client {s : Session} {action : String} {f : Fault} (h : s.client action = .error f) :
    f.IsElsewhere := by
  unfold Session.client at h
  cases hconnection : s.connection with
  | none =>
    rw [hconnection] at h
    cases h
    exact fun _ h => by cases h
  | some connection =>
    rw [hconnection] at h
    cases h

theorem isElsewhere_messageFor {c : Contract} {m : Method} {args : Command.Values} {f : Fault}
    (h : messageFor c m args = .error f) : f.IsElsewhere := by
  unfold messageFor at h
  cases hbind : (m.arguments.bind args).mapError Fault.bind with
  | error e =>
    rw [hbind] at h
    cases h
    exact of_mapError_eq_error (fun _ _ h => by cases h) hbind
  | ok value =>
    rw [hbind] at h
    cases hencode : (c.library.encode m.arguments value).mapError Fault.encode with
    | error e =>
      simp only [bind, Except.bind, hencode] at h
      cases h
      exact of_mapError_eq_error (fun _ _ h => by cases h) hencode
    | ok bytes =>
      simp only [bind, Except.bind, hencode] at h
      cases h

theorem blames_ask {γ : Type} (dialogue : Node.Dialogue γ) : (ask dialogue).Blames Fault.IsElsewhere := by
  intro w f w' h
  rw [ask_apply, Prod.mk.injEq] at h
  exact of_mapError_eq_error (fun _ _ h => by cases h) h.1

theorem blames_submit (announcement purpose : String) (dialogue : Node.Dialogue Json) :
    (submit announcement purpose dialogue).Blames Fault.IsElsewhere := by
  intro w f w' h
  have htalk : doing (talk dialogue) w = (.ok (dialogue w.network).1, { w with network := (dialogue w.network).2 }) := rfl
  unfold submit at h
  rw [steps_bind_apply, htalk] at h
  cases hreceipt : (dialogue w.network).1 with
  | error fault =>
    simp only [hreceipt] at h
    cases h
    unfold submissionFault
    split <;> exact fun _ h => by cases h
  | ok receipt =>
    simp only [hreceipt] at h
    cases hline : receiptLine receipt with
    | error fault =>
      rw [settle_error_bind hline] at h
      cases h
      unfold receiptLine at hline
      split at hline
      · cases hline
      · cases hline
        exact fun _ h => by cases h
    | ok line =>
      rw [settle_ok_bind hline] at h
      cases h

/-- The command of a method whose contract is there fails for other reasons than that it is not. -/
theorem blames_callMethod {s : Session} {contract : String} {c : Contract} (hc : s.contracts.get contract = .ok c)
    (command : String) (m : Method) (args : Command.Values) :
    (callMethod command contract m args s).Blames Fault.IsElsewhere := by
  have hcontract : (settle (s.contractNamed contract)).Blames Fault.IsElsewhere := by
    refine blames_settle fun f hf => ?_
    rw [contractNamed, hc] at hf
    cases hf
  unfold callMethod
  by_cases hreads : m.readOnly = true
  · rw [if_pos hreads]
    refine blames_bind (blames_settle fun f hf => isElsewhere_client hf) fun client => blames_bind hcontract fun c => ?_
    refine blames_bind (blames_settle fun f hf => isElsewhere_messageFor hf) fun message => ?_
    refine blames_bind (blames_ask _) fun data => blames_bind (blames_settle fun f hf => ?_) fun lines => blames_pure _
    unfold answerLines at hf
    cases hdecode : (c.library.decode m.result data).mapError Fault.decode with
    | error e =>
      rw [hdecode] at hf
      cases hf
      exact of_mapError_eq_error (fun _ _ h => by cases h) hdecode
    | ok answer =>
      rw [hdecode] at hf
      exact of_mapError_eq_error (fun _ _ h => by cases h) hf
  · rw [if_neg hreads]
    refine blames_bind (blames_settle fun f hf => isElsewhere_key hf) fun key => ?_
    refine blames_bind (blames_settle fun f hf => isElsewhere_client hf) fun client => blames_bind hcontract fun c => ?_
    refine blames_bind (blames_settle fun f hf => isElsewhere_messageFor hf) fun message => ?_
    refine blames_bind (blames_settle fun f hf => ?_) fun announcement =>
      blames_bind (blames_submit _ _ _) fun lines => blames_pure _
    unfold callAnnouncement at hf
    cases hdisplay : (m.arguments.display "" message.1).mapError Fault.display with
    | error e =>
      rw [hdisplay] at hf
      cases hf
      exact of_mapError_eq_error (fun _ _ h => by cases h) hdisplay
    | ok lines =>
      rw [hdisplay] at hf
      cases hf

/-! ## 5. Runs -/

/-- A registration adds to the table of commands at its end, or leaves it as it is. -/
theorem declarations_prefix_enroll (s : Session) (name address : String) (document : Interface.Document) :
    s.commands.declarations <+: (s.enroll name address document).2.commands.declarations := by
  unfold enroll
  cases hregister : Registration.register s.contracts s.commands name address document with
  | error f => exact List.prefix_rfl
  | ok registered =>
    obtain ⟨c, contracts, commands⟩ := registered
    obtain ⟨ds, -, -, hadded⟩ := Registration.tables_of_register hregister
    exact ⟨ds, hadded.symm⟩

/-- A command adds to the table of commands at its end, or leaves it as it is. -/
theorem declarations_prefix_of_keepsOrEnrolls {s s' : Session} (h : s.KeepsOrEnrolls s') :
    s.commands.declarations <+: s'.commands.declarations := by
  rcases h with ⟨-, hcommands⟩ | ⟨name, address, document, -, rfl⟩
  · exact hcommands ▸ List.prefix_rfl
  · exact declarations_prefix_enroll s name address document

/-- A command never takes a declaration away. -/
theorem mem_declarations_of_keepsOrEnrolls {s s' : Session} (h : s.KeepsOrEnrolls s') {d : Declaration}
    (hd : d ∈ s.commands.declarations) : d ∈ s'.commands.declarations :=
  (declarations_prefix_of_keepsOrEnrolls h).mem hd

end Session

/-- What a line's commands are declared as is in the table that the line is read against. -/
theorem Command.mem_declarations_of_readCommands {commands : Registry} {s : List Char} {i : Command.Invocation}
    (hi : i ∈ (Command.readCommands commands s).results) {d : Declaration} (hd : i.declaration = some d) :
    d ∈ commands.declarations := by
  have hread : ∀ {name r : List Char} {j : Command.Invocation} {rest : Except LineFault (List Char)},
      Command.readCommand commands name r = (j, rest) → j.declaration = some d → d ∈ commands.declarations := by
    intro name r j rest hj hdeclared
    have hdeclaration := Command.declaration_readCommand commands name r
    rw [hj, hdeclared] at hdeclaration
    exact Registry.mem_of_find? hdeclaration.symm
  induction hlength : s.length using Nat.strong_induction_on generalizing s with
  | h n ih =>
    by_cases hempty : s.isEmpty = true
    · rw [Command.readCommands, if_pos hempty] at hi
      cases hi
    · cases hn : Command.name? s with
      | none =>
        rw [Command.readCommands, if_neg hempty] at hi
        split at hi
        · cases hi
        · rename_i hsome
          rw [hn] at hsome
          cases hsome
      | some p =>
        obtain ⟨name, r⟩ := p
        cases hc : Command.readCommand commands name r with
        | mk j rest =>
          cases rest with
          | error why =>
            rw [Command.readCommands_of_error hn hc] at hi
            rw [List.mem_singleton.mp hi] at hd
            exact hread hc hd
          | ok t =>
            rw [Command.readCommands_of_ok hn hc] at hi
            have hshorter : t.length < n :=
              hlength ▸ Nat.lt_of_le_of_lt (Command.readCommand_length_le hc) (Command.name?_length_lt hn)
            split at hi
            · rcases List.mem_cons.mp hi with rfl | hi
              · exact hread hc hd
              · exact ih t.length hshorter hi rfl
            · rw [List.mem_singleton.mp hi] at hd
              exact hread hc hd

/-- The command of a turn stands for what is in the table. -/
def Command.Invocation.IsDeclared (i : Command.Invocation) (sh : Shell) : Prop :=
  ∀ d, i.declaration = some d → d ∈ sh.session.commands.declarations

theorem Shell.keepsOrEnrolls_execute (i : Command.Invocation) (sh : Shell) :
    sh.session.KeepsOrEnrolls (sh.execute i).2.session := by
  unfold Shell.execute
  cases hrun : i.run sh.session sh.world with
  | mk r w =>
    cases r with
    | error f => exact .inl ⟨rfl, rfl⟩
    | ok step => exact Session.keepsOrEnrolls_run i sh.session sh.world step w hrun

/-- A shell at its start, with the built-in commands. -/
def Shell.standard (disk : Disk) (environment : List (String × String)) (terms : Terms) (world : World) : Shell :=
  ⟨Session.start Registry.standard disk environment terms, world⟩

/-- From the start on, after every run and at the start of each of its turns, the names of the commands are as they should
be; and a turn with the command of a method finds the method's contract, so it does not fail for want of it. -/
theorem Shell.isWellNamed_run (disk : Disk) (environment : List (String × String)) (terms : Terms) (world : World)
    (es : List Event) :
    ((Shell.standard disk environment terms world).after es).session.IsWellNamed ∧
      ∀ t ∈ (Shell.standard disk environment terms world).turns es, t.shell.session.IsWellNamed ∧
        ∀ d contract m, t.invocation.declaration = some d → d.action = .method contract m →
          d.name = Contract.commandName contract m.name ∧
            (∃ c, t.shell.session.contracts.get contract = .ok c ∧ c.method? m.name = some m) ∧
            ∀ f, t.fault? ≠ some (.contract f) := by
  have hstart : (Shell.standard disk environment terms world).session.IsStocked := .start disk environment terms
  obtain ⟨hlast, hturns⟩ := Shell.holds_turns (P := fun sh => sh.session.IsStocked) (Q := Command.Invocation.IsDeclared)
    (fun i sh hsh => hsh.of_keepsOrEnrolls (Shell.keepsOrEnrolls_execute i sh))
    (fun disk environment outcomes sh hsh => hsh.of_keeps ⟨rfl, rfl⟩)
    (fun text sh _ i hi d hd => Command.mem_declarations_of_readCommands (List.mem_filter.mp hi).1 hd)
    (fun i j sh _ hj d hd => Session.mem_declarations_of_keepsOrEnrolls (Shell.keepsOrEnrolls_execute i sh) (hj d hd))
    hstart es
  refine ⟨hlast.isWellNamed, fun t ht => ?_⟩
  obtain ⟨hstocked, hdeclared⟩ := hturns t ht
  refine ⟨hstocked.isWellNamed, fun d contract m hd haction => ?_⟩
  obtain ⟨hname, c, hc, hm⟩ := hstocked.isWellNamed.methods d (hdeclared d hd) contract m haction
  refine ⟨hname, ⟨c, hc, hm⟩, fun f hfault => ?_⟩
  have hrun : t.invocation.run t.shell.session =
      Session.callMethod t.invocation.name contract m t.invocation.args t.shell.session := by
    unfold Command.Invocation.run
    rw [hd]
    simp only [haction]
  unfold Turn.fault? Turn.result at hfault
  rw [hrun] at hfault
  cases hcall : Session.callMethod t.invocation.name contract m t.invocation.args t.shell.session t.shell.world with
  | mk r w =>
    rw [hcall] at hfault
    cases r with
    | error fault =>
      cases hfault
      exact Session.blames_callMethod hc _ m _ t.shell.world _ _ hcall f rfl
    | ok step =>
      obtain ⟨-, lines, hlines⟩ := Session.isReport_callMethod _ _ _ _ _ _ _ _ hcall
      simp only [Session.resultIn, bind, Except.bind, hlines] at hfault
      cases hfault

end ContractShell
