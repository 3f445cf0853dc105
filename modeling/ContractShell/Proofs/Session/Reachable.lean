import ContractShell.Proofs.Contract.Registration
import ContractShell.Proofs.Descriptor.Soundness
import ContractShell.Proofs.Interface.Loading
import ContractShell.Proofs.Steps
import ContractShell.Session.Run

/-!
What holds in every session that can be reached.

Of all that can happen to a session, only a registration changes its tables, and it adds a contract together with one
command for each of its methods. So every method of every contract has its command, however long the session has lasted.

## Main statements

* `Session.keepsOrEnrolls_run`: a command leaves the tables as they are or registers one contract.
* `Shell.Reachable.isConsistent`: in a session that can be reached every method has its command.
-/

namespace ContractShell

open Command (Declaration Registry)

/-! ## 1. What an attempt gives -/

namespace Session.Attempt

variable {α β : Type} {P : α → Prop} {Q : β → Prop}

/-- Whatever an attempt gives when it succeeds has a property. -/
def Gives (x : Attempt α) (P : α → Prop) : Prop := ∀ w a w', x w = (.ok a, w') → P a

theorem gives_pure {a : α} (h : P a) : Gives (pure a) P := by
  intro w b w' heq
  cases heq
  exact h

theorem gives_throw (f : Fault) : Gives (throw f : Attempt α) P := by
  intro w a w' heq
  cases heq

/-- What comes after a step may use what the step gives. -/
theorem gives_bind {x : Attempt α} {f : α → Attempt β} (hx : Gives x P) (hf : ∀ a, P a → Gives (f a) Q) :
    Gives (x >>= f) Q := by
  intro w b w' heq
  rw [steps_bind_apply] at heq
  cases hstep : x w with
  | mk r w₁ =>
    rw [hstep] at heq
    cases r with
    | error e => cases heq
    | ok a => exact hf a (hx w a w₁ hstep) w₁ b w' heq

/-- What comes after a step may make no use of it. -/
theorem gives_next {x : Attempt α} {f : α → Attempt β} (hf : ∀ a, Gives (f a) Q) : Gives (x >>= f) Q :=
  gives_bind (fun _ _ _ _ => trivial) fun a _ => hf a

theorem gives_settle (r : Except Fault α) : Gives (settle r) fun a => r = .ok a := by
  intro w a w' heq
  cases heq
  rfl

theorem gives_doing (x : StateM World α) : Gives (doing x) fun a => ∃ w, (x w).1 = a := by
  intro w a w' heq
  have hdoing : doing x w = (.ok (x w).1, (x w).2) := rfl
  rw [hdoing] at heq
  cases heq
  exact ⟨w, rfl⟩

end Session.Attempt

/-! ## 2. What a command does to the tables -/

namespace Session

open Attempt

/-- The tables of two sessions are the same. -/
def Keeps (s s' : Session) : Prop := s'.contracts = s.contracts ∧ s'.commands = s.commands

/-- The tables are the same, or one contract was registered whose methods have different names. -/
def KeepsOrEnrolls (s s' : Session) : Prop :=
  Keeps s s' ∨ ∃ name address d, (d.methods.map (·.name)).Nodup ∧ s' = (s.enroll name address d).2

theorem keeps_disconnect (s : Session) (w : World) : Keeps s (s.disconnect w).1 := by
  cases h : s.connection with
  | none =>
    rw [disconnect_of_offline h]
    exact ⟨rfl, rfl⟩
  | some c =>
    unfold disconnect
    simp only [h]
    exact ⟨rfl, rfl⟩

theorem keeps_connect (s : Session) (url : String) (w : World) : Keeps s (s.connect url w).1 :=
  keeps_disconnect s w

end Session

/-- A built-in command ends in the session that it was given: it only shows something or talks to the node. -/
def Command.Builtin.reports : Command.Builtin → Bool
  | .close | .connect | .create | .disconnect | .exit | .importKey | .openWallet | .register => false
  | _ => true

namespace Session

open Attempt

/-- A step leads nowhere: the session is the one before it, and some lines are printed. -/
structure Step.IsReport (s : Session) (step : Step) : Prop where
  session : step.session = s
  lines : ∃ lines, step.result = .ok lines

theorem isReport_of_reports {b : Command.Builtin} (hb : b.reports = true) (args : Command.Values) (s : Session) :
    Gives (b.run args s) (Step.IsReport s) := by
  have hsame : ∀ {lines : List String}, Gives (pure ⟨s, .ok lines⟩) (Step.IsReport s) := gives_pure ⟨rfl, _, rfl⟩
  cases b with
  | close | connect | create | disconnect | exit | importKey | openWallet | register => cases hb
  | list => exact hsame
  | address => exact gives_next fun _ => hsame
  | showPrivate => exact gives_next fun _ => hsame
  | showPublic => exact gives_next fun _ => hsame
  | generate => exact gives_next fun _ => hsame
  | help =>
    refine gives_next fun name => ?_
    cases s.commands.find? name with
    | none => exact gives_throw _
    | some d => exact hsame
  | balance =>
    unfold Command.Builtin.run balance
    repeat refine gives_next fun _ => ?_
    exact hsame
  | call =>
    unfold Command.Builtin.run callRaw
    repeat refine gives_next fun _ => ?_
    exact hsame
  | read =>
    unfold Command.Builtin.run readRaw
    repeat refine gives_next fun _ => ?_
    exact hsame
  | transfer =>
    unfold Command.Builtin.run transfer
    repeat refine gives_next fun _ => ?_
    exact hsame
  | upload =>
    unfold Command.Builtin.run upload
    repeat refine gives_next fun _ => ?_
    exact hsame

/-- A call of a method ends in the session that it was given. -/
theorem isReport_callMethod (command contract : String) (m : Method) (args : Command.Values) (s : Session) :
    Gives (callMethod command contract m args s) (Step.IsReport s) := by
  unfold callMethod
  by_cases hreads : m.readOnly = true
  · rw [if_pos hreads]
    unfold readMethod
    repeat refine gives_next fun _ => ?_
    exact gives_pure ⟨rfl, _, rfl⟩
  · rw [if_neg hreads]
    unfold writeMethod
    repeat refine gives_next fun _ => ?_
    exact gives_pure ⟨rfl, _, rfl⟩

theorem keeps_of_eq {s s' : Session} (h : s' = s) : Keeps s s' := by
  rw [h]
  exact ⟨rfl, rfl⟩

/-- Of all built-in commands, those that do not register a contract keep the tables. -/
theorem keeps_of_run {b : Command.Builtin} (hb : b ≠ .register) (args : Command.Values) (s : Session) :
    Gives (b.run args s) fun step => Keeps s step.session := by
  have hkeep : ∀ filename path password key,
      Gives (s.keep filename path password key) fun step => Keeps s step.session := by
    intro filename path password key
    refine gives_next fun salt => gives_next fun nonce => gives_next fun writing => ?_
    cases Wallet.create s.disk path password salt nonce key.secret writing with
    | mk disk fault => cases fault <;> exact gives_pure ⟨rfl, rfl⟩
  by_cases hreports : b.reports = true
  · exact fun w step w' h => keeps_of_eq (isReport_of_reports hreports args s w step w' h).session
  · -- The others end in a session whose connection, wallet, disk or flag has changed.
    cases b with
    | register => exact absurd rfl hb
    | exit => exact gives_pure ⟨rfl, rfl⟩
    | close => exact gives_next fun key => gives_pure ⟨rfl, rfl⟩
    | connect =>
      refine gives_next fun text => gives_next fun url => ?_
      refine gives_bind (gives_doing _) ?_
      rintro s' ⟨w, rfl⟩
      exact gives_pure (keeps_connect s url w)
    | disconnect =>
      refine gives_next fun client => ?_
      refine gives_bind (gives_doing _) ?_
      rintro s' ⟨w, rfl⟩
      exact gives_pure (keeps_disconnect s w)
    | create =>
      refine gives_next fun filename => gives_next fun path => gives_next fun password => gives_next fun key => ?_
      exact hkeep filename path password key
    | importKey =>
      refine gives_next fun text => gives_next fun filename => gives_next fun path => gives_next fun password => ?_
      exact gives_next fun key => hkeep filename path password key
    | openWallet =>
      unfold Command.Builtin.run unlock
      repeat refine gives_next fun _ => ?_
      exact gives_pure ⟨rfl, rfl⟩
    | _ => exact absurd rfl hreports

/-! ## 3. Documents -/

/-- The methods of a document have different names. -/
theorem nodup_names_of_ofText {text : String} {d : Interface.Document} (h : Interface.Document.ofText text = .ok d) :
    (d.methods.map (·.name)).Nodup := by
  unfold Interface.Document.ofText at h
  split at h
  · cases h
  · exact Interface.nodup_names_of_entriesOf (Interface.ofJson_eq_ok h).1

theorem keepsOrEnrolls_register (args : Command.Values) (s : Session) :
    Gives (register args s) fun step => KeepsOrEnrolls s step.session := by
  refine gives_next fun name => gives_next fun address => gives_next fun filename => gives_next fun path => ?_
  refine gives_next fun text => gives_bind (gives_settle _) fun d hd => ?_
  refine gives_next fun _ => gives_pure (.inr ⟨name, address, d, ?_, rfl⟩)
  unfold documentOf at hd
  cases htext : Interface.Document.ofText text with
  | error fault =>
    rw [htext] at hd
    cases hd
  | ok d' =>
    rw [htext] at hd
    cases hd
    exact nodup_names_of_ofText htext

/-- A command leaves the tables as they are or registers one contract. -/
theorem keepsOrEnrolls_run (i : Command.Invocation) (s : Session) :
    Gives (i.run s) fun step => KeepsOrEnrolls s step.session := by
  unfold Command.Invocation.run
  split
  · exact gives_throw _
  · split
    · exact gives_throw _
    · rename_i b _
      by_cases hb : b = .register
      · rw [hb]
        exact keepsOrEnrolls_register i.args s
      · exact fun w step w' h => .inl (keeps_of_run hb i.args s w step w' h)
    · exact fun w step w' h => .inl (keeps_of_eq (isReport_callMethod _ _ _ _ s w step w' h).session)

end Session

/-! ## 4. Sessions that can be reached -/

/-- The tables of a session agree: contracts have different names, their types are sound, and the name of the command for
each of their methods resolves to that command. -/
structure Session.IsConsistent (s : Session) : Prop where
  names : (s.contracts.all.map (·.name)).Nodup
  libraries : ∀ c ∈ s.contracts.all, c.library.pool.IsSound
  commands : ∀ c ∈ s.contracts.all, ∀ m ∈ c.methods,
    ∃ d, s.commands.find? (Contract.commandName c.name m.name) = some d ∧ Registration.IsCommandOf c.name m d

theorem Session.IsConsistent.start (commands : Registry) (disk : Disk) (environment : List (String × String))
    (terms : Terms) : (Session.start commands disk environment terms).IsConsistent where
  names := List.nodup_nil
  libraries := by simp [Session.start, Contracts.empty]
  commands := by simp [Session.start, Contracts.empty]

theorem Session.IsConsistent.of_keeps {s s' : Session} (h : s.IsConsistent) (hkeeps : s.Keeps s') : s'.IsConsistent := by
  obtain ⟨hcontracts, hcommands⟩ := hkeeps
  constructor
  · rw [hcontracts]
    exact h.names
  · rw [hcontracts]
    exact h.libraries
  · rw [hcontracts, hcommands]
    exact h.commands

/-- A registration adds a contract of a new name with a command for each method, and nothing takes the name of an earlier
command. -/
theorem Session.IsConsistent.enroll {s : Session} (h : s.IsConsistent) (name address : String) {d : Interface.Document}
    (hd : (d.methods.map (·.name)).Nodup) : (s.enroll name address d).2.IsConsistent := by
  rcases henroll : s.enroll name address d with ⟨r, after⟩
  cases r with
  | error f =>
    rw [session_of_enroll_error henroll]
    exact h
  | ok c =>
    obtain ⟨-, hfree, henrolled⟩ := enrolled_of_enroll henroll
    obtain ⟨es, ds, -, -, -, hds, -, hfind⟩ := henrolled.commands
    refine ⟨henrolled.nodup_names hfree h.names, ?_, ?_⟩
    · intro other hother
      rw [henrolled.contracts] at hother
      rcases List.mem_append.mp hother with hother | hother
      · exact h.libraries other hother
      · rw [List.mem_singleton.mp hother]
        exact Library.isSound_ofText henrolled.contract_library
    · intro other hother m hm
      rw [henrolled.contracts] at hother
      rcases List.mem_append.mp hother with hother | hother
      · obtain ⟨x, hx, hcommand⟩ := h.commands other hother m hm
        refine ⟨x, ?_, hcommand⟩
        rw [henrolled.commands_kept _ (by unfold Registry.contains; rw [hx]; rfl)]
        exact hx
      · rw [List.mem_singleton.mp hother] at hm ⊢
        obtain ⟨x, hx, hcommand⟩ := forall₂_mem_right hds hm
        rw [henrolled.contract_name]
        exact ⟨x, hcommand.1 ▸ hfind hd x hx, hcommand⟩

theorem Session.IsConsistent.of_keepsOrEnrolls {s s' : Session} (h : s.IsConsistent) (hstep : s.KeepsOrEnrolls s') :
    s'.IsConsistent := by
  rcases hstep with hkeeps | ⟨name, address, d, hd, rfl⟩
  · exact h.of_keeps hkeeps
  · exact h.enroll name address hd

/-- A new command takes the name of no other. -/
theorem Session.IsConsistent.declare {s : Session} (h : s.IsConsistent) {d : Declaration}
    (hnew : s.commands.contains d.name = false) :
    { s with commands := s.commands.add d : Session }.IsConsistent := by
  refine ⟨h.names, h.libraries, ?_⟩
  intro c hc m hm
  obtain ⟨x, hx, hcommand⟩ := h.commands c hc m hm
  refine ⟨x, ?_, hcommand⟩
  have hother : d.name ≠ Contract.commandName c.name m.name := by
    intro heq
    unfold Registry.contains at hnew
    rw [heq, hx] at hnew
    cases hnew
  rw [Registry.find?_add_other s.commands d hother]
  exact hx

/-- A contract that is registered is the one that its name stands for. -/
theorem Session.IsConsistent.find?_contracts {s : Session} (h : s.IsConsistent) {c : Contract}
    (hc : c ∈ s.contracts.all) : s.contracts.find? c.name = some c := find?_eq_some_of_nodup h.names hc

theorem Shell.isConsistent_execute {sh : Shell} (h : sh.session.IsConsistent) (i : Command.Invocation) :
    (sh.execute i).2.session.IsConsistent := by
  unfold Shell.execute
  cases hrun : i.run sh.session sh.world with
  | mk r w =>
    cases r with
    | error f => exact h
    | ok step => exact h.of_keepsOrEnrolls (Session.keepsOrEnrolls_run i sh.session sh.world step w hrun)

theorem Shell.isConsistent_interpret {sh : Shell} (h : sh.session.IsConsistent) (is : List Command.Invocation) :
    (sh.interpret is).2.session.IsConsistent := by
  induction is generalizing sh with
  | nil => exact h
  | cons i is ih => exact ih (Shell.isConsistent_execute h i)

/-- The shells that can be reached from a shell at its start: by lines that people type, by opening and closing the
connection and the wallet, by registering contracts and adding commands of new names, by what is left to be done at the end
and doing it, and by changes in the world around it. -/
inductive Shell.Reachable : Shell → Prop where
  | start (commands : Registry) (disk : Disk) (environment : List (String × String)) (terms : Terms) (world : World) :
      Reachable ⟨Session.start commands disk environment terms, world⟩
  | line {sh : Shell} (h : Reachable sh) (text : String) : Reachable (sh.runLine text).2
  | connect {sh : Shell} (h : Reachable sh) (url : String) :
      Reachable ⟨(sh.session.connect url sh.world).1, (sh.session.connect url sh.world).2⟩
  | disconnect {sh : Shell} (h : Reachable sh) :
      Reachable ⟨(sh.session.disconnect sh.world).1, (sh.session.disconnect sh.world).2⟩
  | openWallet {sh : Shell} (h : Reachable sh) (key : Key) (path : Option Path) :
      Reachable ⟨sh.session.openWallet key path, sh.world⟩
  | closeWallet {sh : Shell} (h : Reachable sh) : Reachable ⟨sh.session.closeWallet, sh.world⟩
  | enroll {sh : Shell} (h : Reachable sh) (name address : String) {d : Interface.Document}
      (hd : (d.methods.map (·.name)).Nodup) : Reachable ⟨(sh.session.enroll name address d).2, sh.world⟩
  | declare {sh : Shell} (h : Reachable sh) {d : Declaration} (hnew : sh.session.commands.contains d.name = false) :
      Reachable ⟨{ sh.session with commands := sh.session.commands.add d }, sh.world⟩
  | callback {sh : Shell} (h : Reachable sh) (c : Callback) : Reachable ⟨sh.session.addCallback c, sh.world⟩
  | finish {sh : Shell} (h : Reachable sh) : Reachable sh.finish.2
  | around {sh : Shell} (h : Reachable sh) (disk : Disk) (environment : List (String × String)) (world : World) :
      Reachable ⟨{ sh.session with disk, environment }, world⟩

/-- In a session that can be reached every method of every contract has its command. -/
theorem Shell.Reachable.isConsistent {sh : Shell} (h : sh.Reachable) : sh.session.IsConsistent := by
  -- Only a line and a registration change the tables; a new command takes no name that is there.
  induction h with
  | start commands disk environment terms world => exact .start commands disk environment terms
  | line _ text ih => exact Shell.isConsistent_interpret ih _
  | @connect sh _ url ih => exact ih.of_keeps (Session.keeps_connect sh.session url sh.world)
  | @disconnect sh _ ih => exact ih.of_keeps (Session.keeps_disconnect sh.session sh.world)
  | openWallet _ key path ih => exact ih.of_keeps ⟨rfl, rfl⟩
  | closeWallet _ ih => exact ih.of_keeps ⟨rfl, rfl⟩
  | enroll _ name address hd ih => exact ih.enroll name address hd
  | declare _ hnew ih => exact ih.declare hnew
  | callback _ c ih => exact ih.of_keeps ⟨rfl, rfl⟩
  | @finish sh _ ih => exact ih.of_keeps (Session.keeps_disconnect { sh.session with callbacks := [] } sh.world)
  | around _ disk environment world ih => exact ih.of_keeps ⟨rfl, rfl⟩

end ContractShell
