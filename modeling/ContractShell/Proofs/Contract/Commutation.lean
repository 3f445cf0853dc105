import ContractShell.Proofs.Session.Names
import Mathlib.Data.List.Flatten
import Mathlib.Data.List.Perm.Basic
import Mathlib.Data.String.Basic

/-!
Registrations of contracts commute.

A registration looks at what the session has under the name of its contract, and adds under that name only: the commands of
a contract are told apart from those of every other one by the point after the contract's name. So what comes of several
registrations of different names is the same in every order, with failing ones among them, and afterwards the tables
answer every question in the same way.

## Main statements

* `Session.prepared_extend`: what comes of a registration does not depend on contracts of other names.
* `Session.enrollEach_eq`: each of several registrations comes out as it would by itself, and adds what it would add.
* `Session.registrations_commute`: several registrations in two orders.
-/

namespace ContractShell

open Command (Declaration Registry)

/-! ## 1. Searching in an order that does not matter -/

/-- At most one of two lists holds what is looked for. -/
def Apart {β : Type} (p : β → Bool) (bs bs' : List β) : Prop := ∀ b ∈ bs, ∀ b' ∈ bs', p b = true → p b' = false

theorem Apart.symm {β : Type} {p : β → Bool} {bs bs' : List β} (h : Apart p bs bs') : Apart p bs' bs := by
  intro b' hb' b hb hfound'
  by_contra hfound
  rw [h b hb b' hb' (by simpa using hfound)] at hfound'
  cases hfound'

/-- Lists of which at most one holds what is looked for may be searched in any order. -/
theorem find?_flatMap_of_perm {α β : Type} {f : α → List β} {p : β → Bool} {as as' : List α} (h : as.Perm as')
    (hapart : as.Pairwise fun a a' => Apart p (f a) (f a')) : (as.flatMap f).find? p = (as'.flatMap f).find? p := by
  induction h with
  | nil => rfl
  | cons a _ ih =>
    rw [List.flatMap_cons, List.flatMap_cons, List.find?_append, List.find?_append, ih (List.pairwise_cons.mp hapart).2]
  | swap a a' as =>
    have hfirst : Apart p (f a') (f a) := (List.pairwise_cons.mp hapart).1 a (by simp)
    simp only [List.flatMap_cons, List.find?_append, ← Option.or_assoc]
    congr 1
    cases hfound' : (f a').find? p with
    | none => simp
    | some b' =>
      have hother : (f a).find? p = none := by
        rw [List.find?_eq_none]
        intro b hb
        rw [hfirst b' (List.mem_of_find?_eq_some hfound') b hb (List.find?_some hfound')]
        exact Bool.false_ne_true
      simp [hother]
  | trans h _ ih ih' => exact (ih hapart).trans (ih' (hapart.perm h Apart.symm))

/-! ## 2. Tables that answer alike -/

namespace Command

/-- Two tables hold the same declarations in some order, and every name resolves to the same one. -/
structure Registry.Alike (r r' : Registry) : Prop where
  declarations : r.declarations.Perm r'.declarations
  find? : ∀ name, r.find? name = r'.find? name

namespace Registry.Alike

variable {r r' : Registry} (h : r.Alike r')

include h

theorem visibleNames : r.visibleNames = r'.visibleNames := by
  have hnames := (h.declarations.filter fun d => !d.hidden).map (·.name)
  have hperm : r.visibleNames.Perm r'.visibleNames :=
    r.visibleNames_perm.trans (hnames.trans r'.visibleNames_perm.symm)
  exact hperm.eq_of_pairwise (fun _ _ _ _ => le_antisymm) r.pairwise_visibleNames r'.pairwise_visibleNames

theorem listing : r.listing = r'.listing := by
  have hdescribe : r.describe = r'.describe := by
    funext name
    rw [Registry.describe, h.find? name, Registry.describe]
  rw [Registry.listing, h.visibleNames, hdescribe, Registry.listing]

theorem readCommand (name s : List Char) : readCommand r name s = readCommand r' name s := by
  rw [Command.readCommand, h.find? (String.ofList name), Command.readCommand]

theorem readCommands (s : List Char) : readCommands r s = readCommands r' s := by
  fun_induction Command.readCommands r s with
  | case1 s hempty => rw [Command.readCommands, if_pos hempty]
  | case2 s hempty hnone =>
    rw [Command.readCommands, if_neg hempty]
    split
    · rfl
    · rename_i hsome
      rw [hnone] at hsome
      cases hsome
  | case3 s hempty name rest hname i why hread =>
    rw [h.readCommand] at hread
    rw [readCommands_of_error hname hread]
  | case4 s hempty name rest hname i t hread hterm _ more ih =>
    rw [h.readCommand] at hread
    rw [readCommands_of_ok hname hread, if_pos hterm, ← ih]
  | case5 s hempty name rest hname i t hread hterm =>
    rw [h.readCommand] at hread
    rw [readCommands_of_ok hname hread, if_neg hterm]

theorem ofText (text : String) : Line.ofText r text = Line.ofText r' text := h.readCommands _

end Registry.Alike

end Command

/-! ## 3. What a registration looks at -/

/-- A contract that is to be registered. -/
structure Registration.Request where
  name : String
  address : String
  document : Interface.Document

namespace Registration

/-- A registration looks at a table of contracts for its own name, and at a table of commands for those of its methods. -/
theorem declarationsFor_congr {commands commands' : Registry} {contract : String}
    (h : ∀ method, commands.contains (Contract.commandName contract method) =
      commands'.contains (Contract.commandName contract method)) (ms : List Method) :
    declarationsFor commands contract ms = declarationsFor commands' contract ms := by
  induction ms with
  | nil => rfl
  | cons m ms ih => simp only [declarationsFor, h, ih]

theorem prepare_congr {contracts contracts' : Contracts} {commands commands' : Registry} {name address : String}
    {d : Interface.Document} (hcontracts : contracts.contains name = contracts'.contains name)
    (hcommands : ∀ method, commands.contains (Contract.commandName name method) =
      commands'.contains (Contract.commandName name method)) :
    prepare contracts commands name address d = prepare contracts' commands' name address d := by
  simp only [prepare, hcontracts, declarationsFor_congr hcommands]

end Registration

namespace Session

/-- A session with more contracts and more commands. -/
def extend (s : Session) (cs : List Contract) (ds : List Declaration) : Session :=
  { s with contracts := ⟨s.contracts.all ++ cs⟩, commands := .ofDeclarations (s.commands.declarations ++ ds) }

/-- What comes of a request in a session: the contract and its commands, or a fault. -/
def prepared (s : Session) (r : Registration.Request) : Except Registration.Fault (Contract × List Declaration) :=
  Registration.prepare s.contracts s.commands r.name r.address r.document

/-- The contract that a request adds to a session, if it adds one. -/
def newContracts (s : Session) (r : Registration.Request) : List Contract :=
  match s.prepared r with
  | .ok (c, _) => [c]
  | .error _ => []

/-- The commands that a request adds to a session. -/
def newCommands (s : Session) (r : Registration.Request) : List Declaration :=
  match s.prepared r with
  | .ok (_, ds) => ds
  | .error _ => []

/-- Registers contracts one after the other, whatever comes of each. -/
def enrollEach : List Registration.Request → Session →
    List (Registration.Request × Except Registration.Fault Contract) × Session
  | [], s => ([], s)
  | r :: rs, s =>
    let (outcome, s) := s.enroll r.name r.address r.document
    let (more, s) := enrollEach rs s
    ((r, outcome) :: more, s)

theorem enroll_eq (s : Session) (r : Registration.Request) :
    s.enroll r.name r.address r.document =
      ((s.prepared r).map (·.1), s.extend (s.newContracts r) (s.newCommands r)) := by
  cases hprepared : s.prepared r with
  | error f =>
    rw [newContracts, newCommands, hprepared]
    have hsame : s.extend [] [] = s := by simp [extend]
    simp only [hsame]
    unfold enroll Registration.register
    rw [show Registration.prepare _ _ _ _ _ = _ from hprepared]
    rfl
  | ok p =>
    obtain ⟨c, ds⟩ := p
    rw [enroll_of_prepare hprepared, newContracts, newCommands, hprepared]
    have hadded : ds.foldl Registry.add s.commands = .ofDeclarations (s.commands.declarations ++ ds) :=
      Registry.eq_of_declarations (Registration.declarations_foldl_add ds s.commands)
    rw [hadded]
    rfl

/-- The contract of a request has the name that the request gives, which is of the right form. -/
theorem name_of_mem_newContracts {s : Session} {r : Registration.Request} {c : Contract} (h : c ∈ s.newContracts r) :
    c.name = r.name := by
  rw [newContracts] at h
  split at h
  · rename_i hprepared
    obtain ⟨-, -, hname, -⟩ := Registration.prepare_eq_ok_iff.mp hprepared
    rw [List.mem_singleton.mp h, hname]
  · cases h

/-- The commands of a request are named for methods of its contract. -/
theorem name_of_mem_newCommands {s : Session} {r : Registration.Request} {d : Declaration} (h : d ∈ s.newCommands r) :
    Registration.isName r.name = true ∧ ∃ method, d.name = Contract.commandName r.name method := by
  rw [newCommands] at h
  split at h
  · rename_i hprepared
    obtain ⟨hvalid, -, -, -, -, -, -, hds⟩ := Registration.prepare_eq_ok_iff.mp hprepared
    obtain ⟨m, -, hm⟩ := forall₂_mem_left hds h
    exact ⟨hvalid, m.name, hm.1⟩
  · cases h

/-- A request for another name looks at nothing that a request adds. -/
theorem prepared_extend {s : Session} {r r' : Registration.Request} (hne : r.name ≠ r'.name) :
    (s.extend (s.newContracts r) (s.newCommands r)).prepared r' = s.prepared r' := by
  by_cases hvalid : Registration.isName r'.name = true
  · have hcontracts : (s.extend (s.newContracts r) (s.newCommands r)).contracts.contains r'.name =
        s.contracts.contains r'.name := by
      have hnone : (s.newContracts r).find? (·.name == r'.name) = none := by
        rw [List.find?_eq_none]
        intro c hc
        rw [name_of_mem_newContracts hc, beq_iff_eq]
        exact hne
      rw [Contracts.contains, Contracts.find?, extend, List.find?_append, hnone, Option.or_none]
      rfl
    have hcommands (method : String) : (s.extend (s.newContracts r) (s.newCommands r)).commands.contains
        (Contract.commandName r'.name method) = s.commands.contains (Contract.commandName r'.name method) := by
      have hnone : (s.newCommands r).reverse.find? (·.name == Contract.commandName r'.name method) = none := by
        rw [List.find?_eq_none]
        intro d hd
        obtain ⟨hvalid', method', hname⟩ := name_of_mem_newCommands (List.mem_reverse.mp hd)
        rw [hname, beq_iff_eq]
        exact fun heq => hne (Contract.commandName_inj hvalid' hvalid heq).1
      simp only [Registry.contains, Registry.find?, extend, Registry.declarations_ofDeclarations, List.reverse_append,
        List.find?_append, hnone, Option.none_or]
    exact Registration.prepare_congr hcontracts hcommands
  · unfold prepared Registration.prepare
    rw [if_pos (by simpa using hvalid), if_pos (by simpa using hvalid)]

/-! ## 4. Several registrations -/

theorem extend_extend (s : Session) (cs cs' : List Contract) (ds ds' : List Declaration) :
    (s.extend cs ds).extend cs' ds' = s.extend (cs ++ cs') (ds ++ ds') := by
  simp only [extend, Registry.declarations_ofDeclarations, List.append_assoc]

/-- Each of several registrations of different names comes out as it would by itself, and adds what it would add. -/
theorem enrollEach_eq {rs : List Registration.Request} (hnames : (rs.map (·.name)).Nodup) (s : Session) :
    s.enrollEach rs = (rs.map fun r => (r, (s.prepared r).map (·.1)),
      s.extend (rs.flatMap s.newContracts) (rs.flatMap s.newCommands)) := by
  -- The induction is on the requests: those that follow come out after the first one as they would before it.
  induction rs generalizing s with
  | nil => simp [enrollEach, extend]
  | cons r rs ih =>
    rw [List.map_cons, List.nodup_cons] at hnames
    have hlater : ∀ r' ∈ rs, (s.extend (s.newContracts r) (s.newCommands r)).prepared r' = s.prepared r' := by
      intro r' hr'
      exact prepared_extend fun heq => hnames.1 (heq ▸ List.mem_map_of_mem hr')
    have hcontracts : rs.flatMap (s.extend (s.newContracts r) (s.newCommands r)).newContracts =
        rs.flatMap s.newContracts :=
      List.flatMap_congr fun r' hr' => by rw [newContracts, hlater r' hr', newContracts]
    have hcommands : rs.flatMap (s.extend (s.newContracts r) (s.newCommands r)).newCommands =
        rs.flatMap s.newCommands :=
      List.flatMap_congr fun r' hr' => by rw [newCommands, hlater r' hr', newCommands]
    have houtcomes : (rs.map fun r' => (r', ((s.extend (s.newContracts r) (s.newCommands r)).prepared r').map (·.1))) =
        rs.map fun r' => (r', (s.prepared r').map (·.1)) :=
      List.map_congr_left fun r' hr' => by rw [hlater r' hr']
    rw [enrollEach, enroll_eq]
    simp only [ih hnames.2, extend_extend, hcontracts, hcommands, houtcomes, List.map_cons, List.flatMap_cons]

section

variable {rs rs' : List Registration.Request}

/-- What several registrations add to the table of contracts is the same for every name, whatever their order. -/
theorem find?_contracts_of_perm (hperm : rs.Perm rs') (hnames : (rs.map (·.name)).Nodup) (s : Session) (name : String) :
    (rs.flatMap s.newContracts).find? (·.name == name) = (rs'.flatMap s.newContracts).find? (·.name == name) := by
  refine find?_flatMap_of_perm hperm ((List.pairwise_map.mp hnames).imp fun {r r'} hne => ?_)
  intro c hc c' hc' hname
  rw [beq_iff_eq] at hname
  rw [beq_eq_false_iff_ne, name_of_mem_newContracts hc', ← hname, name_of_mem_newContracts hc]
  exact hne.symm

/-- What several registrations add to the table of commands is the same for every name, whatever their order. -/
theorem find?_commands_of_perm (hperm : rs.Perm rs') (hnames : (rs.map (·.name)).Nodup) (s : Session) (name : String) :
    (rs.flatMap s.newCommands).reverse.find? (·.name == name) =
      (rs'.flatMap s.newCommands).reverse.find? (·.name == name) := by
  -- Two commands of one name are commands of one contract, since its name stands in front of the first point.
  have hapart : rs.Pairwise fun r r' =>
      Apart (·.name == name) (s.newCommands r).reverse (s.newCommands r').reverse := by
    refine (List.pairwise_map.mp hnames).imp fun {r r'} hne d hd d' hd' hname => ?_
    obtain ⟨hvalid, method, hd⟩ := name_of_mem_newCommands (List.mem_reverse.mp hd)
    obtain ⟨hvalid', method', hd'⟩ := name_of_mem_newCommands (List.mem_reverse.mp hd')
    rw [beq_iff_eq] at hname
    rw [beq_eq_false_iff_ne, ← hname, hd, hd']
    exact fun heq => hne (Contract.commandName_inj hvalid' hvalid heq).1.symm
  rw [List.reverse_flatMap, List.reverse_flatMap]
  refine find?_flatMap_of_perm ((List.reverse_perm rs).trans (hperm.trans (List.reverse_perm rs').symm)) ?_
  exact hapart.perm (List.reverse_perm rs).symm Apart.symm

/-- Registrations of different names may be done in any order: each of them succeeds with the same contract or fails with
the same fault. Afterwards the sessions differ at most in the order of their tables. Every name stands for the same contract
and resolves to the same command, both listings of the commands are the same, and every line is read in the same way. -/
theorem registrations_commute (hperm : rs.Perm rs') (hnames : (rs.map (·.name)).Nodup) (s : Session) :
    let done := s.enrollEach rs
    let done' := s.enrollEach rs'
    done.1.map (·.1) = rs ∧ done'.1.map (·.1) = rs' ∧ done.1.Perm done'.1 ∧
      done'.2 = { done.2 with contracts := done'.2.contracts, commands := done'.2.commands } ∧
      done.2.contracts.all.Perm done'.2.contracts.all ∧
      (∀ name, done.2.contracts.find? name = done'.2.contracts.find? name) ∧
      done.2.commands.declarations.Perm done'.2.commands.declarations ∧
      (∀ name, done.2.commands.find? name = done'.2.commands.find? name) ∧
      done.2.commands.visibleNames = done'.2.commands.visibleNames ∧
      done.2.commands.listing = done'.2.commands.listing ∧
      ∀ text, Command.Line.ofText done.2.commands text = Command.Line.ofText done'.2.commands text := by
  have hnames' : (rs'.map (·.name)).Nodup := (hperm.map (·.name)).nodup_iff.mp hnames
  have halike : Registry.Alike (.ofDeclarations (s.commands.declarations ++ rs.flatMap s.newCommands))
      (.ofDeclarations (s.commands.declarations ++ rs'.flatMap s.newCommands)) := by
    refine ⟨(hperm.flatMap_right s.newCommands).append_left _, fun name => ?_⟩
    simp only [Registry.find?, Registry.declarations_ofDeclarations, List.reverse_append, List.find?_append,
      find?_commands_of_perm hperm hnames]
  have hcontracts (name : String) : (Contracts.mk (s.contracts.all ++ rs.flatMap s.newContracts)).find? name =
      (Contracts.mk (s.contracts.all ++ rs'.flatMap s.newContracts)).find? name := by
    simp only [Contracts.find?, List.find?_append, find?_contracts_of_perm hperm hnames]
  have hrequests (qs : List Registration.Request) :
      (qs.map fun r => (r, (s.prepared r).map (·.1))).map (·.1) = qs := by
    rw [List.map_map]
    exact List.map_id qs
  rw [enrollEach_eq hnames, enrollEach_eq hnames']
  refine ⟨hrequests rs, hrequests rs', hperm.map _, rfl, (hperm.flatMap_right s.newContracts).append_left _, hcontracts,
    halike.declarations, halike.find?, halike.visibleNames, halike.listing, halike.ofText⟩

/-- Two requests, one for a name that cannot be registered. The other one succeeds, before or after it. -/
theorem registrations_commute_of_two :
    let good : Registration.Request := ⟨"c", "1A", hyphenDocument⟩
    let bad : Registration.Request := ⟨"c.get", "1A", hyphenDocument⟩
    let s := Session.start .empty ⟨[], [], []⟩ [] ⟨.null, 0, fun _ => none⟩
    ([good, bad].Perm [bad, good] ∧ ([good, bad].map (·.name)).Nodup) ∧
      (∃ c, (s.enrollEach [good, bad]).1.Perm (s.enrollEach [bad, good]).1 ∧
        (s.enrollEach [good, bad]).1 = [(good, .ok c), (bad, .error (.invalidName "c.get"))]) ∧
      (s.enrollEach [good, bad]).2.commands.listing = (s.enrollEach [bad, good]).2.commands.listing ∧
      ∀ text, Command.Line.ofText (s.enrollEach [good, bad]).2.commands text =
        Command.Line.ofText (s.enrollEach [bad, good]).2.commands text := by
  intro good bad s
  have hperm : [good, bad].Perm [bad, good] := .swap bad good []
  have hnames : ([good, bad].map (·.name)).Nodup := by decide
  obtain ⟨-, -, houtcomes, -, -, -, -, -, -, hlisting, hlines⟩ := registrations_commute hperm hnames s
  obtain ⟨c, after, henroll, -⟩ := enroll_hyphenDocument
  refine ⟨⟨hperm, hnames⟩, ⟨c, houtcomes, ?_⟩, hlisting, hlines⟩
  have hgood : (s.prepared good).map (·.1) = .ok c := by
    have heq := s.enroll_eq good
    rw [show s.enroll good.name good.address good.document = _ from henroll] at heq
    exact (congrArg Prod.fst heq).symm
  have hbad : (s.prepared bad).map (·.1) = .error (.invalidName "c.get") := by
    unfold prepared Registration.prepare
    rw [if_pos (by decide)]
    rfl
  rw [enrollEach_eq hnames, List.map_cons, List.map_singleton, hgood, hbad]

end

end Session

end ContractShell
