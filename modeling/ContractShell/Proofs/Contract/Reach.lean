import ContractShell.Proofs.Command.Rendering
import ContractShell.Proofs.Library.Plain
import ContractShell.Proofs.Session.Reachable
import Mathlib.Data.List.TakeWhile

/-!
How the commands of a contract are reached by their names.

The name of a contract is checked when it is registered; the names of its methods are not. The reader of a line takes as
much of a command's name as is made of word characters, so a method with another character in its name can be looked up in
the table of contracts while no line reaches its command.

## Main statements

* `name?_commandName`: what a line's reader takes of the name of a method's command.
* `lookup_commandName_iff`: when the table of contracts finds a method by the name of its command.
* `commands_reached_iff`: which commands of a new contract are reached by their names, and what is reached otherwise.
-/

namespace ContractShell

open Command (Declaration Registry)

/-! ## 1. Splitting -/

theorem Text.split_of_not_mem {separator : Char} {s : List Char} (h : separator ∉ s) :
    Text.split separator s = [s] := by
  induction s with
  | nil => rfl
  | cons c s ih =>
    rw [List.mem_cons, not_or] at h
    rw [Text.split, if_neg (Ne.symm h.1), ih h.2]

theorem Text.split_append {separator : Char} {s : List Char} (h : separator ∉ s) (r : List Char) :
    Text.split separator (s ++ separator :: r) = s :: Text.split separator r := by
  induction s with
  | nil => rw [List.nil_append, Text.split, if_pos rfl]
  | cons c s ih =>
    rw [List.mem_cons, not_or] at h
    rw [List.cons_append, Text.split, if_neg (Ne.symm h.1), ih h.2]

theorem Text.mem_of_split {separator : Char} {s : List Char} (h : Text.split separator s = [s]) : separator ∉ s := by
  induction s with
  | nil => exact List.not_mem_nil
  | cons c s ih =>
    rw [Text.split] at h
    by_cases hc : c = separator
    · rw [if_pos hc] at h
      cases h
    · rw [if_neg hc] at h
      cases hs : Text.split separator s with
      | nil => exact absurd hs (Text.split_ne_nil separator s)
      | cons w ws =>
        rw [hs] at h
        cases h
        rw [List.mem_cons, not_or]
        exact ⟨Ne.symm hc, ih hs⟩

/-! ## 2. Names -/

namespace Contract

theorem toList_commandName (contract method : String) :
    (commandName contract method).toList = contract.toList ++ '.' :: method.toList := by
  unfold commandName separator
  simp

/-- What is read at the start of the name of a method's command: the contract, and the word that the method's name starts
with, if it starts with one. -/
def nameRead (contract method : String) : List Char :=
  let w := method.toList.takeWhile Command.isWordChar
  if w = [] then contract.toList else contract.toList ++ '.' :: w

theorem isRun_of_isName {contract : String} (h : Registration.isName contract = true) :
    Command.IsRun Command.isWordChar contract.toList := by
  unfold Registration.isName at h
  rw [Bool.and_eq_true, Bool.not_eq_true', String.isEmpty_eq_false_iff] at h
  exact Command.isRun_of_all (fun hnil => h.1 (String.toList_eq_nil_iff.mp hnil)) h.2

theorem not_mem_of_isName {contract : String} (h : Registration.isName contract = true) : '.' ∉ contract.toList := by
  intro hmem
  have hpoint := (isRun_of_isName h).2 '.' hmem
  revert hpoint
  decide

/-- The reader of a line takes of a command's name what is made of words, wherever the name ends. -/
theorem name?_commandName {contract : String} (hcontract : Registration.isName contract = true) (method : String)
    {r : List Char} (hr : Command.isDelimited r = true) :
    ∃ t, Command.name? ((commandName contract method).toList ++ r) = some (nameRead contract method, t) := by
  have hrun := isRun_of_isName hcontract
  have hstop : Command.stops Command.isWordChar r = true :=
    Command.stops_of_isDelimited Command.isSolid_isWordChar hr
  have hpoint : Command.stops Command.isWordChar ('.' :: (method.toList ++ r)) = true := rfl
  -- The word after the point ends with the method's name at the latest, for no letter of a word comes after that.
  have hword : (method.toList ++ r).takeWhile Command.isWordChar = method.toList.takeWhile Command.isWordChar := by
    have hnil : r.takeWhile Command.isWordChar = [] := by
      cases r with
      | nil => rfl
      | cons c r =>
        have hc : Command.isWordChar c = false := by simpa [Command.stops] using hstop
        exact List.takeWhile_cons_of_neg (by rw [hc]; exact Bool.false_ne_true)
    rw [List.takeWhile_append]
    split
    · rename_i hall
      rw [hnil, List.append_nil, (List.takeWhile_prefix _).eq_of_length hall]
    · rfl
  unfold Command.name? nameRead
  rw [toList_commandName, List.append_assoc, List.cons_append, Command.run?_append_of_stops hrun hpoint]
  by_cases hnone : method.toList.takeWhile Command.isWordChar = []
  · have hread : Command.run? Command.isWordChar (method.toList ++ r) = none := by
      unfold Command.run? Command.spanOf
      rw [hword, hnone]
    simp only [hread, hnone, if_true]
    exact ⟨_, rfl⟩
  · obtain ⟨t, hread⟩ : ∃ t, Command.run? Command.isWordChar (method.toList ++ r) =
        some (method.toList.takeWhile Command.isWordChar, t) := by
      unfold Command.run? Command.spanOf
      rw [hword]
      cases hw : method.toList.takeWhile Command.isWordChar with
      | nil => exact absurd hw hnone
      | cons c w => exact ⟨_, rfl⟩
    simp only [hread, if_neg hnone]
    exact ⟨_, rfl⟩

/-- A command's name is read to its end just when the method's name is a word. -/
theorem nameRead_eq_iff (contract method : String) :
    nameRead contract method = (commandName contract method).toList ↔
      Command.IsRun Command.isWordChar method.toList := by
  rw [toList_commandName]
  unfold nameRead
  by_cases hnone : method.toList.takeWhile Command.isWordChar = []
  · rw [if_pos hnone]
    constructor
    · intro h
      have hlength := congrArg List.length h
      rw [List.length_append, List.length_cons] at hlength
      omega
    · rintro ⟨hne, hall⟩
      rw [List.takeWhile_eq_self_iff.mpr hall] at hnone
      exact absurd hnone hne
  · rw [if_neg hnone, List.append_cancel_left_eq, List.cons.injEq, List.takeWhile_eq_self_iff]
    constructor
    · rintro ⟨-, hall⟩
      exact ⟨fun hnil => hnone (by rw [hnil]; rfl), hall⟩
    · rintro ⟨-, hall⟩
      exact ⟨rfl, hall⟩

/-- The name of a command falls into its contract and its method unless the method has no name or a point in it. -/
theorem splitName_commandName_iff {contract method : String} (hcontract : Registration.isName contract = true) :
    splitName (commandName contract method) = .ok (contract, method) ↔ method ≠ "" ∧ '.' ∉ method.toList := by
  have hpieces : Text.splitString separator (commandName contract method) =
      contract :: (Text.split '.' method.toList).map String.ofList := by
    unfold Text.splitString separator
    rw [toList_commandName, Text.split_append (not_mem_of_isName hcontract), List.map_cons, String.ofList_toList]
  have hnamed : contract.isEmpty = false := by
    unfold Registration.isName at hcontract
    rw [Bool.and_eq_true, Bool.not_eq_true'] at hcontract
    exact hcontract.1
  unfold splitName
  rw [hpieces]
  constructor
  · intro h
    split at h
    · rename_i c m hlist
      split at h
      · cases h
      · rename_i hempty
        cases h
        rw [hnamed, Bool.false_or, Bool.not_eq_true, String.isEmpty_eq_false_iff] at hempty
        refine ⟨hempty, Text.mem_of_split ?_⟩
        rw [List.cons.injEq] at hlist
        obtain ⟨w, hw, hword⟩ := List.map_eq_singleton_iff.mp hlist.2
        rw [hw, ← hword, String.toList_ofList]
    · cases h
  · rintro ⟨hne, hpoint⟩
    rw [Text.split_of_not_mem hpoint, List.map_cons, List.map_nil, String.ofList_toList]
    simp only [hnamed, Bool.false_or, String.isEmpty_eq_false_iff.mpr hne, Bool.false_eq_true, if_false]

end Contract

theorem Contracts.lookup_commandName_iff {contracts : Contracts} {c : Contract} {m : Method}
    (hcontract : Registration.isName c.name = true) (hc : contracts.find? c.name = some c)
    (hm : c.method? m.name = some m) :
    contracts.lookup (Contract.commandName c.name m.name) = .ok (c, m) ↔ m.name ≠ "" ∧ '.' ∉ m.name.toList := by
  rw [← Contract.splitName_commandName_iff hcontract]
  unfold Contracts.lookup Contracts.get
  constructor
  · intro h
    cases hsplit : Contract.splitName (Contract.commandName c.name m.name) with
    | error f =>
      rw [hsplit] at h
      cases h
    | ok pair =>
      obtain ⟨contract, method⟩ := pair
      rw [hsplit] at h
      cases hfind : contracts.find? contract with
      | none =>
        simp only [hfind] at h
        cases h
      | some other =>
        simp only [hfind] at h
        cases hmethod : other.method? method with
        | none =>
          simp only [hmethod] at h
          cases h
        | some n =>
          simp only [hmethod] at h
          cases h
          -- What was found by a name has that name.
          have hcname := List.find?_some hfind
          have hmname := List.find?_some hmethod
          rw [beq_iff_eq] at hcname hmname
          rw [hcname, hmname]
  · intro h
    simp only [h, hc, hm]

/-! ## 3. Lines -/

/-- The declaration that the first command of a line stands for. -/
def Command.Line.selected? (l : Command.Line) : Option Declaration := l.results.head?.bind (·.declaration)

/-- A command stands for what its name resolves to. -/
theorem Command.declaration_readCommand (commands : Registry) (name s : List Char) :
    (Command.readCommand commands name s).1.declaration = commands.find? (String.ofList name) := by
  unfold Command.readCommand
  cases hfind : commands.find? (String.ofList name) with
  | none => simp only [hfind]
  | some d =>
    simp only [hfind]
    split <;> rfl

/-- The first command of a line is that of the name that the line starts with. -/
theorem Command.selected?_ofText {commands : Registry} {s name t : List Char} (hs : Command.Starts s)
    (h : Command.name? s = some (name, t)) :
    (Command.Line.ofText commands (String.ofList s)).selected? = commands.find? (String.ofList name) := by
  have hstart : (Command.gap s).rest = s := by
    have hgap := Command.gap_before_token (g := []) (by simp [Command.AllBlank]) hs
    rw [List.nil_append] at hgap
    rw [hgap]
  have hdeclared := declaration_readCommand commands name t
  unfold Command.Line.ofText Command.Line.selected?
  rw [String.toList_ofList, hstart]
  cases hread : Command.readCommand commands name t with
  | mk i rest =>
    rw [hread] at hdeclared
    cases rest with
    | error why =>
      rw [Command.readCommands_of_error h hread]
      exact hdeclared
    | ok more =>
      rw [Command.readCommands_of_ok h hread]
      split <;> exact hdeclared

/-- A line that starts with the name of a method's command selects what is declared under the part that is read of it. -/
theorem Contract.selected?_commandName (commands : Registry) {contract : String}
    (hcontract : Registration.isName contract = true) (method : String) {r : List Char} (hr : Command.isDelimited r = true) :
    (Command.Line.ofText commands (String.ofList ((commandName contract method).toList ++ r))).selected? =
      commands.find? (String.ofList (nameRead contract method)) := by
  obtain ⟨t, hread⟩ := name?_commandName hcontract method hr
  refine Command.selected?_ofText ?_ hread
  rw [toList_commandName, List.append_assoc]
  exact ((isRun_of_isName hcontract).starts Command.isSolid_isWordChar).append _

/-! ## 4. New contracts -/

/-- The command of a method is reached by its name: the name is read to its end, a line that consists of the name selects
the command whatever ends the name, and the table of contracts finds the method. -/
structure Method.Reached (contracts : Contracts) (commands : Registry) (c : Contract) (m : Method) (x : Declaration) :
    Prop where
  read : Command.name? x.name.toList = some (x.name.toList, [])
  selected : ∀ r, Command.isDelimited r = true →
    (Command.Line.ofText commands (String.ofList (x.name.toList ++ r))).selected? = some x
  found : contracts.lookup x.name = .ok (c, m)

theorem Contract.method?_of_mem {c : Contract} (hnodup : (c.methods.map (·.name)).Nodup) {m : Method}
    (hm : m ∈ c.methods) : c.method? m.name = some m := by
  unfold Contract.method?
  cases hfind : c.methods.find? (·.name == m.name) with
  | none =>
    have hnone := List.find?_eq_none.mp hfind m hm
    exact absurd (beq_self_eq_true m.name) hnone
  | some n =>
    have hname := List.find?_some hfind
    rw [beq_iff_eq] at hname
    rw [List.inj_on_of_nodup_map hnodup (List.mem_of_find?_eq_some hfind) hm hname]

/-- Each method of a new contract has its command, and both are found under their names. -/
theorem Enrolled.exists_command {s after : Session} {name address : String} {d : Interface.Document} {c : Contract}
    (h : Enrolled s name address d c after) (hfree : s.contracts.find? name = none)
    (hdistinct : (d.methods.map (·.name)).Nodup) {m : Method} (hm : m ∈ c.methods) :
    after.contracts.find? c.name = some c ∧ c.method? m.name = some m ∧
      ∃ x, Registration.IsCommandOf name m x ∧ after.commands.find? x.name = some x := by
  obtain ⟨es, ds, hperm, -, hms, hds, -, hresolve⟩ := h.commands
  have hnodup : (c.methods.map (·.name)).Nodup := by
    rw [← map_eq_of_forall₂ (fun e m hm => hm.1.symm) hms]
    exact (hperm.map (·.name)).nodup_iff.mpr hdistinct
  rw [← h.contract_name] at hfree
  have hadded := Contracts.find?_add_self hfree
  rw [Contracts.add, ← h.contracts] at hadded
  obtain ⟨x, hx, hcommand⟩ := forall₂_mem_right hds hm
  exact ⟨hadded, Contract.method?_of_mem hnodup hm, x, hcommand, hresolve hdistinct x hx⟩

/-- When a contract of a document is registered, a command is reached by its name just when its method's name is a word of
letters, figures and underscores. Of any other name only a part is read, and a line of it selects what is declared under
that part, be it another method of the contract or nothing. The table of contracts is less strict: it finds every method
whose name is not empty and has no point in it. -/
theorem commands_reached_iff {text : String} {d : Interface.Document} (hdocument : Interface.Document.ofText text = .ok d)
    {s after : Session} {name address : String} {c : Contract} (henroll : s.enroll name address d = (.ok c, after)) :
    ∀ m ∈ c.methods, ∃ x, Registration.IsCommandOf name m x ∧ after.commands.find? x.name = some x ∧
      (Command.IsRun Command.isWordChar m.name.toList → m.Reached after.contracts after.commands c x) ∧
      (¬ Command.IsRun Command.isWordChar m.name.toList →
        Command.name? x.name.toList ≠ some (x.name.toList, []) ∧
          ∀ r, Command.isDelimited r = true →
            (Command.Line.ofText after.commands (String.ofList (x.name.toList ++ r))).selected? ≠ some x ∧
            (Command.Line.ofText after.commands (String.ofList (x.name.toList ++ r))).selected? =
              after.commands.find? (String.ofList (Contract.nameRead name m.name))) ∧
      (after.contracts.lookup x.name = .ok (c, m) ↔ m.name ≠ "" ∧ '.' ∉ m.name.toList) := by
  intro m hm
  obtain ⟨hvalid, hfree, henrolled⟩ := enrolled_of_enroll henroll
  obtain ⟨hcontract, hmethod, x, hcommand, hfind⟩ :=
    henrolled.exists_command hfree (Session.nodup_names_of_ofText hdocument) hm
  have hname := henrolled.contract_name
  have hlookup := Contracts.lookup_commandName_iff (by rw [hname]; exact hvalid) hcontract hmethod
  obtain ⟨t, hread⟩ := Contract.name?_commandName hvalid m.name (r := []) rfl
  rw [List.append_nil, ← hcommand.1] at hread
  rw [hname, ← hcommand.1] at hlookup
  have hline : ∀ r, Command.isDelimited r = true →
      (Command.Line.ofText after.commands (String.ofList (x.name.toList ++ r))).selected? =
        after.commands.find? (String.ofList (Contract.nameRead name m.name)) := by
    intro r hr
    rw [hcommand.1]
    exact Contract.selected?_commandName after.commands hvalid m.name hr
  have hwhole := Contract.nameRead_eq_iff name m.name
  rw [← hcommand.1] at hwhole
  refine ⟨x, hcommand, hfind, ?_, ?_, hlookup⟩
  · intro hrun
    rw [← hwhole] at hrun
    refine ⟨?_, ?_, ?_⟩
    · have hrest := Command.name?_append hread
      rw [hrun] at hread hrest
      rw [List.append_right_eq_self] at hrest
      rw [hread, hrest]
    · intro r hr
      rw [hline r hr, hrun, String.ofList_toList]
      exact hfind
    · rw [hwhole] at hrun
      apply hlookup.mpr
      refine ⟨fun hempty => hrun.1 (by rw [hempty]; rfl), fun hpoint => ?_⟩
      have hword := hrun.2 '.' hpoint
      revert hword
      decide
  · intro hrun
    rw [← hwhole] at hrun
    refine ⟨?_, fun r hr => ⟨?_, hline r hr⟩⟩
    · rw [hread, ne_eq, Option.some.injEq, Prod.mk.injEq]
      exact fun h => hrun h.1
    · rw [hline r hr]
      intro h
      -- A declaration is found under its own name only.
      have hfound := List.find?_some h
      rw [beq_iff_eq] at hfound
      exact hrun (by rw [hfound, String.toList_ofList])

/-- A document of two methods, one of which has a hyphen in its name. -/
def hyphenText : List Char :=
  ['\x7b', '"', 'm', 'e', 't', 'h', 'o', 'd', 's', '"', ':', '\x7b', '"', 'g', 'e', 't', '"', ':', '\x7b', '"', 'e', 'n', 't',
    'r', 'y', '_', 'p', 'o', 'i', 'n', 't', '"', ':', '1', '\x7d', ',', '"', 'g', 'e', 't', '-', 'x', '"', ':', '\x7b', '"',
    'e', 'n', 't', 'r', 'y', '_', 'p', 'o', 'i', 'n', 't', '"', ':', '2', '\x7d', '\x7d', ',', '"', 't', 'y', 'p', 'e', 's',
    '"', ':', '"', 'C', 'g', 'F', '0', '"', '\x7d']

/-- What the document says. -/
def hyphenDocument : Interface.Document where
  methods := [⟨"get", "", "", 1, "", false⟩, ⟨"get-x", "", "", 2, "", false⟩]
  types := "CgF0"

theorem ofText_hyphenText : Interface.Document.ofText (String.ofList hyphenText) = .ok hyphenDocument := by
  have hread : Json.read? (String.ofList hyphenText) = some (.obj [("methods", .obj [("get", .obj [("entry_point", .int 1)]),
      ("get-x", .obj [("entry_point", .int 2)])]), ("types", .str "CgF0")]) := by
    apply Json.read?_ofList
    rfl
  exact (Interface.ofText_of_read? hread).trans rfl

/-- A shell that has registered nothing can register a contract of the document. -/
theorem enroll_hyphenDocument : ∃ c after,
    (Session.start .empty ⟨[], [], []⟩ [] ⟨.null, 0, fun _ => none⟩).enroll "c" "1A" hyphenDocument = (.ok c, after) ∧
      ∀ e ∈ hyphenDocument.methods, ∃ m ∈ c.methods, m.name = e.name := by
  have hempty : Wire.wellFormed Descriptor.formatLayouts Descriptor.fileSetType [10, 1, 116] = false ∧
      Wire.wellFormed Descriptor.formatLayouts Descriptor.fileType [10, 1, 116] = true ∧
      (Descriptor.File.ofBytes [10, 1, 116]).name.isEmpty = false ∧
      (Descriptor.File.ofBytes [10, 1, 116]).isPlain = true ∧ (Descriptor.File.ofBytes [10, 1, 116]).isSound = true ∧
      (Descriptor.File.ofBytes [10, 1, 116]).name ≠ Descriptor.Standard.fileName ∧
      Descriptor.Standard.pool.areNew (Descriptor.File.ofBytes [10, 1, 116]).symbols = true := by
    decide +kernel
  obtain ⟨hset, hwell, hnamed, hplain, hsound, hname, hnew⟩ := hempty
  have hfile : Library.ofBytes [10, 1, 116] = .ok (.ofPlain (Descriptor.File.ofBytes [10, 1, 116])) :=
    Library.ofBytes_of_isPlain hset hwell hnamed hplain hsound hname hnew
  have htypes : Base64.decode true "CgF0".toList = .ok [10, 1, 116] := by decide +kernel
  have hlibrary : Library.ofText "CgF0" = .ok (.ofPlain (Descriptor.File.ofBytes [10, 1, 116])) := by
    unfold Library.ofText
    rw [htypes]
    exact hfile
  have haddress : Base58.decode "1A".toList = .ok [0, 9] := by decide +kernel
  have hschema : (Library.ofPlain (Descriptor.File.ofBytes [10, 1, 116])).schema "" = .ok .empty := by
    rw [Library.schema_eq_ok_iff]
    rfl
  have hable : Registrable (Session.start .empty ⟨[], [], []⟩ [] ⟨.null, 0, fun _ => none⟩) "c" "1A" hyphenDocument := by
    refine ⟨by decide, rfl, ⟨_, haddress⟩, _, hlibrary, fun e he => ⟨rfl, ⟨.empty, [], ?_, rfl⟩, .empty, ?_⟩⟩
    all_goals
      rcases List.mem_pair.mp he with rfl | rfl
      all_goals exact hschema
  obtain ⟨c, ds, hprepare⟩ := registrable_iff.mp hable
  have henrolled := enrolled_of_prepare hprepare
  obtain ⟨es, -, hperm, -, hms, -⟩ := henrolled.commands
  refine ⟨c, _, enroll_of_prepare hprepare, fun e he => ?_⟩
  obtain ⟨m, hm, hmethod⟩ := forall₂_mem_right hms (hperm.mem_iff.mpr he)
  exact ⟨m, hm, hmethod.1⟩

/-- Of the two methods the one with a plain name is reached; the other is found in the table of contracts only. -/
theorem commands_reached_hyphen : ∃ c after,
    (Session.start .empty ⟨[], [], []⟩ [] ⟨.null, 0, fun _ => none⟩).enroll "c" "1A" hyphenDocument = (.ok c, after) ∧
      (∃ m ∈ c.methods, m.name = "get" ∧ ∃ x, m.Reached after.contracts after.commands c x) ∧
      ∃ m ∈ c.methods, m.name = "get-x" ∧ ∃ x, after.commands.find? x.name = some x ∧
        after.contracts.lookup x.name = .ok (c, m) ∧ Command.name? x.name.toList ≠ some (x.name.toList, []) := by
  obtain ⟨c, after, henroll, hmethods⟩ := enroll_hyphenDocument
  have hreached := commands_reached_iff ofText_hyphenText henroll
  obtain ⟨m, hm, hname⟩ := hmethods _ (List.mem_cons_self)
  obtain ⟨n, hn, hname'⟩ := hmethods _ (List.mem_cons_of_mem _ (List.mem_singleton_self _))
  refine ⟨c, after, henroll, ⟨m, hm, hname, ?_⟩, n, hn, hname', ?_⟩
  · obtain ⟨x, -, -, hplain, -⟩ := hreached m hm
    exact ⟨x, hplain (by rw [hname]; exact Command.isRun_of_all (by decide) (by decide))⟩
  · obtain ⟨x, -, hfind, -, hother, hlookup⟩ := hreached n hn
    refine ⟨x, hfind, hlookup.mpr (by rw [hname']; decide), (hother ?_).1⟩
    rw [hname']
    exact fun h => absurd (h.2 '-' (by decide)) (by decide)

/-- The line `c.get-x` runs the other method of the contract. -/
theorem hyphen_selects_other : ∃ c after m x other,
    Interface.Document.ofText (String.ofList hyphenText) = .ok hyphenDocument ∧
      (Session.start .empty ⟨[], [], []⟩ [] ⟨.null, 0, fun _ => none⟩).enroll "c" "1A" hyphenDocument = (.ok c, after) ∧
      m ∈ c.methods ∧ Registration.IsCommandOf "c" m x ∧ x.name = "c.get-x" ∧ other.name = "c.get" ∧
      Command.name? x.name.toList = some ("c.get".toList, "-x".toList) ∧
      (Command.Line.ofText after.commands x.name).selected? = some other ∧
      ¬ m.Reached after.contracts after.commands c x := by
  obtain ⟨c, after, henroll, hmethods⟩ := enroll_hyphenDocument
  obtain ⟨hvalid, hfree, henrolled⟩ := enrolled_of_enroll henroll
  have hdistinct := Session.nodup_names_of_ofText ofText_hyphenText
  obtain ⟨n, hn, hname⟩ := hmethods _ (List.mem_cons_self)
  obtain ⟨m, hm, hname'⟩ := hmethods _ (List.mem_cons_of_mem _ (List.mem_singleton_self _))
  obtain ⟨-, -, other, hother, hfind⟩ := henrolled.exists_command hfree hdistinct hn
  obtain ⟨-, -, x, hx, -⟩ := henrolled.exists_command hfree hdistinct hm
  have hxname : x.name = "c.get-x" := by
    rw [hx.1, hname']
    decide
  have hothername : other.name = "c.get" := by
    rw [hother.1, hname]
    decide
  have hpart : String.ofList (Contract.nameRead "c" m.name) = other.name := by
    rw [hname', hothername]
    decide
  have hread : Command.name? x.name.toList = some ("c.get".toList, "-x".toList) := by
    rw [hxname]
    decide
  refine ⟨c, after, m, x, other, ofText_hyphenText, henroll, hm, hx, hxname, hothername, hread, ?_, ?_⟩
  · have hline := Contract.selected?_commandName after.commands hvalid m.name (r := []) rfl
    rw [List.append_nil, String.ofList_toList, ← hx.1, hpart] at hline
    rw [hline]
    exact hfind
  · intro h
    have hwhole := hread.symm.trans h.read
    rw [Option.some.injEq, Prod.mk.injEq] at hwhole
    exact absurd hwhole.2 (by decide)

end ContractShell
