import ContractShell.Proofs.Session.Names
import ContractShell.Session.Completion

/-!
What is suggested for names of commands.

The names that a completer remembers are those of the table of commands as it was at some earlier time. The table only
grows, and its revision counts the additions, so names that are from the present revision are those of the present table.
The descriptions are never remembered.

## Main statements

* `lastToken_endsWith`: the token that a text ends with.
* `suggests_nameSuggestions`: which names are suggested for a token, in which order, and with what.
* `IsPast.move`: what is remembered is always from the table as it was before.
* `answers_fresh`: in the course of a shell no request is answered from what has changed since.
-/

namespace ContractShell

open Command (Declaration Line Registry)

namespace Completer

/-! ## 1. The names of a table -/

/-- A text ends with a token: there is a blank, a tab or a semicolon right before it, or nothing, and none in it. -/
def EndsWith (text token : List Char) : Prop :=
  ∃ before, text = before ++ token ∧ (∀ c ∈ token, c ≠ ' ' ∧ c ≠ '\t' ∧ c ≠ ';') ∧
    ∀ c, before.getLast? = some c → c = ' ' ∨ c = '\t' ∨ c = ';'

/-- What is found for a token in a table of commands: the visible names that start with the token, in alphabetical order,
each to be put in place of the token and with the description of what it resolves to. -/
structure Suggests (commands : Registry) (token : List Char) (found : List Suggestion) : Prop where
  ordered : (found.map (·.text)).Pairwise (· ≤ ·)
  names : (found.map (·.text)).Perm
    (((commands.declarations.filter fun d => !d.hidden).map (·.name)).filter fun n => token.isPrefixOf n.toList)
  each : ∀ x ∈ found, x.replaced = token.length ∧
    ∃ d, commands.find? x.text = some d ∧ x.description = d.description

theorem breaksToken_iff (c : Char) : breaksToken c = true ↔ c = ' ' ∨ c = '\t' ∨ c = ';' := by
  simp [breaksToken, or_assoc]

/-- The token that a text ends with. -/
theorem lastToken_endsWith (text : List Char) : EndsWith text (lastToken text) := by
  refine ⟨(text.reverse.dropWhile fun c => !breaksToken c).reverse, ?_, fun c hc => ?_, fun c hc => ?_⟩
  · rw [lastToken, ← List.reverse_append, List.takeWhile_append_dropWhile, List.reverse_reverse]
  · have hsolid := List.mem_takeWhile_imp (List.mem_reverse.mp hc)
    rw [Bool.not_eq_true', ← Bool.not_eq_true, breaksToken_iff, not_or, not_or] at hsolid
    exact hsolid
  · rw [List.getLast?_reverse] at hc
    have hbreak := List.head?_dropWhile_not (fun c => !breaksToken c) text.reverse
    rw [hc] at hbreak
    rw [← breaksToken_iff]
    simpa using hbreak

theorem exists_find?_of_mem_visibleNames {commands : Registry} {name : String} (h : name ∈ commands.visibleNames) :
    ∃ d, commands.find? name = some d := by
  obtain ⟨d, hd, rfl⟩ := List.mem_map.mp (commands.visibleNames_perm.mem_iff.mp h)
  have hsome : (commands.declarations.reverse.find? (·.name == d.name)).isSome = true := by
    rw [List.find?_isSome]
    exact ⟨d, List.mem_reverse.mpr (List.mem_filter.mp hd).1, beq_self_eq_true _⟩
  exact Option.isSome_iff_exists.mp hsome

/-- Which names are suggested for a token, in which order, and with what. -/
theorem suggests_nameSuggestions (commands : Registry) (token : List Char) :
    Suggests commands token (nameSuggestions commands (String.ofList token) commands.visibleNames) := by
  have htexts : (nameSuggestions commands (String.ofList token) commands.visibleNames).map (·.text) =
      commands.visibleNames.filter fun n => token.isPrefixOf n.toList := by
    rw [nameSuggestions, List.map_map, String.toList_ofList]
    exact List.map_id _
  refine ⟨?_, ?_, fun x hx => ?_⟩
  · rw [htexts]
    exact commands.pairwise_visibleNames.filter _
  · rw [htexts]
    exact commands.visibleNames_perm.filter _
  · obtain ⟨name, hname, rfl⟩ := List.mem_map.mp hx
    obtain ⟨d, hd⟩ := exists_find?_of_mem_visibleNames (List.mem_filter.mp hname).1
    refine ⟨String.length_ofList, d, hd, ?_⟩
    show commands.describe name = d.description
    rw [Registry.describe, hd]
    rfl

/-! ## 2. What is remembered -/

/-- What a completer remembers is from a table that has only grown since. -/
def IsPast (c : Completer) (commands : Registry) : Prop :=
  ∀ n, c.revision = some n →
    ∃ r : Registry, r.declarations <+: commands.declarations ∧ r.revision = n ∧ c.names = r.visibleNames

theorem isPast_fresh (commands : Registry) : fresh.IsPast commands := by
  rintro n ⟨⟩

/-- A table that grows makes nothing of what is remembered wrong. -/
theorem IsPast.grow {c : Completer} {commands commands' : Registry} (h : c.IsPast commands)
    (hgrow : commands.declarations <+: commands'.declarations) : c.IsPast commands' := by
  intro n hn
  obtain ⟨r, hr, hrevision, hnames⟩ := h n hn
  exact ⟨r, hr.trans hgrow, hrevision, hnames⟩

/-- A table that only grows and has the same revision as before is the same as before. -/
theorem IsPast.upToDate {c : Completer} {commands : Registry} (h : c.IsPast commands) : c.upToDate commands := by
  intro hrevision
  obtain ⟨r, hr, hcount, hnames⟩ := h _ hrevision
  rw [Registry.counted, Registry.counted] at hcount
  rw [hnames, Registry.eq_of_declarations (hr.eq_of_length hcount)]

theorem IsPast.refresh {c : Completer} {commands : Registry} (h : c.IsPast commands) :
    (c.refresh commands).IsPast commands := by
  unfold Completer.refresh
  split
  · exact h
  · rintro n ⟨⟩
    exact ⟨commands, List.prefix_rfl, rfl, rfl⟩

theorem IsPast.suggest {c : Completer} {s : Session} (h : c.IsPast s.commands) (text : String) :
    (suggest s text c).2.IsPast s.commands := by
  unfold Completer.suggest
  split
  · exact h.refresh
  · exact h
  · exact h

/-! ## 3. The course of a shell -/

/-- What happens to a shell with a completer: a command is added, a contract is registered, successfully or not, a line is
typed or the world around the shell changes, or suggestions for a text are asked for. -/
inductive Move where
  | declare (d : Declaration)
  | enroll (name address : String) (document : Interface.Document)
  | event (e : Event)
  | ask (text : String)

/-- The shell after a move. -/
def Move.shell : Move → Shell → Shell
  | .declare d, sh => ⟨{ sh.session with commands := sh.session.commands.add d }, sh.world⟩
  | .enroll name address document, sh => ⟨(sh.session.enroll name address document).2, sh.world⟩
  | .event e, sh => sh.step e
  | .ask _, sh => sh

/-- A request that was answered: the session that it was made in, the text, and the suggestions. -/
structure Answer where
  session : Session
  text : String
  found : List Suggestion

/-- The answers of one completer to all requests among some moves. -/
def answers : List Move → Shell → Completer → List Answer
  | [], _, _ => []
  | .ask text :: ms, sh, c =>
    let (found, c) := suggest sh.session text c
    ⟨sh.session, text, found⟩ :: answers ms sh c
  | m :: ms, sh, c => answers ms (m.shell sh) c

/-- Whatever happens to a shell, its table of commands only grows. -/
theorem declarations_prefix_move (m : Move) (sh : Shell) :
    sh.session.commands.declarations <+: (m.shell sh).session.commands.declarations := by
  cases m with
  | declare d => exact List.prefix_append _ _
  | enroll name address document => exact Session.declarations_prefix_enroll sh.session name address document
  | ask text => exact List.prefix_rfl
  | event e =>
    cases e with
    | around disk environment outcomes => exact List.prefix_rfl
    | line text =>
      -- Each command of the line adds to the table that the one before it left.
      have hexecute : ∀ i (sh' : Shell), sh.session.commands.declarations <+: sh'.session.commands.declarations →
          sh.session.commands.declarations <+: (sh'.execute i).2.session.commands.declarations := fun i sh' h =>
        h.trans (Session.declarations_prefix_of_keepsOrEnrolls (Shell.keepsOrEnrolls_execute i sh'))
      exact (Shell.holds_turnsOf (Q := fun _ _ => True) hexecute (fun _ _ _ _ _ => trivial) List.prefix_rfl
        fun _ _ => trivial).1

theorem IsPast.move {c : Completer} {sh : Shell} (h : c.IsPast sh.session.commands) (m : Move) :
    c.IsPast (m.shell sh).session.commands := h.grow (declarations_prefix_move m sh)

/-- What is suggested is what a new completer would suggest: when a command is expected, the visible names of the table as
it is that start with the token before the cursor. -/
structure Answer.IsCurrent (a : Answer) : Prop where
  fresh : a.found = (suggest a.session a.text Completer.fresh).1
  names : (Line.ofText a.session.commands a.text).cursor.expected = some .commandName →
    ∃ token, EndsWith a.text.toList token ∧ Suggests a.session.commands token a.found

theorem isCurrent_suggest {c : Completer} {s : Session} (h : c.IsPast s.commands) (text : String) :
    Answer.IsCurrent ⟨s, text, (suggest s text c).1⟩ := by
  refine ⟨suggest_refresh h.upToDate, fun hexpected => ⟨lastToken text.toList, lastToken_endsWith _, ?_⟩⟩
  have hnames : (suggest s text c).1 =
      nameSuggestions s.commands (String.ofList (lastToken text.toList)) s.commands.visibleNames := by
    simp only [suggest, hexpected, upToDate_refresh h.upToDate]
  rw [hnames]
  exact suggests_nameSuggestions s.commands (lastToken text.toList)

theorem isCurrent_of_mem_answers {c : Completer} {sh : Shell} (h : c.IsPast sh.session.commands) (ms : List Move) :
    ∀ a ∈ answers ms sh c, a.IsCurrent := by
  induction ms generalizing sh c with
  | nil => simp [answers]
  | cons m ms ih =>
    cases m with
    | ask text =>
      intro a ha
      rcases List.mem_cons.mp ha with rfl | ha
      · exact isCurrent_suggest h text
      · exact ih (h.suggest text) a ha
    | declare | enroll | event => exact ih (h.move _)

/-- In the course of a shell, whatever it starts with, a completer answers no request from what has changed since. -/
theorem answers_fresh (sh : Shell) (ms : List Move) : ∀ a ∈ answers ms sh fresh, a.IsCurrent :=
  isCurrent_of_mem_answers (isPast_fresh _) ms

/-- A word that is no name of a command is read up to its end, where a name is still expected. -/
theorem expected_unknown {commands : Registry} (h : commands.find? "b" = none) :
    (Line.ofText commands "b").cursor.expected = some .commandName := by
  have hread : Line.ofText commands "b" = ⟨[⟨"b", [], none, -1, .none, false⟩], some (.unknownCommand "b")⟩ := by
    rw [Line.ofText, show (Command.gap "b".toList).rest = ['b'] from rfl]
    have hname : Command.name? ['b'] = some (['b'], []) := rfl
    refine Command.readCommands_of_error hname ?_
    rw [Command.readCommand]
    simp only [h]
    rfl
  rw [hread]
  rfl

/-- A command that is added between two requests is suggested at the second one. -/
theorem answers_fresh_balance :
    let d : Declaration := ⟨"balance", "Show the balance", [], false, .none, rfl⟩
    let sh : Shell := ⟨Session.start .empty ⟨[], [], []⟩ [] ⟨.null, 0, fun _ => none⟩, World.silent⟩
    let a : Answer := ⟨(Move.shell (.declare d) sh).session, "b", [⟨"balance", 1, "Show the balance"⟩]⟩
    a ∈ answers [.ask "b", .declare d, .ask "b"] sh fresh ∧ a.IsCurrent := by
  intro d sh a
  have hnone : sh.session.commands.visibleNames = [] := List.mergeSort_nil
  have hone : a.session.commands.visibleNames = ["balance"] := List.mergeSort_singleton "balance"
  have hbefore : suggest sh.session "b" fresh = ([], ⟨some 0, []⟩) := by
    rw [suggest, expected_unknown rfl]
    simp only [refresh, hnone]
    rfl
  have hafter : suggest a.session "b" ⟨some 0, []⟩ = (a.found, ⟨some 1, ["balance"]⟩) := by
    rw [suggest, expected_unknown rfl]
    simp only [refresh, hone]
    rfl
  have hanswers : answers [.ask "b", .declare d, .ask "b"] sh fresh = [⟨sh.session, "b", []⟩, a] := by
    simp only [answers, hbefore]
    rw [hafter]
  have hmem : a ∈ answers [.ask "b", .declare d, .ask "b"] sh fresh := by
    rw [hanswers]
    exact List.mem_cons_of_mem _ (List.mem_singleton_self a)
  exact ⟨hmem, answers_fresh sh _ a hmem⟩

end Completer

end ContractShell
