import ContractShell.Proofs.Command.Arguments
import ContractShell.Proofs.Command.Course

/-!
Where the cursor of a line stands.

A command keeps the argument that its text has come to. The gap in front of an argument moves it on when a blank is in
the gap, be it in front of a separator or behind it, whether the argument can be read then or not. So the place says
which argument the reading stopped at, and the cursor of the line asks for a token of the kind that belongs there.

## Main statements

* `readArgs_place`: the place after the arguments, by the tokens that were read and the gap behind them.
* `readCommand_stands`: where the place of a command is.
* `cursor_fits`: what the cursor of a line reports.
-/

namespace ContractShell.Command

variable {commands : Registry}

/-! ## 1. Tokens and the text behind them -/

/-- The text behind the last of some tokens, or all of a text when there are none. -/
def textBehind (tokens : List Reading) (s : List Char) : List Char := (tokens.getLast?.map (·.rest)).getD s

@[simp]
theorem textBehind_nil (s : List Char) : textBehind [] s = s := rfl

@[simp]
theorem textBehind_cons (r : Reading) (tokens : List Reading) (s : List Char) :
    textBehind (r :: tokens) s = textBehind tokens r.rest := by
  unfold textBehind
  rw [List.getLast?_cons]
  cases tokens.getLast? <;> rfl

/-- The tokens that are read belong to the first arguments, in order. -/
theorem isPrefix_argReadings (args : List Arg) (s : List Char) : (argReadings args s).map (·.arg) <+: args := by
  rw [argReadings_args]
  exact List.take_prefix _ _

theorem argReadings_length_le (args : List Arg) (s : List Char) : (argReadings args s).length ≤ args.length := by
  have h := (isPrefix_argReadings args s).length_le
  rwa [List.length_map] at h

/-! ## 2. The place after the arguments -/

@[simp]
theorem Gap.advance_of_blank {g : Gap} (h : g.blank = true) (current : Int) : g.advance current = current + 1 :=
  if_pos h

/-- The reading of arguments stops at the first one, where the gap may move the place, or goes on behind its token,
which always moves it. -/
theorem readArgs_step (previous : Option String) (a : Arg) (more : List Arg) (p : Progress) :
    (argReadings (a :: more) p.rest = [] ∧
        (readArgs previous (a :: more) p).1.current = (gap p.rest).advance p.current ∧
        ((readArgs previous (a :: more) p).1.args = p.args ∨
          ∃ ended, (readArgs previous (a :: more) p).2 = .settled ended)) ∨
      ∃ value r, argReadings (a :: more) p.rest = ⟨a, (gap p.rest).rest, value, r⟩ :: argReadings more r ∧
        readArgs previous (a :: more) p =
          readArgs (some a.name) more ⟨Values.set a.name (String.ofList value) p.args, p.current + 1, r⟩ := by
  by_cases hgap : (gap p.rest).termination ≠ .none ∨ (gap p.rest).blank = false
  · -- a separator, the end, or text that no blank stands in front of
    refine .inl ⟨by rw [argReadings, if_pos hgap], ?_⟩
    rw [readArgs]
    by_cases hterm : (gap p.rest).termination = .none
    · have hblank : (gap p.rest).blank = false := hgap.resolve_left (not_not_intro hterm)
      rw [if_neg (not_not_intro hterm), if_pos (by rw [hblank]; rfl)]
      exact ⟨rfl, .inl rfl⟩
    · rw [if_pos hterm]
      cases a.optional with
      | false => exact ⟨rfl, .inl rfl⟩
      | true => exact ⟨rfl, .inr ⟨_, rfl⟩⟩
  · cases hread : a.kind.read (gap p.rest).rest with
    | error why =>
      have hterm : ¬ (gap p.rest).termination ≠ .none := fun h => hgap (.inl h)
      have hblank : (gap p.rest).blank = true := by simpa using fun h => hgap (.inr h)
      refine .inl ⟨by rw [argReadings, if_neg hgap, hread], ?_⟩
      rw [readArgs, if_neg hterm, if_neg (by rw [hblank]; decide), hread]
      cases why <;> exact ⟨rfl, .inl rfl⟩
    | ok found =>
      obtain ⟨value, r⟩ := found
      have hblank : (gap p.rest).blank = true := by simpa using fun h => hgap (.inr h)
      refine .inr ⟨value, r, by rw [argReadings, if_neg hgap, hread], ?_⟩
      rw [readArgs_of_tokens previous hgap hread, Gap.advance_of_blank hblank]

/-- Each token moves the place by one. When the reading stops in front of an argument, a blank in the gap there moves it
once more. -/
theorem readArgs_place (previous : Option String) (args : List Arg) (p : Progress) :
    (readArgs previous args p).1.current =
      if (argReadings args p.rest).length < args.length then
        (gap (textBehind (argReadings args p.rest) p.rest)).advance (p.current + (argReadings args p.rest).length)
      else p.current + args.length := by
  -- along the arguments: the place at the start stands one further for each token that was read
  induction args generalizing previous p with
  | nil => exact (Int.add_zero _).symm
  | cons a more ih =>
    rcases readArgs_step previous a more p with ⟨hnone, hplace, _⟩ | ⟨value, r, htokens, hread⟩
    · rw [hnone, hplace, if_pos (by simp)]
      exact congrArg _ (Int.add_zero _).symm
    · have hone : ∀ n : Nat, p.current + 1 + (n : Int) = p.current + ((n + 1 : Nat) : Int) := by omega
      rw [hread, ih, htokens, textBehind_cons, List.length_cons, List.length_cons, hone, hone]
      simp only [Nat.add_lt_add_iff_right]

/-- Where the reading of arguments is a fault, the values are those of the tokens that were read. -/
theorem readArgs_values_of_fault {args : List Arg} {p q : Progress} {previous : Option String} {why : LineFault}
    (h : readArgs previous args p = (q, .fault why)) : q.args = readingValues (argReadings args p.rest) p.args := by
  induction args generalizing previous p with
  | nil => cases h
  | cons a more ih =>
    rcases readArgs_step previous a more p with ⟨hnone, _, hargs | ⟨ended, hsettled⟩⟩ | ⟨value, r, htokens, hread⟩
    · rw [h] at hargs
      rw [hnone]
      exact hargs
    · rw [h] at hsettled
      cases hsettled
    · rw [htokens]
      exact ih (hread.symm.trans h)

/-! ## 3. The place of a command -/

/-- A command stands where its reading came to: its values are those of some tokens, which were read for the first of
its arguments from a text, and its place says how far that is. -/
structure Invocation.Stands (i : Invocation) (s : List Char) (tokens : List Reading) : Prop where
  /-- The tokens are those of the first arguments. -/
  first : ∀ d, i.declaration = some d → tokens.map (·.arg) <+: d.args
  /-- The values are those of the tokens; arguments that were left out of a command that is read in full are empty. -/
  values : i.args = if i.complete then (Traced.mk i tokens).values else readingValues tokens []
  /-- Nothing is asked of a command that no one declared: a blank behind its name is all that counts. -/
  unknown : i.declaration = none → tokens = [] ∧ i.currentArg = if (gap s).blank then 0 else -1
  /-- Without arguments the place stays in front of them. -/
  bare : ∀ d, i.declaration = some d → d.args = [] → i.currentArg = -1
  /-- The place is in front of the arguments or at one of them. -/
  within : ∀ d, i.declaration = some d → d.args ≠ [] → -1 ≤ i.currentArg ∧ i.currentArg ≤ d.args.length - 1
  /-- It is at the last one when all were read. -/
  full : ∀ d, i.declaration = some d → d.args ≠ [] → tokens.length = d.args.length →
    i.currentArg = d.args.length - 1
  /-- It is at the one where the reading stopped, or at the one before if no blank was skipped there. -/
  stopped : ∀ d, i.declaration = some d → tokens.length < d.args.length →
    (i.currentArg = tokens.length - 1 ∨ i.currentArg = tokens.length) ∧
      (i.currentArg = tokens.length ↔ (gap (textBehind tokens s)).blank = true)

/-- The place of a known command, by the tokens of its arguments. -/
theorem stands_of_place {i : Invocation} {d : Declaration} {s : List Char} (hdecl : i.declaration = some d)
    (hvalues : i.args = if i.complete then (Traced.mk i (argReadings d.args s)).values
      else readingValues (argReadings d.args s) [])
    (hplace : i.currentArg = (readArgs none d.args ⟨[], -1, s⟩).1.current) : i.Stands s (argReadings d.args s) := by
  rw [readArgs_place] at hplace
  have hle : (argReadings d.args s).length ≤ d.args.length := argReadings_length_le d.args s
  -- a gap moves the place by one or leaves it
  have hadvance : ∀ g : Gap, ∀ n : Nat, g.advance (-1 + (n : Int)) = if g.blank then (n : Int) else n - 1 := by
    intro g n
    unfold Gap.advance
    split <;> omega
  simp only [hadvance] at hplace
  have hsame : ∀ {e : Declaration}, i.declaration = some e → e = d := fun he => Option.some.inj (he.symm.trans hdecl)
  refine ⟨?first, hvalues, ?unknown, ?bare, ?within, ?full, ?stopped⟩
  case first =>
    intro e he
    rw [hsame he]
    exact isPrefix_argReadings d.args s
  case unknown =>
    intro hnone
    rw [hdecl] at hnone
    cases hnone
  case bare =>
    intro e he hargs
    rw [hsame he] at hargs
    rw [hplace, hargs]
    rfl
  case within =>
    intro e he hargs
    rw [hsame he] at hargs ⊢
    have hpos : 0 < d.args.length := List.length_pos_iff.mpr hargs
    rw [hplace]
    split
    · split <;> omega
    · omega
  case full =>
    intro e he hargs hlen
    rw [hsame he] at hlen ⊢
    rw [hplace, if_neg (by omega)]
    omega
  case stopped =>
    intro e he hlen
    rw [hsame he] at hlen
    rw [if_pos hlen] at hplace
    rw [hplace]
    cases (gap (textBehind (argReadings d.args s) s)).blank with
    | false =>
      refine ⟨.inl rfl, iff_of_false ?_ Bool.false_ne_true⟩
      simp only [Bool.false_eq_true, if_false]
      omega
    | true => exact ⟨.inr rfl, iff_of_true rfl rfl⟩

/-- The place of a command, however its reading ends. -/
theorem readCommand_stands {name s : List Char} {i : Invocation} (h : (readCommand commands name s).1 = i) :
    i.declaration = commands.find? (String.ofList name) ∧ i.Stands s (commandReadings commands name s) := by
  have hcommand : readCommand commands name s = (i, (readCommand commands name s).2) := Prod.ext h rfl
  generalize (readCommand commands name s).2 = result at hcommand
  have hcomplete := readCommand_values h
  unfold commandReadings at *
  cases readsCommand hcommand with
  | unknown hfind =>
    rw [hfind]
    refine ⟨rfl, ?_, rfl, fun _ => ⟨rfl, ?_⟩, ?_, ?_, ?_, ?_⟩
    case refine_2 =>
      show (gap s).advance (-1) = _
      unfold Gap.advance
      rfl
    all_goals
      intro d hd
      cases hd
  | broken hfind hread =>
    rw [hfind]
    refine ⟨rfl, stands_of_place rfl ?_ ?_⟩
    · exact readArgs_values_of_fault hread
    · rw [hread]
  | ended hfind hread =>
    rw [hfind] at hcomplete ⊢
    exact ⟨rfl, stands_of_place rfl (hcomplete rfl) (by rw [hread])⟩
  | full hfind hread =>
    rw [hfind] at hcomplete ⊢
    exact ⟨rfl, stands_of_place rfl (hcomplete rfl) (by rw [hread])⟩

/-! ## 4. The last command of a line -/

/-- The last command of a line was read from a name and the text behind it, where the reading of the line came to. -/
theorem IsRead.last_read {s : List Char} {l : Line} {last : Invocation} (h : IsRead commands s l)
    (hlast : l.results.getLast? = some last) :
    ∃ u name r, Reaches commands s u ∧ u <:+ s ∧ name? u = some (name, r) ∧
      (readCommand commands name r).1 = last := by
  induction h with
  | done => cases hlast
  | unnamed => cases hlast
  | broken hn hc =>
    cases hlast
    exact ⟨_, _, _, .here _, List.suffix_rfl, hn, congrArg Prod.fst hc⟩
  | last hn hc =>
    cases hlast
    exact ⟨_, _, _, .here _, List.suffix_rfl, hn, congrArg Prod.fst hc⟩
  | @more s name r t i l hn hc hsep hmore ih =>
    have hbehind : t <:+ s := (readCommand_suffix hc).trans ⟨name, name?_append hn⟩
    cases hl : l.results.getLast? with
    | none =>
      rw [List.getLast?_cons, hl] at hlast
      cases hlast
      exact ⟨s, name, r, .here s, List.suffix_rfl, hn, congrArg Prod.fst hc⟩
    | some last =>
      rw [List.getLast?_cons, hl] at hlast
      cases hlast
      obtain ⟨u, name, r, hreach, hsuffix, hread⟩ := ih hl
      exact ⟨u, name, r, .behind hn hc hsep hreach, hsuffix.trans hbehind, hread⟩

/-! ## 5. The cursor -/

/-- A cursor reports the end of a line of some commands, the last of which is given. -/
structure Line.Cursor.Reports (c : Line.Cursor) (count : Nat) (last : Invocation) : Prop where
  /-- Behind a separator a new command starts. -/
  next : last.termination = .separator → c = ⟨count, -1, some .commandName⟩
  /-- Otherwise the place is that of the last command. -/
  place : last.termination ≠ .separator → c.index + 1 = count ∧ c.currentArg = last.currentArg
  /-- In front of the arguments the name of the command may still go on. -/
  name : last.termination ≠ .separator → last.currentArg = -1 → c.expected = some .commandName
  /-- The place is that of a declared argument otherwise, and a token of its kind is expected. -/
  arg : ∀ d, last.termination ≠ .separator → last.declaration = some d → last.currentArg ≠ -1 →
    ∃ (k : Nat) (a : Arg), last.currentArg = k ∧ d.args[k]? = some a ∧ c.expected = some a.kind
  /-- Nothing is expected only behind a blank after a name that is not known. -/
  nothing : c.expected = none ↔ last.declaration = none ∧ last.currentArg = 0

/-- The termination of a command that no one declared is not a separator: its text is not read on. -/
theorem readCommand_unknown {name s : List Char} (h : (readCommand commands name s).1.declaration = none) :
    (readCommand commands name s).1.termination = .none := by
  cases hc : readCommand commands name s with
  | mk i result =>
    rw [hc] at h
    cases readsCommand hc with
    | unknown => rfl
    | broken => cases h
    | ended => cases h
    | full => cases h

-- The kind at the place of a command that is not in front of its arguments is that of a declared argument.
theorem Invocation.Stands.declared {i : Invocation} {s : List Char} {tokens : List Reading} {d : Declaration}
    (h : i.Stands s tokens) (hdecl : i.declaration = some d) (hplace : i.currentArg ≠ -1) :
    ∃ (k : Nat) (a : Arg), i.currentArg = k ∧ d.args[k]? = some a := by
  have hargs : d.args ≠ [] := fun hnil => hplace (h.bare d hdecl hnil)
  obtain ⟨hlow, hhigh⟩ := h.within d hdecl hargs
  obtain ⟨k, hk⟩ : ∃ k : Nat, i.currentArg = k := ⟨i.currentArg.toNat, by omega⟩
  have hlt : k < d.args.length := by omega
  exact ⟨k, d.args[k], hk, List.getElem?_eq_getElem hlt⟩

/-- The cursor reports a last command that stands where its reading came to. -/
theorem reports_of_stands {l : Line} {last : Invocation} {s : List Char} {tokens : List Reading}
    (hlast : l.results.getLast? = some last) (hstands : last.Stands s tokens)
    (hunknown : last.declaration = none → last.termination = .none) : l.cursor.Reports l.results.length last := by
  have hcount : l.results.length - 1 + 1 = l.results.length := by
    have hpos : 0 < l.results.length := List.length_pos_of_mem (List.mem_of_getLast? hlast)
    omega
  unfold Line.cursor
  rw [hlast]
  by_cases hsep : last.termination = .separator
  · simp only [if_pos hsep, hcount]
    have hknown : last.declaration ≠ none := fun hnone => by
      rw [hunknown hnone] at hsep
      cases hsep
    refine ⟨fun _ => rfl, fun h => absurd hsep h, fun h => absurd hsep h, fun _ h => absurd hsep h, ?_⟩
    simp [hknown]
  · by_cases hneg : last.currentArg < 0
    · have hzero : last.currentArg ≠ 0 := by omega
      simp only [if_neg hsep, if_pos hneg]
      refine ⟨fun h => absurd h hsep, fun _ => ⟨hcount, rfl⟩, fun _ _ => rfl, ?_, by simp [hzero]⟩
      intro d _ hd hplace
      obtain ⟨k, _, hk, _⟩ := hstands.declared hd hplace
      omega
    · have hplace : last.currentArg ≠ -1 := by omega
      simp only [if_neg hsep, if_neg hneg]
      cases hdecl : last.declaration with
      | none =>
        have hzero : last.currentArg = 0 := by
          have hblank := (hstands.unknown hdecl).2
          split at hblank
          · exact hblank
          · exact absurd hblank hplace
        refine ⟨fun h => absurd h hsep, fun _ => ⟨hcount, rfl⟩, fun _ h => absurd h hplace, ?_, by simp [hdecl, hzero]⟩
        intro d _ hd
        cases hdecl.symm.trans hd
      | some d =>
        obtain ⟨k, a, hk, ha⟩ := hstands.declared hdecl hplace
        have hkind : (d.args[last.currentArg.toNat]?).map (·.kind) = some a.kind := by
          rw [hk, Int.toNat_natCast, ha]
          rfl
        simp only [hkind]
        refine ⟨fun h => absurd h hsep, fun _ => ⟨hcount, rfl⟩, fun _ h => absurd h hplace, ?_, by simp [hdecl]⟩
        intro e _ he _
        rw [hdecl] at he
        cases he
        exact ⟨k, a, hk, ha, rfl⟩

/-- What the cursor of a line reports. Without commands a name is expected. Otherwise the last command was read from a
name that stands in the line; its place is in front of its arguments or at one of them, as far as they were read, and
the cursor reports that place and the kind of token that belongs there. -/
theorem cursor_fits (commands : Registry) (text : String) :
    match (Line.ofText commands text).results.getLast? with
    | none => (Line.ofText commands text).cursor = ⟨0, -1, some .commandName⟩
    | some last =>
      ∃ u name r, Reaches commands (gap text.toList).rest u ∧ u <:+ text.toList ∧ name? u = some (name, r) ∧
        (readCommand commands name r).1 = last ∧ last.declaration = commands.find? (String.ofList name) ∧
        last.Stands r (commandReadings commands name r) ∧
        (Line.ofText commands text).cursor.Reports (Line.ofText commands text).results.length last := by
  cases hlast : (Line.ofText commands text).results.getLast? with
  | none =>
    unfold Line.cursor
    rw [hlast]
  | some last =>
    obtain ⟨u, name, r, hreach, hsuffix, hname, rfl⟩ :=
      (isRead_readCommands commands (gap text.toList).rest).last_read hlast
    obtain ⟨hdecl, hstands⟩ := readCommand_stands (rfl : (readCommand commands name r).1 = _)
    exact ⟨u, name, r, hreach, hsuffix.trans (gap_suffix _), hname, rfl, hdecl, hstands,
      reports_of_stands hlast hstands readCommand_unknown⟩

end ContractShell.Command
