import ContractShell.Proofs.Command.Boundary
import ContractShell.Command.Standard
import ContractShell.Proofs.Command.Course
import ContractShell.Proofs.Command.Spelling
import Mathlib.Data.List.DropRight

/-!
Two lines joined by a separator.

A token that a delimiter follows is read in the same way whatever comes behind the delimiter. So a line whose commands are
all delimited reads as before when a separator and another line are put behind it, up to the end of its last command, which
is now the separator. From there on the other line is read.

## Main statements

* `readArgs_append`: arguments are read as before, and the end of the line has become the separator.
* `readCommands_append`: the commands of a text are read as before, and then those of the text behind it.
* `ofText_append`: two lines joined by a separator read as one after the other.
-/

namespace ContractShell.Command

/-! ## 1. Gaps -/

theorem dropBlank_append_separator (s b : List Char) : Text.dropBlank (s ++ ';' :: b) = Text.dropBlank s ++ ';' :: b := by
  unfold Text.dropBlank
  induction s with
  | nil => rfl
  | cons c r ih =>
    rw [List.cons_append, List.dropWhile_cons, List.dropWhile_cons]
    by_cases hc : Text.isBlank c = true
    · rw [if_pos hc, if_pos hc]
      exact ih
    · rw [if_neg hc, if_neg hc, List.cons_append]

theorem dropBlank_dropBlank (s : List Char) : Text.dropBlank (Text.dropBlank s) = Text.dropBlank s :=
  List.dropWhile_idempotent _ _

theorem terminator_append {s : List Char} (hs : s ≠ []) (t : List Char) :
    terminator (s ++ t) = ((terminator s).1, (terminator s).2 ++ t) := by
  cases s with
  | nil => exact absurd rfl hs
  | cons c r =>
    by_cases hc : c = ';'
    · simp [terminator, hc]
    · simp [terminator, hc]

-- A gap ends with the text when nothing but blanks is left.
theorem termination_gap_eq_end_iff (s : List Char) : (gap s).termination = .endOfInput ↔ Text.dropBlank s = [] := by
  show (terminator (Text.dropBlank s)).1 = .endOfInput ↔ _
  cases Text.dropBlank s with
  | nil => simp [terminator]
  | cons c r =>
    by_cases hc : c = ';'
    · simp [terminator, hc]
    · simp [terminator, hc]

/-- Blanks stand at the start of a text. -/
def startsBlank (b : List Char) : Bool := (Text.dropBlank b).length < b.length

theorem rest_gap_of_end {s : List Char} (h : (gap s).termination = .endOfInput) : (gap s).rest = [] := by
  unfold gap
  rw [(termination_gap_eq_end_iff s).mp h]
  rfl

-- A gap that something in its own line ends is the same in a longer line.
theorem gap_append {s : List Char} (h : (gap s).termination ≠ .endOfInput) (b : List Char) :
    gap (s ++ ';' :: b) = { gap s with rest := (gap s).rest ++ ';' :: b } := by
  have hs : Text.dropBlank s ≠ [] := fun hnil => h ((termination_gap_eq_end_iff s).mpr hnil)
  unfold gap
  simp only [dropBlank_append_separator, terminator_append hs, List.length_append, Nat.add_lt_add_iff_right]

-- Where the line ended, a separator ends the gap now, and the blanks behind that belong to the gap.
theorem gap_append_of_end {s : List Char} (h : (gap s).termination = .endOfInput) (b : List Char) :
    gap (s ++ ';' :: b) = ⟨Text.dropBlank b, .separator, (gap s).blank || startsBlank b⟩ := by
  have hs : Text.dropBlank s = [] := (termination_gap_eq_end_iff s).mp h
  have hblank : (gap s).blank = decide (0 < s.length) := by
    unfold gap
    simp only [hs]
    simp [terminator, Text.dropBlank]
  rw [hblank]
  unfold gap
  simp only [dropBlank_append_separator, hs]
  show (⟨Text.dropBlank b, .separator, decide ((';' :: b).length < (s ++ ';' :: b).length) || startsBlank b⟩ : Gap) = _
  simp

/-! ## 2. Arguments -/

theorem isDelimited_append {s t : List Char} (hs : isDelimited s = true) (ht : isDelimited t = true) :
    isDelimited (s ++ t) = true := by
  cases s with
  | nil => exact ht
  | cons c r => exact hs

theorem readArgs_of_ended {a : Arg} {more : List Arg} {p : Progress} (previous : Option String)
    (hterm : (gap p.rest).termination ≠ .none) (hopt : a.optional = true) :
    readArgs previous (a :: more) p =
      (⟨fillEmpty (a :: more) p.args, (gap p.rest).advance p.current, (gap p.rest).rest⟩,
        .settled (some (gap p.rest).termination)) := by
  rw [readArgs, if_pos hterm, if_pos hopt]

-- Arguments are settled only where a delimiter stands, unless they are over at once.
theorem isDelimited_of_settled {previous : Option String} {args : List Arg} {p q : Progress} {ended : Option Termination}
    (h : readArgs previous args p = (q, .settled ended)) (hq : ended = none → isDelimited q.rest = true) :
    isDelimited p.rest = true := by
  cases args with
  | nil =>
    cases h
    exact hq rfl
  | cons a more =>
    by_contra hglued
    rw [readArgs] at h
    simp only [gap_of_glued (Bool.eq_false_iff.mpr hglued)] at h
    cases h

/-- How far arguments are read in a text that goes on. -/
def Progress.append (p : Progress) (t : List Char) : Progress := { p with rest := p.rest ++ t }

/-- The cursor may have moved on by one argument, over blanks at the start of a text. -/
def MovesOn (b : List Char) (current current' : Int) : Prop :=
  current' = current ∨ (current' = current + 1 ∧ startsBlank b = true)

theorem movesOn_advance (g : Gap) (b rest : List Char) (t : Termination) (current : Int) :
    MovesOn b (g.advance current) ((⟨rest, t, g.blank || startsBlank b⟩ : Gap).advance current) := by
  unfold Gap.advance MovesOn
  cases g.blank <;> cases startsBlank b <;> simp

/-- Arguments are read as before when a separator and another text are put behind the line. Where the line ended, the
separator ends them now. -/
theorem readArgs_append {previous : Option String} {args : List Arg} {p q : Progress} {ended : Option Termination}
    (h : readArgs previous args p = (q, .settled ended)) (hq : ended = none → isDelimited q.rest = true)
    (b : List Char) :
    (ended ≠ some .endOfInput ∧
        readArgs previous args (p.append (';' :: b)) = (q.append (';' :: b), .settled ended)) ∨
      (ended = some .endOfInput ∧ ∃ current, MovesOn b q.current current ∧
        readArgs previous args (p.append (';' :: b)) =
          (⟨q.args, current, Text.dropBlank b⟩, .settled (some .separator))) := by
  induction args generalizing previous p with
  | nil =>
    cases h
    exact .inl ⟨by simp, rfl⟩
  | cons a more ih =>
    rcases readArgs_settled h with ⟨hterm, hopt, rfl, rfl⟩ | ⟨hterm, hblank, value, r, hread, hrest⟩
    · by_cases hend : (gap p.rest).termination = .endOfInput
      · have hgap : gap (p.append (';' :: b)).rest = _ := gap_append_of_end hend b
        refine .inr ⟨by rw [hend], _, movesOn_advance (gap p.rest) b (Text.dropBlank b) .separator p.current, ?_⟩
        rw [readArgs_of_ended previous (by simp [hgap]) hopt, hgap]
        rfl
      · have hgap : gap (p.append (';' :: b)).rest = _ := gap_append hend b
        refine .inl ⟨by simpa using hend, ?_⟩
        rw [readArgs_of_ended previous (by simpa [hgap] using hterm) hopt, hgap]
        rfl
    · have hgap : gap (p.append (';' :: b)).rest = { gap p.rest with rest := (gap p.rest).rest ++ ';' :: b } :=
        gap_append (by rw [hterm]; decide) b
      -- the token is delimited, because the arguments after it are settled
      have hr : isDelimited r = true := isDelimited_of_settled hrest hq
      have hread' : a.kind.read (gap (p.append (';' :: b)).rest).rest = .ok (value, r ++ ';' :: b) := by
        obtain ⟨u, hu, hspells⟩ := Kind.exists_spelling hread
        rw [hgap, hu, List.append_assoc]
        exact Kind.read_of_spells hspells (isDelimited_append hr (show isDelimiter ';' = true by decide))
      rw [readArgs_of_tokens previous (by simp [hgap, hterm, hblank]) hread', hgap]
      exact ih hrest

/-! ## 3. Commands -/

/-- A command that a separator ends in place of the end of its line. -/
def Invocation.separated (i : Invocation) (current : Int) : Invocation :=
  { i with termination := .separator, currentArg := current }

-- What settled arguments make of a command.
theorem readCommand_of_settled {commands : Registry} {name s : List Char} {d : Declaration} {q : Progress}
    {ended : Option Termination} (hfind : commands.find? (String.ofList name) = some d)
    (hread : readArgs none d.args ⟨[], -1, s⟩ = (q, .settled ended)) :
    readCommand commands name s = match ended with
      | some t => (⟨String.ofList name, q.args, some d, q.current, t, true⟩, .ok q.rest)
      | none => (⟨String.ofList name, q.args, some d, q.current, (gap q.rest).termination, true⟩,
          .ok (gap q.rest).rest) := by
  unfold readCommand
  simp only [hfind, hread]
  cases ended <;> rfl

/-- A command that a separator or the end of the line ends is read as before when a separator and another text are put
behind it. -/
theorem readCommand_append {commands : Registry} {name s t : List Char} {i : Invocation}
    (h : readCommand commands name s = (i, .ok t)) (hterm : i.termination ≠ .none) (b : List Char) :
    isDelimited s = true ∧
      if i.termination = .endOfInput then
        ∃ current, MovesOn b i.currentArg current ∧
          readCommand commands name (s ++ ';' :: b) = (i.separated current, .ok (Text.dropBlank b))
      else readCommand commands name (s ++ ';' :: b) = (i, .ok (t ++ ';' :: b)) := by
  cases readsCommand h with
  | @ended d q t' hfind hread =>
    have hq : (some t' : Option Termination) = none → isDelimited q.rest = true := by
      rintro ⟨⟩
    refine ⟨isDelimited_of_settled hread hq, ?_⟩
    rcases readArgs_append hread hq b with ⟨hend, hmore⟩ | ⟨hend, current, hmoves, hmore⟩
    · rw [if_neg fun ht => hend (congrArg some ht), readCommand_of_settled hfind hmore]
      rfl
    · rw [if_pos (Option.some.inj hend), readCommand_of_settled hfind hmore]
      exact ⟨current, hmoves, rfl⟩
  | @full d q hfind hread =>
    have hq : isDelimited q.rest = true := by
      by_contra hglued
      exact hterm (congrArg Gap.termination (gap_of_glued (Bool.eq_false_iff.mpr hglued)))
    refine ⟨isDelimited_of_settled hread fun _ => hq, ?_⟩
    rcases readArgs_append hread (fun _ => hq) b with ⟨_, hmore⟩ | ⟨hend, _⟩
    · rw [readCommand_of_settled hfind hmore]
      by_cases hlast : (gap q.rest).termination = .endOfInput
      · rw [if_pos hlast]
        simp only [Progress.append, gap_append_of_end hlast]
        exact ⟨q.current, .inl rfl, rfl⟩
      · rw [if_neg hlast]
        simp only [Progress.append, gap_append hlast]
    · cases hend

/-! ## 4. Lines -/

theorem name?_append_text {s name r : List Char} (hn : name? s = some (name, r)) (hr : isDelimited r = true)
    (b : List Char) : name? (s ++ ';' :: b) = some (name, r ++ ';' :: b) := by
  rw [← name?_append hn, List.append_assoc]
  exact name?_append_of_isDelimited (isName_of_name? hn) (isDelimited_append hr (show isDelimiter ';' = true by decide))

/-- The commands of a text that is read to its end are read as before when a separator and another text are put behind it,
and then the commands of that text are read. -/
theorem readCommands_append {commands : Registry} {s : List Char} {init : List Invocation} {last : Invocation}
    (h : IsRead commands s ⟨init ++ [last], none⟩) (hend : last.termination = .endOfInput) (b : List Char) :
    ∃ current, MovesOn b last.currentArg current ∧
      readCommands commands (s ++ ';' :: b) =
        ⟨init ++ last.separated current :: (readCommands commands (Text.dropBlank b)).results,
          (readCommands commands (Text.dropBlank b)).fault⟩ := by
  generalize hl : (⟨init ++ [last], none⟩ : Line) = l at h
  induction h generalizing init with
  | done => simp at hl
  | unnamed => simp at hl
  | broken => simp at hl
  | @last s name r t i hn hc hsep =>
    cases init with
    | nil =>
      cases hl
      obtain ⟨hr, hstep⟩ := readCommand_append hc (by rw [hend]; decide) b
      rw [if_pos hend] at hstep
      obtain ⟨current, hmoves, hread⟩ := hstep
      refine ⟨current, hmoves, ?_⟩
      rw [readCommands_of_ok (name?_append_text hn hr b) hread,
        if_pos (show (last.separated current).termination = .separator from rfl)]
      rfl
    | cons j js => simp at hl
  | @more s name r t i l hn hc hsep hrest ih =>
    cases init with
    | nil =>
      -- the last command of the text has a separator here, and not the end of the text
      injection hl with hresults
      injection hresults with hlast
      rw [hlast, hsep] at hend
      cases hend
    | cons j js =>
      injection hl with hresults hfault
      injection hresults with hj hjs
      subst hj
      change js ++ [last] = l.results at hjs
      obtain ⟨current, hmoves, hread⟩ := ih (show (⟨js ++ [last], none⟩ : Line) = l by rw [hjs, hfault])
      obtain ⟨hr, hstep⟩ := readCommand_append hc (by rw [hsep]; decide) b
      rw [if_neg (by rw [hsep]; decide)] at hstep
      refine ⟨current, hmoves, ?_⟩
      rw [readCommands_of_ok (name?_append_text hn hr b) hstep, if_pos hsep, hread]
      rfl

-- The blanks and the separator at the start of a line are not read again.
theorem ofText_eq_of_dropBlank {commands : Registry} {b : String} (hb : (Text.dropBlank b.toList).head? ≠ some ';') :
    Line.ofText commands b = readCommands commands (Text.dropBlank b.toList) := by
  unfold Line.ofText gap
  cases hdrop : Text.dropBlank b.toList with
  | nil => rfl
  | cons c r =>
    have hc : c ≠ ';' := by
      rintro rfl
      rw [hdrop] at hb
      exact hb rfl
    simp only [terminator, if_neg hc]
    rw [← hdrop, dropBlank_dropBlank]

/-- Two lines joined by a separator read as one after the other. The first must be read without a fault up to its end, and
the second must not start with a separator of its own. Then the last command of the first line ends in the separator, and
the cursor in it may have moved on over the blanks behind that; all else is as the two lines say on their own. -/
theorem ofText_append {commands : Registry} {a b : String} {init : List Invocation} {last : Invocation}
    (ha : Line.ofText commands a = ⟨init ++ [last], none⟩) (hend : last.termination = .endOfInput)
    (hb : (Text.dropBlank b.toList).head? ≠ some ';') :
    ∃ current, MovesOn b.toList last.currentArg current ∧
      Line.ofText commands (a ++ ";" ++ b) =
        ⟨init ++ last.separated current :: (Line.ofText commands b).results, (Line.ofText commands b).fault⟩ := by
  have hgap : (gap a.toList).termination ≠ .endOfInput := by
    intro hnil
    unfold Line.ofText at ha
    rw [rest_gap_of_end hnil, isRead_iff.mp .done] at ha
    simp at ha
  have htext : (a ++ ";" ++ b).toList = a.toList ++ ';' :: b.toList := by
    simp
  have hstart : Line.ofText commands (a ++ ";" ++ b) = readCommands commands ((gap a.toList).rest ++ ';' :: b.toList) := by
    unfold Line.ofText
    rw [htext, gap_append hgap]
  rw [hstart, ofText_eq_of_dropBlank hb]
  exact readCommands_append (isRead_iff.mpr ha) hend b.toList

-- Two standard commands, the first with an argument that the separator leaves out.
theorem ofText_append_balance :
    ∃ last : Invocation, Line.ofText Registry.standard "balance" = ⟨[] ++ [last], none⟩ ∧
      last.termination = .endOfInput ∧ (Text.dropBlank " exit".toList).head? ≠ some ';' ∧
      ∃ current, MovesOn " exit".toList last.currentArg current ∧
        Line.ofText Registry.standard ("balance" ++ ";" ++ " exit") =
          ⟨[] ++ last.separated current :: (Line.ofText Registry.standard " exit").results,
            (Line.ofText Registry.standard " exit").fault⟩ := by
  have hname : name? "balance".toList = some ("balance".toList, []) := by decide
  have hread : (readCommand Registry.standard "balance".toList []).2 = .ok [] := by rfl
  have hend : (readCommand Registry.standard "balance".toList []).1.termination = .endOfInput := by rfl
  have hstart : (gap "balance".toList).rest = "balance".toList := by rfl
  have ha : Line.ofText Registry.standard "balance" =
      ⟨[] ++ [(readCommand Registry.standard "balance".toList []).1], none⟩ := by
    unfold Line.ofText
    rw [hstart]
    refine isRead_iff.mp (.last hname (Prod.ext rfl hread) ?_)
    rw [hend]
    decide
  have hb : (Text.dropBlank " exit".toList).head? ≠ some ';' := by decide
  exact ⟨_, ha, hend, hb, ofText_append ha hend hb⟩

end ContractShell.Command
