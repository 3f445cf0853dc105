import ContractShell.Proofs.Command.Lexeme
import ContractShell.Command.Line

/-!
Writing command lines, and reading them back.

A command is written as its name and a token for each argument that is given, with blanks in front of each token; commands
are joined by separators, with blanks on either side. The given arguments are the first ones of the declaration, and
every argument that is left out is optional.

## Main statements

* `readArgs_written`: the tokens of a command are read as the values that they were written for.
* `readCommands_written`: the commands of a line are read one by one, up to the end of the line.
* `ofText_written`: a line reads as the commands that were written in it.
-/

namespace ContractShell.Command

/-! ## 1. Gaps -/

/-- A text of blanks only. -/
def AllBlank (s : List Char) : Prop := ∀ c ∈ s, Text.isBlank c = true

theorem dropBlank_append {g : List Char} (hg : AllBlank g) (s : List Char) :
    Text.dropBlank (g ++ s) = Text.dropBlank s := List.dropWhile_append_of_pos hg

theorem dropBlank_of_starts {s : List Char} (hs : Starts s) : Text.dropBlank s = s := by
  obtain ⟨c, r, rfl, hc⟩ := hs
  have hblank : Text.isBlank c = false := by
    unfold isDelimiter at hc
    exact (Bool.or_eq_false_iff.mp hc).1
  unfold Text.dropBlank
  rw [List.dropWhile_cons, hblank]
  rfl

theorem terminator_of_starts {s : List Char} (hs : Starts s) : terminator s = (.none, s) := by
  obtain ⟨c, r, rfl, hc⟩ := hs
  have hsep : c ≠ ';' := by
    rintro rfl
    exact absurd hc (by decide)
  rw [terminator, if_neg hsep]

/-- Between a token and the next one there is nothing but their blanks. -/
theorem gap_before_token {g s : List Char} (hg : AllBlank g) (hs : Starts s) :
    gap (g ++ s) = ⟨s, .none, !g.isEmpty⟩ := by
  have hdrop : Text.dropBlank (g ++ s) = s := by rw [dropBlank_append hg, dropBlank_of_starts hs]
  unfold gap
  simp only [hdrop, terminator_of_starts hs, dropBlank_of_starts hs, List.length_append]
  cases g with
  | nil => simp
  | cons c r => simp

/-- Between a token and a separator there are its blanks; those after the separator are passed over with it. -/
theorem gap_before_separator {g : List Char} (hg : AllBlank g) (s : List Char) :
    (gap (g ++ ';' :: s)).termination = .separator ∧ (gap (g ++ ';' :: s)).rest = Text.dropBlank s := by
  have hdrop : Text.dropBlank (g ++ ';' :: s) = ';' :: s := by
    rw [dropBlank_append hg]
    rfl
  have hend : terminator (';' :: s) = (.separator, s) := rfl
  unfold gap
  simp only [hdrop, hend, and_self]

theorem gap_before_end {g : List Char} (hg : AllBlank g) :
    (gap g).termination = .endOfInput ∧ (gap g).rest = [] := by
  have hdrop : Text.dropBlank g = [] := by
    rw [← List.append_nil g, dropBlank_append hg]
    rfl
  unfold gap
  simp only [hdrop]
  exact ⟨rfl, rfl⟩

/-! ## 2. Values -/

theorem set_of_not_mem {vs : Values} {name : String} (h : name ∉ vs.map (·.1)) (value : String) :
    vs.set name value = vs ++ [(name, value)] := by
  induction vs with
  | nil => rfl
  | cons x r ih =>
    simp only [List.map_cons, List.mem_cons, not_or] at h
    obtain ⟨n, v⟩ := x
    rw [Values.set, if_neg (Ne.symm h.1), ih h.2]
    rfl

namespace Values

section

variable {α : Type} (name value : α → String)

/-- Sets the values of some items under their names, one after the other. -/
def setEach (items : List α) (vs : Values) : Values :=
  items.foldl (fun vs x => Values.set (name x) (value x) vs) vs

-- Names that are new stay new when another name is set.
theorem new_of_cons {x : α} {r : List α} {vs : Values} (hx : name x ∉ r.map name)
    (hnew : ∀ y ∈ x :: r, name y ∉ vs.map (·.1)) (v : String) :
    ∀ y ∈ r, name y ∉ (vs ++ [(name x, v)]).map (·.1) := by
  intro y hy hmem
  rw [List.map_append, List.mem_append] at hmem
  rcases hmem with hmem | hmem
  · exact hnew y (List.mem_cons_of_mem x hy) hmem
  · rw [List.map_singleton, List.mem_singleton] at hmem
    exact hx (List.mem_map.mpr ⟨y, hy, hmem⟩)

/-- What is set under names that are different and new is listed in order. -/
theorem setEach_eq {items : List α} {vs : Values} (hnodup : (items.map name).Nodup)
    (hnew : ∀ x ∈ items, name x ∉ vs.map (·.1)) :
    setEach name value items vs = vs ++ items.map fun x => (name x, value x) := by
  induction items generalizing vs with
  | nil => exact (List.append_nil vs).symm
  | cons x r ih =>
    rw [List.map_cons, List.nodup_cons] at hnodup
    have hset : Values.set (name x) (value x) vs = vs ++ [(name x, value x)] := set_of_not_mem (hnew x (by simp)) _
    show setEach name value r (Values.set (name x) (value x) vs) = _
    rw [hset, ih hnodup.2 (new_of_cons name hnodup.1 hnew (value x)), List.append_assoc]
    rfl

end

end Values

/-- The values of arguments when the first ones of them are given: those that are left out are empty. -/
def valuesOf : List Arg → List String → Values
  | [], _ => []
  | a :: more, [] => (a.name, "") :: valuesOf more []
  | a :: more, v :: vs => (a.name, v) :: valuesOf more vs

theorem valuesOf_nil (args : List Arg) : valuesOf args [] = args.map fun a => (a.name, "") := by
  induction args with
  | nil => rfl
  | cons a more ih =>
    rw [valuesOf, ih]
    rfl

theorem fillEmpty_eq {args : List Arg} {vs : Values} (hnodup : (args.map (·.name)).Nodup)
    (hnew : ∀ a ∈ args, a.name ∉ vs.map (·.1)) : fillEmpty args vs = vs ++ valuesOf args [] := by
  rw [valuesOf_nil]
  exact Values.setEach_eq Arg.name (fun _ => "") hnodup hnew

/-! ## 3. Written commands -/

/-- An argument as it is written: the blanks in front of it, its token, and the value that the token stands for. -/
structure WrittenArg where
  blanks : List Char
  token : List Char
  value : List Char

/-- The text of a written argument. -/
def WrittenArg.text (a : WrittenArg) : List Char := a.blanks ++ a.token

/-- The text of the arguments of a command. -/
def argsText (ws : List WrittenArg) : List Char := ws.flatMap WrittenArg.text

/-- The values that arguments were written for. -/
def argsValues (ws : List WrittenArg) : List String := ws.map fun w => String.ofList w.value

/-- Written arguments fit declared ones: each is a token of its kind behind at least one blank, and those that are left
out at the end are optional. -/
inductive Fit : List Arg → List WrittenArg → Prop where
  | omitted {args : List Arg} (h : ∀ a ∈ args, a.optional = true) : Fit args []
  | given {a : Arg} {w : WrittenArg} {more : List Arg} {ws : List WrittenArg} (hne : w.blanks ≠ [])
      (hblank : AllBlank w.blanks) (hdenotes : a.kind.Denotes w.token w.value) (h : Fit more ws) :
      Fit (a :: more) (w :: ws)

theorem Fit.isDelimited {args : List Arg} {ws : List WrittenArg} (h : Fit args ws) {s : List Char}
    (hs : isDelimited s = true) : isDelimited (argsText ws ++ s) = true := by
  cases h with
  | omitted => exact hs
  | @given _ w _ ws hne hblank _ _ =>
    rw [argsText, List.flatMap_cons, WrittenArg.text, List.append_assoc, List.append_assoc]
    cases hg : w.blanks with
    | nil => exact absurd hg hne
    | cons c g =>
      rw [hg] at hblank
      show (Text.isBlank c || decide (c = ';')) = true
      rw [hblank c (by simp), Bool.true_or]

/-- The tokens of a command are read as the values that they were written for. The reading goes on to the end of the
command when an argument is left out, and stops after the last token otherwise. -/
theorem readArgs_written {args : List Arg} {ws : List WrittenArg} (hfit : Fit args ws) {tail : List Char}
    (htail : isDelimited tail = true) (hend : (gap tail).termination ≠ .none) (previous : Option String) (vs : Values)
    (current : Int) (hnodup : (args.map (·.name)).Nodup) (hnew : ∀ a ∈ args, a.name ∉ vs.map (·.1)) :
    ∃ current' rest ended, readArgs previous args ⟨vs, current, argsText ws ++ tail⟩ =
        (⟨vs ++ valuesOf args (argsValues ws), current', rest⟩, .settled ended) ∧
      ((ended = none ∧ rest = tail) ∨ (ended = some (gap tail).termination ∧ rest = (gap tail).rest)) := by
  -- The invariant is that the values so far are those of the arguments before, none of whose names comes again.
  induction hfit generalizing previous vs current with
  | @omitted args hopt =>
    cases args with
    | nil => exact ⟨current, tail, none, by simp [readArgs, argsText, valuesOf], .inl ⟨rfl, rfl⟩⟩
    | cons a more =>
      refine ⟨(gap tail).advance current, (gap tail).rest, some (gap tail).termination, ?_, .inr ⟨rfl, rfl⟩⟩
      rw [readArgs]
      simp only [argsText, List.flatMap_nil, List.nil_append, argsValues, List.map_nil]
      rw [if_pos hend, if_pos (hopt a (by simp)), fillEmpty_eq hnodup hnew]
  | @given a w more ws hne hblank hdenotes hmore ih =>
    rw [List.map_cons, List.nodup_cons] at hnodup
    have hstarts : Starts (w.token ++ (argsText ws ++ tail)) := hdenotes.starts.append _
    have hgap : gap (w.blanks ++ (w.token ++ (argsText ws ++ tail))) =
        ⟨w.token ++ (argsText ws ++ tail), .none, true⟩ := by
      rw [gap_before_token hblank hstarts]
      cases hg : w.blanks with
      | nil => exact absurd hg hne
      | cons c g => rfl
    have hread : a.kind.read (w.token ++ (argsText ws ++ tail)) = .ok (w.value, argsText ws ++ tail) :=
      Kind.read_of_denotes hdenotes (hmore.isDelimited htail)
    have hset : Values.set a.name (String.ofList w.value) vs = vs ++ [(a.name, String.ofList w.value)] :=
      set_of_not_mem (hnew a (by simp)) _
    have hnext : ∀ b ∈ more, b.name ∉ (vs ++ [(a.name, String.ofList w.value)]).map (·.1) :=
      Values.new_of_cons Arg.name hnodup.1 hnew _
    obtain ⟨current', rest, ended, hstep, hended⟩ :=
      ih (some a.name) (vs ++ [(a.name, String.ofList w.value)]) (current + 1) hnodup.2 hnext
    refine ⟨current', rest, ended, ?_, hended⟩
    have htext : argsText (w :: ws) ++ tail = w.blanks ++ (w.token ++ (argsText ws ++ tail)) := by
      simp [argsText, WrittenArg.text]
    rw [readArgs, htext, hgap]
    simp only [Gap.advance, hread, hset]
    rw [if_neg (by simp), if_neg (by simp), if_pos trivial, hstep]
    simp [valuesOf, argsValues]

/-! ## 4. Written lines -/

/-- A command as it is written, with the blanks around it. -/
structure Written where
  declaration : Declaration
  before : List Char
  args : List WrittenArg
  after : List Char

namespace Written

/-- The name of a written command. -/
def name (w : Written) : List Char := w.declaration.name.toList

/-- The text of a written command from its name on, where `s` follows it. -/
def textThen (w : Written) (s : List Char) : List Char := w.name ++ (argsText w.args ++ (w.after ++ s))

/-- The text of a written command. -/
def text (w : Written) : List Char := w.before ++ w.textThen []

/-- A written command is one of a table: its name is of the form of command names and resolves to its declaration,
whose arguments have different names, and its arguments fit those. -/
structure Fits (commands : Registry) (w : Written) : Prop where
  found : commands.find? w.declaration.name = some w.declaration
  isName : IsName w.name
  distinct : (w.declaration.args.map (·.name)).Nodup
  before : AllBlank w.before
  fit : Fit w.declaration.args w.args
  after : AllBlank w.after

end Written

/-- The text of commands joined by separators. -/
def lineText (init : List Written) (last : Written) : List Char :=
  (init.flatMap fun w => w.text ++ [';']) ++ last.text

/-- What a command of a line says: all that was read of it, without the place of the cursor in it. -/
structure Saying where
  name : String
  args : Values
  declaration : Option Declaration
  termination : Termination
  complete : Bool

/-- What a command of a line says. -/
def Invocation.saying (i : Invocation) : Saying := ⟨i.name, i.args, i.declaration, i.termination, i.complete⟩

/-- What a written command says, when it ends in a given way. -/
def Written.saying (t : Termination) (w : Written) : Saying :=
  ⟨w.declaration.name, valuesOf w.declaration.args (argsValues w.args), some w.declaration, t, true⟩

theorem readCommand_written {commands : Registry} {w : Written} (hw : w.Fits commands) {tail : List Char}
    (htail : isDelimited tail = true) (hend : (gap tail).termination ≠ .none) :
    ∃ i, readCommand commands w.name (argsText w.args ++ tail) = (i, .ok (gap tail).rest) ∧
      i.saying = w.saying (gap tail).termination := by
  have hname : String.ofList w.name = w.declaration.name := String.ofList_toList
  obtain ⟨current, rest, ended, hread, hended⟩ :=
    readArgs_written hw.fit htail hend none [] (-1) hw.distinct (by simp)
  unfold readCommand
  simp only [hname, hw.found, hread, List.nil_append]
  rcases hended with ⟨rfl, rfl⟩ | ⟨rfl, rfl⟩
  · exact ⟨_, rfl, rfl⟩
  · exact ⟨_, rfl, rfl⟩

theorem Written.starts_textThen {commands : Registry} {w : Written} (hw : w.Fits commands) (s : List Char) :
    Starts (w.textThen s) := hw.isName.starts.append _

theorem isEmpty_of_name? {s name r : List Char} (hn : name? s = some (name, r)) : ¬ s.isEmpty = true := by
  have hlen := name?_length_lt hn
  intro hs
  rw [List.isEmpty_iff.mp hs] at hlen
  exact absurd hlen (by simp)

/-- A text that begins with a name is read as the command of that name, and then as what follows its separator. -/
theorem readCommands_of_name? {commands : Registry} {s name r : List Char} (hn : name? s = some (name, r)) :
    readCommands commands s =
      match readCommand commands name r with
      | (i, .error why) => ⟨[i], some why⟩
      | (i, .ok t) =>
        if i.termination = .separator then
          ⟨i :: (readCommands commands t).results, (readCommands commands t).fault⟩
        else ⟨[i], none⟩ := by
  rw [readCommands, if_neg (isEmpty_of_name? hn)]
  split
  · rename_i hnone
    rw [hn] at hnone
    cases hnone
  · rename_i hsome
    rw [hn] at hsome
    cases hsome
    split
    · rename_i hc
      simp only [hc]
    · rename_i hc
      simp only [hc]

/-- A command that cannot be read ends the line with its fault. -/
theorem readCommands_of_error {commands : Registry} {s name r : List Char} {i : Invocation} {why : LineFault}
    (hn : name? s = some (name, r)) (hc : readCommand commands name r = (i, .error why)) :
    readCommands commands s = ⟨[i], some why⟩ := by
  rw [readCommands_of_name? hn, hc]

/-- After a command that is read, the reading goes on if a separator ended it. -/
theorem readCommands_of_ok {commands : Registry} {s name r t : List Char} {i : Invocation}
    (hn : name? s = some (name, r)) (hc : readCommand commands name r = (i, .ok t)) :
    readCommands commands s =
      if i.termination = .separator then
        ⟨i :: (readCommands commands t).results, (readCommands commands t).fault⟩
      else ⟨[i], none⟩ := by
  rw [readCommands_of_name? hn, hc]

/-- The text from a command's name on reads as that command, and then as what follows its separator. -/
theorem readCommands_textThen {commands : Registry} {w : Written} (hw : w.Fits commands) {s : List Char}
    (hs : isDelimited (w.after ++ s) = true) (hend : (gap (w.after ++ s)).termination ≠ .none) :
    ∃ i, i.saying = w.saying (gap (w.after ++ s)).termination ∧
      readCommands commands (w.textThen s) =
        if (gap (w.after ++ s)).termination = .separator then
          ⟨i :: (readCommands commands (gap (w.after ++ s)).rest).results,
            (readCommands commands (gap (w.after ++ s)).rest).fault⟩
        else ⟨[i], none⟩ := by
  obtain ⟨i, hread, hsaying⟩ := readCommand_written hw hs hend
  have hname : name? (w.textThen s) = some (w.name, argsText w.args ++ (w.after ++ s)) :=
    name?_append_of_isDelimited hw.isName (hw.fit.isDelimited hs)
  have hterm : i.termination = (gap (w.after ++ s)).termination := congrArg Saying.termination hsaying
  refine ⟨i, hsaying, ?_⟩
  rw [readCommands_of_ok hname hread, hterm]

/-- A line starts with the name of a command, behind blanks. -/
theorem lineText_eq_append {commands : Registry} {init : List Written} {last : Written}
    (hfits : ∀ w ∈ init ++ [last], w.Fits commands) :
    ∃ g s, AllBlank g ∧ Starts s ∧ lineText init last = g ++ s := by
  cases init with
  | nil =>
    have hlast : last.Fits commands := hfits last (by simp)
    exact ⟨last.before, last.textThen [], hlast.before, Written.starts_textThen hlast [], rfl⟩
  | cons w init =>
    have hw : w.Fits commands := hfits w (by simp)
    refine ⟨w.before, w.textThen (';' :: lineText init last), hw.before, Written.starts_textThen hw _, ?_⟩
    simp [lineText, Written.text, Written.textThen]

/-- The commands of a line are read one by one, up to the end of the line. -/
theorem readCommands_written {commands : Registry} {init : List Written} {last : Written}
    (hinit : ∀ w ∈ init, w.Fits commands) (hlast : last.Fits commands) :
    (readCommands commands (Text.dropBlank (lineText init last))).fault = none ∧
      (readCommands commands (Text.dropBlank (lineText init last))).results.map Invocation.saying =
        init.map (Written.saying .separator) ++ [last.saying .endOfInput] := by
  -- A separator stands after every command but the last, which is read up to the end of the text.
  induction init with
  | nil =>
    have hdrop : Text.dropBlank (lineText [] last) = last.textThen [] := by
      show Text.dropBlank (last.before ++ last.textThen []) = _
      rw [dropBlank_append hlast.before, dropBlank_of_starts (Written.starts_textThen hlast [])]
    have hgap := gap_before_end hlast.after
    have hdel : isDelimited (last.after ++ []) = true := isDelimited_append_blanks hlast.after rfl
    rw [← List.append_nil last.after] at hgap
    obtain ⟨i, hsaying, hread⟩ := readCommands_textThen hlast hdel (by rw [hgap.1]; decide)
    rw [hgap.1] at hsaying hread
    rw [hdrop, hread]
    exact ⟨rfl, by simp [hsaying]⟩
  | cons w init ih =>
    have hw : w.Fits commands := hinit w (by simp)
    have hmore := ih fun v hv => hinit v (List.mem_cons_of_mem w hv)
    have htext : lineText (w :: init) last = w.before ++ w.textThen (';' :: lineText init last) := by
      simp [lineText, Written.text, Written.textThen]
    have hdrop : Text.dropBlank (lineText (w :: init) last) = w.textThen (';' :: lineText init last) := by
      rw [htext, dropBlank_append hw.before, dropBlank_of_starts (Written.starts_textThen hw _)]
    have hgap := gap_before_separator hw.after (lineText init last)
    have hdel : isDelimited (w.after ++ ';' :: lineText init last) = true :=
      isDelimited_append_blanks hw.after (show isDelimiter ';' = true by decide)
    obtain ⟨i, hsaying, hread⟩ := readCommands_textThen hw hdel (by rw [hgap.1]; decide)
    rw [hgap.1] at hsaying hread
    rw [hgap.2] at hread
    rw [hdrop, hread]
    exact ⟨hmore.1, by simp [hsaying, hmore.2]⟩

/-- The blanks in front of a line are passed over. -/
theorem ofText_lineText {commands : Registry} {init : List Written} {last : Written}
    (hfits : ∀ w ∈ init ++ [last], w.Fits commands) :
    Line.ofText commands (String.ofList (lineText init last)) =
      readCommands commands (Text.dropBlank (lineText init last)) := by
  obtain ⟨g, s, hg, hs, htext⟩ := lineText_eq_append hfits
  have hstart : (gap (lineText init last)).rest = Text.dropBlank (lineText init last) := by
    rw [htext, gap_before_token hg hs, dropBlank_append hg, dropBlank_of_starts hs]
  unfold Line.ofText
  rw [String.toList_ofList, hstart]

/-- A line reads as the commands that were written in it, in order and in full, with the values that their tokens were
written for and the empty value for every argument that is left out. -/
theorem ofText_written {commands : Registry} {init : List Written} {last : Written}
    (hfits : ∀ w ∈ init ++ [last], w.Fits commands) :
    (Line.ofText commands (String.ofList (lineText init last))).fault = none ∧
      (Line.ofText commands (String.ofList (lineText init last))).results.map Invocation.saying =
        init.map (Written.saying .separator) ++ [last.saying .endOfInput] := by
  rw [ofText_lineText hfits]
  exact readCommands_written (fun w hw => hfits w (List.mem_append_left _ hw)) (hfits last (by simp))

/-- A command with a text and an optional number. -/
def noteCommand : Declaration := ⟨"note", "", [⟨"text", .string, false⟩, ⟨"times", .uint, true⟩], false, .none, rfl⟩

/-- The command with a text that holds both a separator and a quote mark, and without a number. -/
def noteQuoted : Written := ⟨noteCommand, [' '], [⟨[' '], "\"a;\\\"b\"".toList, "a;\"b".toList⟩], ['\t']⟩

/-- The command with a text and a number. -/
def noteTwice : Written := ⟨noteCommand, [], [⟨[' '], "'x'".toList, ['x']⟩, ⟨[' ', ' '], ['1', '2'], ['1', '2']⟩], []⟩

theorem noteQuoted_fits : noteQuoted.Fits (Registry.empty.add noteCommand) where
  found := Registry.find?_add_self _ _
  isName := .inl (isRun_of_all (by decide) (by decide))
  distinct := by decide
  before := by simp [noteQuoted, AllBlank]; decide
  fit := .given (by decide) (by simp [AllBlank]; decide) ⟨'"', .inl rfl, rfl⟩ (.omitted (by simp))
  after := by simp [noteQuoted, AllBlank]; decide

theorem noteTwice_fits : noteTwice.Fits (Registry.empty.add noteCommand) where
  found := Registry.find?_add_self _ _
  isName := .inl (isRun_of_all (by decide) (by decide))
  distinct := by decide
  before := by simp [noteTwice, AllBlank]
  fit := .given (by decide) (by simp [AllBlank]; decide) ⟨'\'', .inr rfl, rfl⟩
    (.given (by decide) (by simp [AllBlank]; decide) ⟨rfl, _, isRun_of_all (by decide) (by decide), .inl rfl⟩
      (.omitted (by simp)))
  after := by simp [noteTwice, AllBlank]

theorem ofText_written_notes :
    (∀ w ∈ [noteQuoted] ++ [noteTwice], w.Fits (Registry.empty.add noteCommand)) ∧
      (Line.ofText (Registry.empty.add noteCommand) " note \"a;\\\"b\"\t;note 'x'  12").fault = none ∧
      (Line.ofText (Registry.empty.add noteCommand) " note \"a;\\\"b\"\t;note 'x'  12").results.map
          Invocation.saying =
        [⟨"note", [("text", "a;\"b"), ("times", "")], some noteCommand, .separator, true⟩,
          ⟨"note", [("text", "x"), ("times", "12")], some noteCommand, .endOfInput, true⟩] := by
  have hfits : ∀ w ∈ [noteQuoted] ++ [noteTwice], w.Fits (Registry.empty.add noteCommand) := by
    intro w hw
    simp only [List.cons_append, List.nil_append, List.mem_cons, List.not_mem_nil, or_false] at hw
    rcases hw with rfl | rfl
    · exact noteQuoted_fits
    · exact noteTwice_fits
  have hread := ofText_written hfits
  have htext : String.ofList (lineText [noteQuoted] noteTwice) = " note \"a;\\\"b\"\t;note 'x'  12" := by decide
  have hfirst : noteQuoted.saying .separator =
      ⟨"note", [("text", "a;\"b"), ("times", "")], some noteCommand, .separator, true⟩ := rfl
  have hsecond : noteTwice.saying .endOfInput =
      ⟨"note", [("text", "x"), ("times", "12")], some noteCommand, .endOfInput, true⟩ := rfl
  rw [htext, List.map_singleton, hfirst, hsecond] at hread
  exact ⟨hfits, hread⟩

end ContractShell.Command
