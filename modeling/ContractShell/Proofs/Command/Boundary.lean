import ContractShell.Proofs.Command.Rendering
import ContractShell.Command.Standard

/-!
Where the tokens of a line end.

The reader of a line keeps the value of each token but not its place. Here the tokens are kept with the text after them,
beside the results that the reader gives, so that it can be said which of them are followed by a blank, a separator or
the end of the line. A token that runs into other text is glued.

## Main statements

* `readArgs_settled`, `readsCommand`: the ways in which arguments are settled and a command is read.
* `readArgs_of_glued`: a glued token ends the reading of arguments, with a fault unless it is the last one declared.
* `trace_boundaries`: which commands of a line have a glued token, and how the line ends then.
-/

namespace ContractShell.Command

/-! ## 1. Tokens with their places -/

/-- A token that was read for an argument: the text from it on, its value, and the text after it. -/
structure Reading where
  arg : Arg
  start : List Char
  value : List Char
  rest : List Char

/-- A token is glued when other text than a blank or a separator follows it. -/
def Reading.glued (r : Reading) : Bool := !isDelimited r.rest

/-- The tokens that are read for arguments, in order. -/
def argReadings : List Arg → List Char → List Reading
  | [], _ => []
  | a :: more, s =>
    if (gap s).termination ≠ .none ∨ (gap s).blank = false then []
    else
      match a.kind.read (gap s).rest with
      | .error _ => []
      | .ok (value, r) => ⟨a, (gap s).rest, value, r⟩ :: argReadings more r

/-- The values after some tokens were read. -/
def readingValues (tokens : List Reading) (vs : Values) : Values :=
  tokens.foldl (fun vs r => Values.set r.arg.name (String.ofList r.value) vs) vs

/-- A command of a line with the tokens that were read for its arguments. -/
structure Traced where
  result : Invocation
  tokens : List Reading

/-- The declared arguments of a command. -/
def Traced.declared (x : Traced) : List Arg := (x.result.declaration.map (·.args)).getD []

theorem Traced.declared_of_declaration {x : Traced} {d : Declaration} (h : x.result.declaration = some d) :
    x.declared = d.args := by
  unfold Traced.declared
  rw [h]
  rfl

/-- The values of a command by its tokens: the arguments without a token are empty. -/
def Traced.values (x : Traced) : Values :=
  fillEmpty (x.declared.drop x.tokens.length) (readingValues x.tokens [])

/-- Every declared argument of a command has a token, and the last token is glued. -/
def Traced.IsCut (x : Traced) : Prop :=
  x.declared.length ≤ x.tokens.length ∧ ∃ r, x.tokens.getLast? = some r ∧ r.glued = true

/-- The tokens of the command of a name. -/
def commandReadings (commands : Registry) (name s : List Char) : List Reading :=
  argReadings (((commands.find? (String.ofList name)).map (·.args)).getD []) s

/-- Reads the commands of a text as `readCommands` does, and keeps their tokens. -/
def traceCommands (commands : Registry) (s : List Char) : List Traced :=
  if s.isEmpty then []
  else
    match hn : name? s with
    | none => []
    | some (name, r) =>
      match hc : readCommand commands name r with
      | (i, .error _) => [⟨i, commandReadings commands name r⟩]
      | (i, .ok t) =>
        if i.termination = .separator then
          have : t.length < s.length := Nat.lt_of_le_of_lt (readCommand_length_le hc) (name?_length_lt hn)
          ⟨i, commandReadings commands name r⟩ :: traceCommands commands t
        else [⟨i, commandReadings commands name r⟩]
termination_by s.length

/-- The commands of a line with their tokens. -/
def Line.trace (commands : Registry) (text : String) : List Traced :=
  traceCommands commands (gap text.toList).rest

theorem gap_suffix (s : List Char) : (gap s).rest <:+ s := by
  have hterm : ∀ t, (terminator t).2 <:+ t := by
    intro t
    cases t with
    | nil => exact List.suffix_rfl
    | cons c r =>
      simp only [terminator]
      by_cases hc : c = ';'
      · simp only [if_pos hc]
        exact List.suffix_cons c r
      · simp only [if_neg hc]
        exact List.suffix_rfl
  have hfirst : Text.dropBlank s <:+ s := List.dropWhile_suffix _
  exact ((List.dropWhile_suffix _).trans (hterm _)).trans hfirst

theorem argReadings_suffix {args : List Arg} {s : List Char} {r : Reading} (hr : r ∈ argReadings args s) :
    r.start <:+ s ∧ r.rest <:+ r.start ∧ r.arg.kind.read r.start = .ok (r.value, r.rest) := by
  induction args generalizing s with
  | nil => cases hr
  | cons a more ih =>
    unfold argReadings at hr
    split at hr
    · cases hr
    · split at hr
      · cases hr
      · rename_i hread
        have hrest := Kind.read_suffix hread
        rcases List.mem_cons.mp hr with rfl | hmem
        · exact ⟨gap_suffix s, hrest, hread⟩
        · have hmore := ih hmem
          exact ⟨(hmore.1.trans hrest).trans (gap_suffix s), hmore.2⟩

/-! ## 2. What a glued token does -/

theorem gap_of_glued {s : List Char} (h : isDelimited s = false) : gap s = ⟨s, .none, false⟩ := by
  have hs : Starts s := by
    cases s with
    | nil => cases h
    | cons c r => exact ⟨c, r, rfl, h⟩
  exact gap_before_token (g := []) (by simp [AllBlank]) hs

theorem argReadings_of_glued {s : List Char} (h : isDelimited s = false) (args : List Arg) :
    argReadings args s = [] := by
  cases args with
  | nil => rfl
  | cons a more => rw [argReadings, gap_of_glued h, if_pos (.inr rfl)]

theorem readArgs_of_tokens {a : Arg} {more : List Arg} {p : Progress} {value r : List Char} (previous : Option String)
    (hgap : ¬ ((gap p.rest).termination ≠ .none ∨ (gap p.rest).blank = false))
    (hread : a.kind.read (gap p.rest).rest = .ok (value, r)) :
    readArgs previous (a :: more) p = readArgs (some a.name) more
      ⟨Values.set a.name (String.ofList value) p.args, (gap p.rest).advance p.current, r⟩ := by
  simp only [not_or, Bool.not_eq_false, Classical.not_not] at hgap
  rw [readArgs]
  simp only [hread]
  rw [if_neg (by simp [hgap.1]), if_neg (by simp [hgap.2])]

/-- Arguments are settled in one of two ways: the command ends where an optional argument could stand, or there is a token
for the first argument, and the others are settled behind it. -/
theorem readArgs_settled {previous : Option String} {a : Arg} {more : List Arg} {p q : Progress}
    {ended : Option Termination} (h : readArgs previous (a :: more) p = (q, .settled ended)) :
    ((gap p.rest).termination ≠ .none ∧ a.optional = true ∧ ended = some (gap p.rest).termination ∧
        q = ⟨fillEmpty (a :: more) p.args, (gap p.rest).advance p.current, (gap p.rest).rest⟩) ∨
      ((gap p.rest).termination = .none ∧ (gap p.rest).blank = true ∧
        ∃ value r, a.kind.read (gap p.rest).rest = .ok (value, r) ∧
          readArgs (some a.name) more
            ⟨Values.set a.name (String.ofList value) p.args, (gap p.rest).advance p.current, r⟩ = (q, .settled ended)) := by
  rw [readArgs] at h
  by_cases hterm : (gap p.rest).termination = .none
  · rw [if_neg (by simp [hterm])] at h
    cases hblank : (gap p.rest).blank with
    | false =>
      rw [if_pos (by simp [hblank])] at h
      cases h
    | true =>
      rw [if_neg (by simp [hblank])] at h
      cases hread : a.kind.read (gap p.rest).rest with
      | error why =>
        simp only [hread] at h
        cases why <;> cases h
      | ok found =>
        simp only [hread] at h
        exact .inr ⟨hterm, rfl, found.1, found.2, rfl, h⟩
  · rw [if_pos hterm] at h
    cases hopt : a.optional with
    | false =>
      rw [if_neg (by simp [hopt])] at h
      cases h
    | true =>
      rw [if_pos hopt] at h
      cases h
      exact .inl ⟨hterm, rfl, rfl, rfl⟩

/-- A glued token ends the reading of arguments: with a fault that names its argument, or, where it is the last one, with
the text after it left to read. -/
theorem readArgs_of_glued {args : List Arg} {p : Progress} {r : Reading} (previous : Option String)
    (hr : r ∈ argReadings args p.rest) (hglued : r.glued = true) :
    (argReadings args p.rest).getLast? = some r ∧
      if (argReadings args p.rest).length < args.length then
        (readArgs previous args p).2 = .fault (.invalidParameter r.arg.name none)
      else (readArgs previous args p).2 = .settled none ∧ (readArgs previous args p).1.rest = r.rest := by
  have hrest : isDelimited r.rest = false := by simpa [Reading.glued] using hglued
  -- The reading and its list of tokens take the same branches, argument by argument.
  induction args generalizing previous p with
  | nil => cases hr
  | cons a more ih =>
    by_cases hgap : (gap p.rest).termination ≠ .none ∨ (gap p.rest).blank = false
    · rw [argReadings, if_pos hgap] at hr
      cases hr
    · cases hread : a.kind.read (gap p.rest).rest with
      | error why =>
        rw [argReadings, if_neg hgap, hread] at hr
        cases hr
      | ok found =>
        obtain ⟨value, s⟩ := found
        have hlist : argReadings (a :: more) p.rest = ⟨a, (gap p.rest).rest, value, s⟩ :: argReadings more s := by
          rw [argReadings, if_neg hgap, hread]
        rw [hlist] at hr ⊢
        rw [readArgs_of_tokens previous hgap hread]
        rcases List.mem_cons.mp hr with rfl | hmem
        · -- nothing can be read after a glued token
          rw [argReadings_of_glued hrest]
          refine ⟨rfl, ?_⟩
          cases more with
          | nil =>
            rw [if_neg (by simp)]
            exact ⟨rfl, rfl⟩
          | cons b _ =>
            rw [if_pos (by simp), readArgs]
            simp only [gap_of_glued hrest]
            rfl
        · obtain ⟨hlast, hend⟩ := ih (p := ⟨_, _, s⟩) (some a.name) hmem
          refine ⟨?_, ?_⟩
          · rw [List.getLast?_cons, hlast]
            rfl
          · simp only [List.length_cons, Nat.add_lt_add_iff_right]
            exact hend

/-- A reading that settles all arguments gives the values of the tokens, and the empty value to the arguments left. -/
theorem readArgs_values {args : List Arg} {p q : Progress} {previous : Option String} {ended : Option Termination}
    (h : readArgs previous args p = (q, .settled ended)) :
    q.args = fillEmpty (args.drop (argReadings args p.rest).length)
      (readingValues (argReadings args p.rest) p.args) := by
  -- No text is left for the arguments after the first gap that ends the command, so they get the empty value.
  induction args generalizing previous p with
  | nil =>
    cases h
    rfl
  | cons a more ih =>
    rcases readArgs_settled h with ⟨hterm, _, _, rfl⟩ | ⟨hterm, hblank, value, r, hread, hrest⟩
    · rw [argReadings, if_pos (.inl hterm)]
      rfl
    · rw [argReadings, if_neg (by simp [hterm, hblank]), hread]
      exact ih (p := ⟨_, _, r⟩) hrest

/-! ## 3. Commands -/

/-- The ways in which a command is read: its name is unknown, its arguments break off, they end before all were read, or
all were read. -/
inductive ReadsCommand (commands : Registry) (name s : List Char) : Invocation → Except LineFault (List Char) → Prop where
  | unknown (hfind : commands.find? (String.ofList name) = none) :
      ReadsCommand commands name s ⟨String.ofList name, [], none, (gap s).advance (-1), .none, false⟩
        (.error (.unknownCommand (String.ofList name)))
  | broken {d : Declaration} {p : Progress} {why : LineFault} (hfind : commands.find? (String.ofList name) = some d)
      (hread : readArgs none d.args ⟨[], -1, s⟩ = (p, .fault why)) :
      ReadsCommand commands name s ⟨String.ofList name, p.args, some d, p.current, .none, false⟩ (.error why)
  | ended {d : Declaration} {p : Progress} {t : Termination} (hfind : commands.find? (String.ofList name) = some d)
      (hread : readArgs none d.args ⟨[], -1, s⟩ = (p, .settled (some t))) :
      ReadsCommand commands name s ⟨String.ofList name, p.args, some d, p.current, t, true⟩ (.ok p.rest)
  | full {d : Declaration} {p : Progress} (hfind : commands.find? (String.ofList name) = some d)
      (hread : readArgs none d.args ⟨[], -1, s⟩ = (p, .settled none)) :
      ReadsCommand commands name s ⟨String.ofList name, p.args, some d, p.current, (gap p.rest).termination, true⟩
        (.ok (gap p.rest).rest)

theorem readsCommand {commands : Registry} {name s : List Char} {i : Invocation} {result : Except LineFault (List Char)}
    (h : readCommand commands name s = (i, result)) : ReadsCommand commands name s i result := by
  unfold readCommand at h
  cases hfind : commands.find? (String.ofList name) with
  | none =>
    simp only [hfind] at h
    cases h
    exact .unknown hfind
  | some d =>
    simp only [hfind] at h
    cases hread : readArgs none d.args ⟨[], -1, s⟩ with
    | mk p ended =>
      rw [hread] at h
      cases ended with
      | fault why =>
        cases h
        exact .broken hfind hread
      | settled t =>
        cases t with
        | none =>
          cases h
          exact .full hfind hread
        | some t =>
          cases h
          exact .ended hfind hread

theorem readCommand_of_glued {commands : Registry} {name s : List Char} {r : Reading}
    (hr : r ∈ commandReadings commands name s) (hglued : r.glued = true) :
    (commandReadings commands name s).getLast? = some r ∧
      ∃ i d, (readCommand commands name s).1 = i ∧ i.declaration = some d ∧ i.termination = .none ∧
        if (commandReadings commands name s).length < d.args.length then
          i.complete = false ∧ (readCommand commands name s).2 = .error (.invalidParameter r.arg.name none)
        else i.complete = true ∧ (readCommand commands name s).2 = .ok r.rest := by
  unfold commandReadings at *
  cases hfind : commands.find? (String.ofList name) with
  | none =>
    rw [hfind] at hr
    cases hr
  | some d =>
    rw [hfind] at hr
    simp only [Option.map_some, Option.getD_some] at *
    have hrest : isDelimited r.rest = false := by simpa [Reading.glued] using hglued
    obtain ⟨hlast, hend⟩ := readArgs_of_glued (p := ⟨[], -1, s⟩) none hr hglued
    refine ⟨hlast, ?_⟩
    unfold readCommand
    simp only [hfind]
    -- Whether an argument is declared after the token decides between a fault and a command that counts as read.
    by_cases hlen : (argReadings d.args s).length < d.args.length
    · rw [if_pos hlen] at hend
      simp only [hend]
      refine ⟨_, d, rfl, rfl, rfl, ?_⟩
      rw [if_pos hlen]
      exact ⟨rfl, trivial⟩
    · rw [if_neg hlen] at hend
      simp only [hend.1, hend.2, gap_of_glued hrest]
      refine ⟨_, d, rfl, rfl, rfl, ?_⟩
      rw [if_neg hlen]
      exact ⟨rfl, trivial⟩

theorem readCommand_values {commands : Registry} {name s : List Char} {i : Invocation}
    (hi : (readCommand commands name s).1 = i) (hcomplete : i.complete = true) :
    i.args = (Traced.mk i (commandReadings commands name s)).values := by
  unfold Traced.values Traced.declared commandReadings
  have hcommand : readCommand commands name s = (i, (readCommand commands name s).2) := Prod.ext hi rfl
  generalize (readCommand commands name s).2 = result at hcommand
  cases readsCommand hcommand with
  | unknown => cases hcomplete
  | broken => cases hcomplete
  | ended hfind hread =>
    rw [hfind]
    exact readArgs_values hread
  | full hfind hread =>
    rw [hfind]
    exact readArgs_values hread

/-! ## 4. Lines -/

/-- Keeping the tokens changes nothing about the results. -/
theorem traceCommands_results (commands : Registry) (s : List Char) :
    (traceCommands commands s).map Traced.result = (readCommands commands s).results := by
  fun_induction traceCommands commands s with
  | case1 s hs =>
    rw [readCommands, if_pos hs]
    rfl
  | case2 s hs hn =>
    rw [readCommands, if_neg hs]
    split
    · rfl
    · rename_i hsome
      rw [hn] at hsome
      cases hsome
  | case3 s hs name r hn i why hc =>
    rw [readCommands_of_error hn hc]
    rfl
  | case4 s hs name r hn i t hc hsep hlt ih =>
    rw [readCommands_of_ok hn hc, if_pos hsep, List.map_cons, ih]
  | case5 s hs name r hn i t hc hsep =>
    rw [readCommands_of_ok hn hc, if_neg hsep]
    rfl

theorem traceCommands_values {commands : Registry} {s : List Char} {x : Traced} (hx : x ∈ traceCommands commands s)
    (hcomplete : x.result.complete = true) : x.result.args = x.values := by
  fun_induction traceCommands commands s with
  | case1 => cases hx
  | case2 => cases hx
  | case3 s hs name r hn i why hc =>
    rw [List.mem_singleton.mp hx] at hcomplete ⊢
    exact readCommand_values (congrArg Prod.fst hc) hcomplete
  | case4 s hs name r hn i t hc hsep hlt ih =>
    rcases List.mem_cons.mp hx with rfl | hmem
    · exact readCommand_values (congrArg Prod.fst hc) hcomplete
    · exact ih hmem
  | case5 s hs name r hn i t hc hsep =>
    rw [List.mem_singleton.mp hx] at hcomplete ⊢
    exact readCommand_values (congrArg Prod.fst hc) hcomplete

/-- A command with a glued token is the last one of its line, and the token is its last one. If an argument is declared
after it, the token is a fault; if not, the command is read in full and what follows the token is never read. -/
theorem traceCommands_glued {commands : Registry} {s : List Char} {x : Traced} {r : Reading}
    (hx : x ∈ traceCommands commands s) (hr : r ∈ x.tokens) (hglued : r.glued = true) :
    (traceCommands commands s).getLast? = some x ∧ x.tokens.getLast? = some r ∧
      if x.tokens.length < x.declared.length then
        x.result.complete = false ∧
          (readCommands commands s).fault = some (.invalidParameter r.arg.name none)
      else
        x.result.complete = true ∧ x.result.termination = .none ∧ (readCommands commands s).fault = none := by
  -- One case for each way in which the reading of a line can go on after a command.
  fun_induction traceCommands commands s with
  | case1 => cases hx
  | case2 => cases hx
  | case3 s hs name text hn i why hc =>
    rw [List.mem_singleton.mp hx] at hr ⊢
    obtain ⟨hlast, j, d, hj, hdecl, hterm, hend⟩ := readCommand_of_glued hr hglued
    rw [hc] at hj hend
    change i = j at hj
    subst hj
    refine ⟨rfl, hlast, ?_⟩
    rw [readCommands_of_error hn hc, Traced.declared_of_declaration (x := ⟨i, _⟩) hdecl]
    by_cases hlen : (commandReadings commands name text).length < d.args.length
    · rw [if_pos hlen] at hend
      rw [if_pos hlen]
      exact ⟨hend.1, congrArg some (Except.error.inj hend.2)⟩
    · rw [if_neg hlen] at hend
      -- A fault was found, so the token cannot be that of the last declared argument.
      cases hend.2
  | case4 s hs name text hn i t hc hsep hlt ih =>
    rw [readCommands_of_ok hn hc, if_pos hsep]
    rcases List.mem_cons.mp hx with rfl | hmem
    · -- a separator ends this command, and so no token of it is glued
      obtain ⟨_, j, d, hj, _, hterm, _⟩ := readCommand_of_glued hr hglued
      rw [hc] at hj
      change i = j at hj
      rw [hj, hterm] at hsep
      cases hsep
    · obtain ⟨hlast, hend⟩ := ih hmem
      refine ⟨?_, hend⟩
      rw [List.getLast?_cons, hlast]
      rfl
  | case5 s hs name text hn i t hc hsep =>
    rw [List.mem_singleton.mp hx] at hr ⊢
    obtain ⟨hlast, j, d, hj, hdecl, hterm, hend⟩ := readCommand_of_glued hr hglued
    rw [hc] at hj hend
    change i = j at hj
    subst hj
    refine ⟨rfl, hlast, ?_⟩
    rw [readCommands_of_ok hn hc, if_neg hsep, Traced.declared_of_declaration (x := ⟨i, _⟩) hdecl]
    by_cases hlen : (commandReadings commands name text).length < d.args.length
    · rw [if_pos hlen] at hend
      cases hend.2
    · rw [if_neg hlen] at hend
      rw [if_neg hlen]
      exact ⟨hend.1, hterm, rfl⟩

theorem readArgs_suffix (previous : Option String) (args : List Arg) (p : Progress) :
    (readArgs previous args p).1.rest <:+ p.rest := by
  induction args generalizing previous p with
  | nil => exact List.suffix_rfl
  | cons a more ih =>
    have hgap := gap_suffix p.rest
    simp only [readArgs]
    split
    · split <;> exact hgap
    · split
      · exact hgap
      · split
        · exact hgap
        · exact hgap
        · rename_i hread
          exact ((ih _ _).trans (Kind.read_suffix hread)).trans hgap

theorem readCommand_suffix {commands : Registry} {name s r : List Char} {i : Invocation}
    (h : readCommand commands name s = (i, .ok r)) : r <:+ s := by
  cases readsCommand h with
  | @ended d p t hfind hread =>
    have hargs := readArgs_suffix none d.args ⟨[], -1, s⟩
    rw [hread] at hargs
    exact hargs
  | @full d p hfind hread =>
    have hargs := readArgs_suffix none d.args ⟨[], -1, s⟩
    rw [hread] at hargs
    exact (gap_suffix _).trans hargs

theorem traceCommands_suffix {commands : Registry} {s : List Char} {x : Traced} {r : Reading}
    (hx : x ∈ traceCommands commands s) (hr : r ∈ x.tokens) : r.start <:+ s ∧ r.rest <:+ r.start := by
  fun_induction traceCommands commands s with
  | case1 => cases hx
  | case2 => cases hx
  | case3 s hs name text hn i why hc =>
    rw [List.mem_singleton.mp hx] at hr
    have hplace := argReadings_suffix hr
    exact ⟨hplace.1.trans ⟨name, name?_append hn⟩, hplace.2.1⟩
  | case4 s hs name text hn i t hc hsep hlt ih =>
    have htext : text <:+ s := ⟨name, name?_append hn⟩
    rcases List.mem_cons.mp hx with rfl | hmem
    · have hplace := argReadings_suffix hr
      exact ⟨hplace.1.trans htext, hplace.2.1⟩
    · have hmore := ih hmem
      exact ⟨(hmore.1.trans (readCommand_suffix hc)).trans htext, hmore.2⟩
  | case5 s hs name text hn i t hc hsep =>
    rw [List.mem_singleton.mp hx] at hr
    have hplace := argReadings_suffix hr
    exact ⟨hplace.1.trans ⟨name, name?_append hn⟩, hplace.2.1⟩

theorem isCut_iff {commands : Registry} {s : List Char} {x : Traced} (hx : x ∈ traceCommands commands s)
    (hcomplete : x.result.complete = true) : x.IsCut ↔ ∃ r ∈ x.tokens, r.glued = true := by
  constructor
  · rintro ⟨_, r, hlast, hglued⟩
    exact ⟨r, List.mem_of_getLast? hlast, hglued⟩
  · rintro ⟨r, hr, hglued⟩
    obtain ⟨_, hlast, hend⟩ := traceCommands_glued hx hr hglued
    by_cases hlen : x.tokens.length < x.declared.length
    · rw [if_pos hlen, hcomplete] at hend
      cases hend.1
    · exact ⟨Nat.le_of_not_lt hlen, r, hlast, hglued⟩

/-- The tokens of a line are pieces of it, and the values of the commands that are read in full are those of their tokens.
A glued token is the last one that is read of a line. It is a fault if another argument is declared after its own;
otherwise its command counts as read in full, what follows the token is dropped, and there is no fault. So a command that is
read in full has a glued token just when the token of its last declared argument is glued. -/
theorem trace_boundaries (commands : Registry) (text : String) :
    (Line.trace commands text).map Traced.result = (Line.ofText commands text).results ∧
      ∀ x ∈ Line.trace commands text,
        (∀ r ∈ x.tokens, r.start <:+ text.toList ∧ r.rest <:+ r.start ∧
          (r.glued = true →
            (Line.trace commands text).getLast? = some x ∧ x.tokens.getLast? = some r ∧
              if x.tokens.length < x.declared.length then
                x.result.complete = false ∧
                  (Line.ofText commands text).fault = some (.invalidParameter r.arg.name none)
              else
                x.result.complete = true ∧ x.result.termination = .none ∧
                  (Line.ofText commands text).fault = none)) ∧
        (x.result.complete = true →
          x.result.args = x.values ∧ ((∀ r ∈ x.tokens, r.glued = false) ↔ ¬ x.IsCut)) := by
  refine ⟨traceCommands_results _ _, ?_⟩
  intro x hx
  refine ⟨?_, ?_⟩
  · intro r hr
    have hplace := traceCommands_suffix hx hr
    exact ⟨hplace.1.trans (gap_suffix _), hplace.2, traceCommands_glued hx hr⟩
  · intro hcomplete
    refine ⟨traceCommands_values hx hcomplete, ?_⟩
    rw [isCut_iff hx hcomplete]
    simp

-- A command that no separator follows is the only one of its text.
theorem traceCommands_of_last {commands : Registry} {s name r t : List Char} (hn : name? s = some (name, r))
    (hc : (readCommand commands name r).2 = .ok t) (hend : (readCommand commands name r).1.termination ≠ .separator) :
    traceCommands commands s = [⟨(readCommand commands name r).1, commandReadings commands name r⟩] := by
  rw [traceCommands, if_neg (isEmpty_of_name? hn)]
  split
  · rename_i hnone
    rw [hn] at hnone
    cases hnone
  · rename_i hsome
    rw [hn] at hsome
    cases hsome
    split
    · rename_i hfault
      rw [hfault] at hc
      cases hc
    · rename_i hok
      rw [hok] at hend
      rw [if_neg hend, hok]

/-- An address that runs into a figure of no address is cut there, and the transfer counts as read in full. -/
theorem transfer_cut_short :
    ∃ x ∈ Line.trace Registry.standard "transfer 1 1abc0", x.result.complete = true ∧
      ∃ r ∈ x.tokens, r.arg.name = "address" ∧ String.ofList r.value = "1abc" ∧ r.rest = ['0'] := by
  have hname : name? "transfer 1 1abc0".toList = some ("transfer".toList, " 1 1abc0".toList) := by decide
  have hread : (readCommand Registry.standard "transfer".toList " 1 1abc0".toList).2 = .ok ['0'] := by rfl
  have hdone : (readCommand Registry.standard "transfer".toList " 1 1abc0".toList).1.complete = true := by rfl
  have htokens : commandReadings Registry.standard "transfer".toList " 1 1abc0".toList =
      [⟨required "amount" .amount, "1 1abc0".toList, ['1'], " 1abc0".toList⟩,
        ⟨required "address" .address, "1abc0".toList, "1abc".toList, ['0']⟩] := by rfl
  have hterm : (readCommand Registry.standard "transfer".toList " 1 1abc0".toList).1.termination = .none := by rfl
  -- The line is one command, and reading goes no further.
  have htrace : traceCommands Registry.standard "transfer 1 1abc0".toList =
      [⟨(readCommand Registry.standard "transfer".toList " 1 1abc0".toList).1,
        commandReadings Registry.standard "transfer".toList " 1 1abc0".toList⟩] :=
    traceCommands_of_last hname hread (by rw [hterm]; decide)
  have hstart : (gap "transfer 1 1abc0".toList).rest = "transfer 1 1abc0".toList := by rfl
  unfold Line.trace
  rw [hstart, htrace]
  refine ⟨_, List.mem_singleton.mpr rfl, hdone, ?_⟩
  rw [htokens]
  refine ⟨_, List.mem_cons_of_mem _ (List.mem_singleton.mpr rfl), rfl, by decide, rfl⟩

end ContractShell.Command
