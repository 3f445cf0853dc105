import ContractShell.Command.Registry
import ContractShell.Text.Quoted

/-!
Command lines: several commands, separated by `;`, read against a table of commands.

Reading never throws work away. When a command cannot be read, the commands before it and as much of it as was read are
kept beside the reason.

## Main statements

* `Values.mem_names_set`: which names have values after one was set.
* `gap_length_le`, `readArgs_length_le`: reading on never makes the remaining text longer.
* `Line.ofText` ends on every text, because each command takes at least its name.
-/

namespace ContractShell.Command

/-! ## 1. Results -/

/-- Why a line cannot be read further. -/
inductive LineFault where
  /-- No command name stands where one is expected. -/
  | emptyName
  /-- No command has this name. -/
  | unknownCommand (name : String)
  /-- The line or the command ends where a required argument is expected. -/
  | missingParameter (name : String)
  /-- An argument is not of its kind, or, without a kind, is not followed by a blank or a separator. -/
  | invalidParameter (name : String) (kind : Option Kind)
  /-- A quoted argument has no closing quote. -/
  | unterminatedString (name : String)
  deriving DecidableEq, Repr

/-- The wording of a fault. -/
def LineFault.message : LineFault → String
  | .emptyName => "empty command name"
  | .unknownCommand name => Text.withContext "unknown command" name
  | .missingParameter name => Text.withContext "missing parameter" name
  | .invalidParameter name none => Text.withContext "invalid value given for parameter" name
  | .invalidParameter name (some kind) =>
    Text.withContext "invalid value given for parameter" (name ++ " (expected " ++ kind.name ++ ")")
  | .unterminatedString name => Text.withContext "unterminated quoted string" name

/-- The values of arguments by name, in the order in which the names first came up. -/
abbrev Values := List (String × String)

/-- Sets the value of a name: a name that is there keeps its place. -/
def Values.set (name value : String) : Values → Values
  | [] => [(name, value)]
  | (n, v) :: r => if n = name then (n, value) :: r else (n, v) :: Values.set name value r

/-- Setting a value gives the map that name and no other. -/
theorem Values.mem_names_set {name value other : String} {vs : Values} :
    other ∈ (Values.set name value vs).map (·.1) ↔ other = name ∨ other ∈ vs.map (·.1) := by
  induction vs with
  | nil => simp [Values.set]
  | cons x r ih =>
    obtain ⟨n, v⟩ := x
    rw [Values.set]
    by_cases hn : n = name
    · rw [if_pos hn]
      simp [hn]
    · rw [if_neg hn]
      simp only [List.map_cons, List.mem_cons, ih]
      exact or_left_comm

/-- The value of a name. -/
def Values.find? (vs : Values) (name : String) : Option String := (List.find? (·.1 == name) vs).map (·.2)

/-- One command of a line, read in full or in part. -/
structure Invocation where
  name : String
  args : Values
  declaration : Option Declaration
  /-- The argument that the text read so far has come to: `-1` before any blank after the name. -/
  currentArg : Int
  termination : Termination
  complete : Bool

/-! ## 2. Gaps -/

/-- What lies between two tokens: the text after it, the separator or end in it, and whether it holds a blank. -/
structure Gap where
  rest : List Char
  termination : Termination
  blank : Bool

/-- Blanks, at most one separator, and blanks again. -/
def gap (s : List Char) : Gap :=
  let r := Text.dropBlank s
  let (termination, t) := terminator r
  let u := Text.dropBlank t
  ⟨u, termination, r.length < s.length || u.length < t.length⟩

theorem gap_length_le (s : List Char) : (gap s).rest.length ≤ s.length := by
  have h1 := Text.dropBlank_length_le s
  have h2 := terminator_length_le (Text.dropBlank s)
  have h3 := Text.dropBlank_length_le (terminator (Text.dropBlank s)).2
  simp only [gap]
  omega

/-- The position after a gap: blanks move it to the next argument. -/
def Gap.advance (g : Gap) (current : Int) : Int := if g.blank then current + 1 else current

/-! ## 3. Arguments -/

/-- How far the arguments of a command are read. -/
structure Progress where
  args : Values
  current : Int
  rest : List Char

/-- What reading arguments ended with: all are settled, with the separator or end met on the way if there was one, or a
fault. -/
inductive ArgsEnd where
  | settled (ended : Option Termination)
  | fault (why : LineFault)

/-- Gives every argument of a list the empty value. -/
def fillEmpty (args : List Arg) (values : Values) : Values := args.foldl (fun vs a => Values.set a.name "" vs) values

/-- Reads arguments in order. `previous` is the argument before, which is to blame for text that is glued to it. -/
def readArgs : Option String → List Arg → Progress → Progress × ArgsEnd
  | _, [], p => (p, .settled none)
  | previous, a :: more, p =>
    let g := gap p.rest
    let here : Progress := { p with current := g.advance p.current, rest := g.rest }
    -- A separator ends the command without a blank in front of it, so it is looked for first.
    if g.termination ≠ .none then
      if a.optional then ({ here with args := fillEmpty (a :: more) p.args }, .settled (some g.termination))
      else (here, .fault (.missingParameter a.name))
    else if !g.blank then (here, .fault (.invalidParameter (previous.getD a.name) none))
    else
      match a.kind.read g.rest with
      | .error .invalid => (here, .fault (.invalidParameter a.name (some a.kind)))
      | .error .unterminated => (here, .fault (.unterminatedString a.name))
      | .ok (value, r) =>
        readArgs (some a.name) more
          { here with args := Values.set a.name (String.ofList value) p.args, rest := r }

theorem readArgs_length_le (previous : Option String) (args : List Arg) (p : Progress) :
    (readArgs previous args p).1.rest.length ≤ p.rest.length := by
  induction args generalizing previous p with
  | nil => simp [readArgs]
  | cons a more ih =>
    have hg := gap_length_le p.rest
    simp only [readArgs]
    split
    · split <;> exact hg
    · split
      · exact hg
      · split
        · exact hg
        · exact hg
        · rename_i hr
          have h1 := Kind.read_length_lt hr
          refine Nat.le_trans (ih _ _) ?_
          simp only
          omega

/-! ## 4. Commands -/

/-- Reads the command of a name: what was read, and the text after it or the fault that ended it. -/
def readCommand (commands : Registry) (name : List Char) (s : List Char) :
    Invocation × Except LineFault (List Char) :=
  let text := String.ofList name
  match commands.find? text with
  | none => (⟨text, [], none, (gap s).advance (-1), .none, false⟩, .error (.unknownCommand text))
  | some d =>
    let (p, ended) := readArgs none d.args ⟨[], -1, s⟩
    match ended with
    | .fault why => (⟨text, p.args, some d, p.current, .none, false⟩, .error why)
    | .settled (some t) => (⟨text, p.args, some d, p.current, t, true⟩, .ok p.rest)
    | .settled none =>
      -- Whether there was a blank or a separator at all is not asked here, after the last argument.
      let g := gap p.rest
      (⟨text, p.args, some d, p.current, g.termination, true⟩, .ok g.rest)

theorem readCommand_length_le {commands : Registry} {name s r : List Char} {i : Invocation}
    (h : readCommand commands name s = (i, .ok r)) : r.length ≤ s.length := by
  simp only [readCommand] at h
  split at h
  · cases h
  · rename_i d _
    have hp := readArgs_length_le none d.args ⟨[], -1, s⟩
    split at h
    · cases h
    · cases h
      exact hp
    · cases h
      exact Nat.le_trans (gap_length_le _) hp

/-- The commands of a line that could be read, and the fault that ended the reading. -/
structure Line where
  results : List Invocation
  fault : Option LineFault

/-- Reads commands up to the end of the text, to a fault, or to a command without a separator after it. -/
def readCommands (commands : Registry) (s : List Char) : Line :=
  if s.isEmpty then ⟨[], none⟩
  else
    match hn : name? s with
    | none => ⟨[], some .emptyName⟩
    | some (name, r) =>
      match hc : readCommand commands name r with
      | (i, .error why) => ⟨[i], some why⟩
      | (i, .ok t) =>
        if i.termination = .separator then
          have : t.length < s.length := Nat.lt_of_le_of_lt (readCommand_length_le hc) (name?_length_lt hn)
          let more := readCommands commands t
          ⟨i :: more.results, more.fault⟩
        else ⟨[i], none⟩
termination_by s.length

namespace Line

/-- The line of a text, after leading blanks and at most one separator. -/
def ofText (commands : Registry) (text : String) : Line := readCommands commands (gap text.toList).rest

/-- The commands that were read in full. -/
def completed (l : Line) : List Invocation := l.results.filter (·.complete)

/-- The command that the reading broke off in, when it is the last one. -/
def broken? (l : Line) : Option Invocation := l.results.getLast?.filter (!·.complete)

/-! ## 5. The cursor -/

/-- Where the end of a line stands: in which command, at which argument, and what is expected there. -/
structure Cursor where
  index : Nat
  currentArg : Int
  expected : Option Kind
  deriving DecidableEq, Repr

/-- The place of the end of a line. -/
def cursor (l : Line) : Cursor :=
  match l.results.getLast? with
  | none => ⟨0, -1, some .commandName⟩
  | some last =>
    let index := l.results.length - 1
    if last.termination = .separator then ⟨index + 1, -1, some .commandName⟩
    else if last.currentArg < 0 then ⟨index, last.currentArg, some .commandName⟩
    else
      match last.declaration with
      | none => ⟨index, last.currentArg, none⟩
      | some d => ⟨index, last.currentArg, (d.args[last.currentArg.toNat]?).map (·.kind)⟩

end Line

end ContractShell.Command
