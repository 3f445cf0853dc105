import ContractShell.Proofs.Command.Joining
import ContractShell.Proofs.Program.Run
import ContractShell.Proofs.Session.Effect

/-!
Runs of the program after the end of the session was asked for.

A run takes its lines from the files that its settings name, from its arguments, from the files that its arguments name and
from the console, and each of these has a test of its own for when to stop. Here they stand in one list of sources, and
lines are taken in one place, with one test. This comes to the same run.

## Main statements

* `Program.run_eq_course`: a run is what its course tells, however it ends.
* `Program.nothing_taken_after_exit`: no line is taken after the one in which the end of the session is asked for, and the
  shell stays as that line left it.
-/

namespace ContractShell

/-! ## 1. The end of a session, once asked for -/

theorem Session.exiting_enroll (s : Session) (name address : String) (d : Interface.Document) :
    (s.enroll name address d).2.exiting = s.exiting := by
  unfold enroll
  split <;> rfl

/-- No command takes back that the session is to end. -/
theorem Session.Does.exiting {i : Command.Invocation} {s s' : Session} {w w' : World} (h : Session.Does i s w s' w')
    (hs : s.exiting = true) : s'.exiting = true := by
  cases h with
  | leave => rfl
  | register _ name address d => exact (Session.exiting_enroll s name address d).trans hs
  | store _ _ hstores =>
    rw [hstores.after]
    exact hs
  | connect _ url =>
    rw [Session.connect_fst]
    exact hs
  | disconnect =>
    rw [Session.disconnect_fst]
    exact hs
  | _ => exact hs

theorem Turn.exiting_after {t : Turn} (h : t.shell.session.exiting = true) : t.after.session.exiting = true := by
  cases t.ends with
  | failed _ _ hsession =>
    rw [hsession]
    exact h
  | done _ _ hdoes => exact hdoes.exiting h
  | abandoned _ _ _ _ habandons =>
    rw [habandons.after]
    exact h

namespace Shell

/-- Once the end of the session has been asked for, before some turns or in one of them, it stays asked for. -/
theorem Takes.exiting {sh last : Shell} {ts : List Turn} (h : Takes sh ts last) :
    (sh.session.exiting = true → last.session.exiting = true) ∧
      ∀ t ∈ ts, t.after.session.exiting = true → last.session.exiting = true := by
  induction h with
  | none => exact ⟨id, by simp⟩
  | next hstart _ ih =>
    subst hstart
    refine ⟨fun hsh => ih.1 (Turn.exiting_after hsh), fun u hu hexit => ?_⟩
    rcases List.mem_cons.mp hu with rfl | hu
    · exact ih.1 hexit
    · exact ih.2 u hu hexit

/-- A blank line stands for no commands. -/
theorem commandsOf_eq_nil_of_blank {text : String} (h : (Text.trimString text).isEmpty = true) (sh : Shell) :
    sh.commandsOf text = [] := by
  have hblank : Text.dropBlank text.toList = [] := by
    simp only [Text.trimString, String.isEmpty_iff, String.ofList_eq_empty_iff, Text.trim, Text.trimBy,
      List.reverse_eq_nil_iff, List.dropWhile_eq_nil_iff, List.mem_reverse] at h
    -- What is left after the first blanks would start with a character that is no blank.
    cases hrest : Text.dropBlank text.toList with
    | nil => rfl
    | cons c r =>
      have hkept := List.head?_dropWhile_not Text.isBlank text.toList
      rw [Text.dropBlank] at hrest
      rw [hrest] at h hkept
      have hblank := h c List.mem_cons_self
      rw [show Text.isBlank c = false from hkept] at hblank
      cases hblank
  unfold commandsOf Command.Line.ofText
  rw [Command.rest_gap_of_end ((Command.termination_gap_eq_end_iff _).mpr hblank), Command.readCommands]
  rfl

end Shell

/-! ## 2. Taking lines -/

/-- A line that is taken, and the shell that it is taken in. -/
structure LineTurn where
  shell : Shell
  text : String

namespace LineTurn

/-- The lines that are printed. -/
def printed (t : LineTurn) : List String := (t.shell.printLine t.text).1

/-- The shell after the line. -/
def after (t : LineTurn) : Shell := (t.shell.printLine t.text).2

/-- The turns of the commands of the line. -/
def turns (t : LineTurn) : List Turn := t.shell.turnsIn (.line t.text)

/-- All commands of a line that were read in full run, in order, and nothing else happens to the shell. -/
theorem takes_turns (t : LineTurn) :
    Shell.Takes t.shell t.turns t.after ∧ t.turns.map Turn.invocation = t.shell.commandsOf t.text := by
  obtain ⟨htakes, hcommands, -⟩ := Shell.takes_interpret (t.shell.commandsOf t.text) t.shell
  refine ⟨?_, hcommands⟩
  unfold after Shell.printLine
  split
  · rename_i hblank
    unfold turns
    rw [Shell.turnsIn, Shell.commandsOf_eq_nil_of_blank hblank]
    exact .none _
  · exact htakes

end LineTurn

theorem Shell.printLines_cons {sh : Shell} (h : sh.session.exiting = false) (text : String) (rest : List String) :
    sh.printLines (text :: rest) = ((LineTurn.mk sh text).printed ++ ((LineTurn.mk sh text).after.printLines rest).1,
      ((LineTurn.mk sh text).after.printLines rest).2) := by
  rw [printLines, if_neg (Bool.eq_false_iff.mp h)]
  unfold LineTurn.printed LineTurn.after
  generalize sh.printLine text = first
  rfl

namespace Console

/-- The turn of a line that is typed: the line is kept in the history first. -/
def State.turnOf (s : State) (line : Typed) : LineTurn := ⟨(s.remember line).shell, line.shown⟩

/-- The state after a line that is typed and kept. -/
def State.afterLine (s : State) (line : Typed) : State := { s.remember line with shell := (s.turnOf line).after }

theorem State.shell_afterLine (s : State) (line : Typed) : (s.afterLine line).shell = (s.turnOf line).after := by
  simp only [afterLine]

theorem State.isOver_of_exiting {s : State} (h : s.shell.session.exiting = true) : s.isOver = true := by
  rw [isOver, h, Bool.true_or]

theorem State.exiting_of_not_isOver {s : State} (h : s.isOver = false) : s.shell.session.exiting = false :=
  (Bool.or_eq_false_iff.mp h).1

theorem State.exiting_remember (s : State) (line : Typed) :
    (s.remember line).shell.session.exiting = s.shell.session.exiting := by
  unfold State.remember
  split <;> rfl

section

variable {s : State} {line : Typed}

theorem run_line (h : s.isOver = false) (hkept : (s.remember line).fault = none) (rest : List Event) :
    run (.line line :: rest) s =
      ((run rest (s.afterLine line)).1.after s.shell.session.prompt (s.turnOf line).printed,
        (run rest (s.afterLine line)).2) := by
  have hnot : ¬ (s.remember line).fault.isSome = true := by
    rw [hkept]
    exact Bool.false_ne_true
  rw [run, if_neg (Bool.eq_false_iff.mp h)]
  unfold State.take State.afterLine State.turnOf LineTurn.printed LineTurn.after
  dsimp only
  rw [if_neg hnot]

/-- A line that the history fails with is not run, and no other line is asked for. -/
theorem run_line_of_fault (h : s.isOver = false) {f : Typed.Fault} (hfault : (s.remember line).fault = some f)
    (rest : List Event) : run (.line line :: rest) s = (⟨[s.shell.session.prompt], [], rest⟩, s.remember line) := by
  have htake : s.take line = ([], s.remember line) := by
    unfold State.take
    dsimp only
    rw [hfault]
    rfl
  have hover : (s.remember line).isOver = true := by
    rw [State.isOver, hfault, Option.isSome_some, Bool.or_true]
  rw [run, if_neg (Bool.eq_false_iff.mp h)]
  simp only [htake, run_of_isOver hover]
  rfl

end

/-- What would be typed after the console has come to its end is not asked for. -/
theorem run_append {events : List Event} {s : State} (h : (run events s).2.isOver = true)
    (more : List Event) : run (events ++ more) s =
      ({ (run events s).1 with unread := (run events s).1.unread ++ more }, (run events s).2) := by
  induction events generalizing s with
  | nil =>
    have hover : s.isOver = true := h
    rw [List.nil_append, run_of_isOver hover, run_of_isOver hover]
    rfl
  | cons e rest ih =>
    cases hover : s.isOver with
    | true =>
      rw [run_of_isOver hover, run_of_isOver hover]
    | false =>
      have hrunning := Bool.eq_false_iff.mp hover
      cases e with
      | endOfInput => rw [List.cons_append, run, run, if_neg hrunning, if_neg hrunning]
      | interrupt =>
        rw [run, if_neg hrunning] at h
        rw [List.cons_append, run, run, if_neg hrunning, if_neg hrunning]
        simp only [ih h]
        rfl
      | line line =>
        cases hkept : (s.remember line).fault with
        | some f => rw [List.cons_append, run_line_of_fault hover hkept, run_line_of_fault hover hkept]
        | none =>
          rw [run_line hover hkept] at h
          rw [List.cons_append, run_line hover hkept, run_line hover hkept, ih h]
          rfl

/-- Takes lines until the console comes to its end. A line that the history fails with is not taken. -/
def State.takeAll : List Typed → State → List LineTurn × State
  | [], s => ([], s)
  | line :: rest, s =>
    if s.isOver then ([], s)
    else if (s.remember line).fault.isSome then ([], s.remember line)
    else
      let (turns, last) := takeAll rest (s.afterLine line)
      (s.turnOf line :: turns, last)

section

variable {s : State} {line : Typed}

theorem State.takeAll_of_isOver (h : s.isOver = true) (lines : List Typed) : s.takeAll lines = ([], s) := by
  cases lines with
  | nil => rfl
  | cons line rest => rw [takeAll, if_pos h]

theorem State.takeAll_of_fault (h : s.isOver = false) {f : Typed.Fault} (hfault : (s.remember line).fault = some f)
    (rest : List Typed) : s.takeAll (line :: rest) = ([], s.remember line) := by
  rw [takeAll, if_neg (Bool.eq_false_iff.mp h), hfault]
  rfl

theorem State.takeAll_cons (h : s.isOver = false) (hkept : (s.remember line).fault = none) (rest : List Typed) :
    s.takeAll (line :: rest) =
      (s.turnOf line :: ((s.afterLine line).takeAll rest).1, ((s.afterLine line).takeAll rest).2) := by
  rw [takeAll, if_neg (Bool.eq_false_iff.mp h), hkept]
  rfl

end

end Console

namespace Program

/-! ## 3. Sources -/

/-- What lines are taken from. -/
inductive LineSource where
  | file (isRequired : Bool) (p : Path)
  | arguments (texts : List String)
  | named (name : String)
  | console (path : Path) (size : Int) (events : List Console.Event)

/-- The lines of a file. One that is not required may be missing. -/
def linesOf (isRequired : Bool) (p : Path) (d : Disk) : Except Fault (List String) :=
  match d.readText p with
  | .ok text => .ok (Text.lines text)
  | .error (.encoding f) => .error (.encoding f)
  | .error (.file .notFound) => if isRequired then .error (.missingFile p.toText) else .ok []
  | .error (.file f) => .error (.unreadableFile p.toText f)

/-- The lines of a file that was asked for. -/
def namedLines (name : String) (d : Disk) : Except Fault (List String) :=
  match (Path.ofText name).expandHome d.homes with
  | .ok p => linesOf true p d
  | .error f => .error (.home f)

/-- The lines that are typed until the input ends. -/
def typed : List Console.Event → List Typed
  | [] | .endOfInput :: _ => []
  | .interrupt :: rest => typed rest
  | .line line :: rest => line :: typed rest

/-- The lines of a source, and the state that it leaves when it is opened. A console that is not wanted any more is not
opened; all other sources are, whether or not their lines are wanted. -/
def LineSource.open (s : Console.State) : LineSource → Except Fault (List Typed × Console.State)
  | .file isRequired p => (linesOf isRequired p s.shell.session.disk).map (·.map .ofString, s)
  | .arguments texts => .ok (texts.map .ofString, s)
  | .named name => (namedLines name s.shell.session.disk).map (·.map .ofString, s)
  | .console path size events =>
    if s.shell.session.exiting then .ok ([], s)
    else
      ((History.read s.shell.session.disk (some path) size).mapError .history).map fun h =>
        (typed events, { s with history := some h })

/-- The lines that were taken, why a source could not be opened or its lines not be kept, and the last state. -/
structure Course where
  turns : List LineTurn
  fault : Option Fault
  last : Console.State

/-- How a run ends that has taken a course. -/
def Course.ending (c : Course) : Ending :=
  match c.fault with
  | none => .normal
  | some f => f.ending

/-- The fault of a run whose history has failed. -/
def historyFault (s : Console.State) : Option Fault := s.fault.map fun f => .history (.letters f)

/-- Takes lines from sources, one source after the other, until a fault ends the run. -/
def play : List LineSource → Console.State → Course
  | [], s => ⟨[], none, s⟩
  | source :: rest, s =>
    match source.open s with
    | .error f => ⟨[], some f, s⟩
    | .ok (lines, s) =>
      let (turns, s) := s.takeAll lines
      match historyFault s with
      | some f => ⟨turns, some f, s⟩
      | none =>
        let more := play rest s
        ⟨turns ++ more.turns, more.fault, more.last⟩

/-- The sources of a run without its console. -/
def batchSources (o : Options) (c : Settings) : List LineSource :=
  c.rcFiles.map (.file false) ++ (.arguments o.lines :: o.files.map .named)

/-- The console of a run, if it was asked for or there is nothing else to run. -/
def consoleSources (o : Options) (c : Settings) (events : List Console.Event) : List LineSource :=
  if o.interactive || (o.lines.isEmpty && o.files.isEmpty) then [.console c.historyPath c.historySize events] else []

/-- The course of a run: its console comes last. -/
def courseOf (o : Options) (c : Settings) (s : Setup) (events : List Console.Event) : Course :=
  play (batchSources o c ++ consoleSources o c events) ⟨shellOf c s, none, none⟩

/-! ## 4. The same run -/

/-- Lines are taken as a shell prints them when no history is kept. -/
theorem takeAll_eq_printLines (texts : List String) (sh : Shell) :
    ((⟨sh, none, none⟩ : Console.State).takeAll (texts.map .ofString)).2 = ⟨(sh.printLines texts).2, none, none⟩ ∧
      ((⟨sh, none, none⟩ : Console.State).takeAll (texts.map .ofString)).1.flatMap LineTurn.printed =
        (sh.printLines texts).1 := by
  induction texts generalizing sh with
  | nil => exact ⟨rfl, rfl⟩
  | cons text rest ih =>
    have hover : (⟨sh, none, none⟩ : Console.State).isOver = sh.session.exiting := Bool.or_false _
    cases hexit : sh.session.exiting with
    | true =>
      rw [Console.State.takeAll_of_isOver (hover.trans hexit), Shell.printLines, if_pos hexit]
      exact ⟨rfl, rfl⟩
    | false =>
      obtain ⟨hlast, hprinted⟩ := ih (LineTurn.mk sh text).after
      have hturn : (⟨sh, none, none⟩ : Console.State).turnOf (.ofString text) = ⟨sh, text⟩ := by
        unfold Console.State.turnOf
        rw [Typed.shown_ofString]
        rfl
      have hafter : (⟨sh, none, none⟩ : Console.State).afterLine (.ofString text) =
          ⟨(LineTurn.mk sh text).after, none, none⟩ := by
        unfold Console.State.afterLine
        rw [hturn]
        rfl
      rw [List.map_cons, Console.State.takeAll_cons (hover.trans hexit) rfl, Shell.printLines_cons hexit,
        List.flatMap_cons, hturn, hafter, hlast, hprinted]
      exact ⟨rfl, rfl⟩

/-- The console takes the lines that are typed. -/
theorem takeAll_eq_run (events : List Console.Event) (s : Console.State) :
    (s.takeAll (typed events)).2 = (Console.run events s).2 ∧
      (s.takeAll (typed events)).1.flatMap LineTurn.printed = (Console.run events s).1.output := by
  induction events generalizing s with
  | nil => exact ⟨rfl, rfl⟩
  | cons e rest ih =>
    cases hover : s.isOver with
    | true =>
      rw [Console.State.takeAll_of_isOver hover, Console.run_of_isOver hover]
      exact ⟨rfl, rfl⟩
    | false =>
      cases e with
      | endOfInput =>
        rw [Console.run, if_neg (Bool.eq_false_iff.mp hover)]
        exact ⟨rfl, rfl⟩
      | interrupt =>
        rw [Console.run, if_neg (Bool.eq_false_iff.mp hover)]
        exact ih s
      | line line =>
        cases hkept : (s.remember line).fault with
        | some f =>
          rw [typed, Console.State.takeAll_of_fault hover hkept, Console.run_line_of_fault hover hkept]
          exact ⟨rfl, rfl⟩
        | none =>
          obtain ⟨hlast, hprinted⟩ := ih (s.afterLine line)
          rw [typed, Console.State.takeAll_cons hover hkept, Console.run_line hover hkept, List.flatMap_cons, hlast,
            hprinted]
          exact ⟨rfl, rfl⟩

theorem play_append (as bs : List LineSource) (s : Console.State) : play (as ++ bs) s =
    match play as s with
    | ⟨turns, some f, last⟩ => ⟨turns, some f, last⟩
    | ⟨turns, none, last⟩ => ⟨turns ++ (play bs last).turns, (play bs last).fault, (play bs last).last⟩ := by
  induction as generalizing s with
  | nil => rfl
  | cons a as ih =>
    rw [List.cons_append, play, play]
    cases a.open s with
    | error f => rfl
    | ok opened =>
      dsimp only
      cases historyFault (opened.2.takeAll opened.1).2 with
      | some f => rfl
      | none =>
        dsimp only
        rw [ih]
        cases play as (opened.2.takeAll opened.1).2 with
        | mk turns fault last =>
          cases fault with
          | none => simp only [List.append_assoc]
          | some f => rfl

/-- What comes of steps that a fault ends, or none. -/
def resultOf : Option Fault → Except Fault Unit
  | none => .ok ()
  | some f => .error f

/-- Steps take the lines of sources, and nothing else happens in them. -/
def Follows (x : Steps Unit) (sources : List LineSource) : Prop := ∀ sh output, ∃ turns fault last,
  play sources ⟨sh, none, none⟩ = ⟨turns, fault, ⟨last, none, none⟩⟩ ∧
    x ⟨sh, output⟩ = (resultOf fault, ⟨last, output ++ turns.flatMap LineTurn.printed⟩)

theorem follows_pure : Follows (pure ()) [] := fun sh output => ⟨[], none, sh, rfl, by simp; rfl⟩

theorem follows_bind {x y : Steps Unit} {as bs : List LineSource} (hx : Follows x as) (hy : Follows y bs) :
    Follows (x >>= fun _ => y) (as ++ bs) := by
  intro sh output
  obtain ⟨turns, fault, mid, hplay, hrun⟩ := hx sh output
  rw [play_append, hplay, steps_bind_apply, hrun]
  cases fault with
  | some f => exact ⟨turns, some f, mid, rfl, rfl⟩
  | none =>
    obtain ⟨more, fault, last, hplay, hrun⟩ := hy mid (output ++ turns.flatMap LineTurn.printed)
    refine ⟨turns ++ more, fault, last, by simp only [hplay], ?_⟩
    rw [List.flatMap_append, ← List.append_assoc]
    exact hrun

theorem follows_forM {α : Type} {f : α → Steps Unit} {source : α → LineSource} (hf : ∀ a, Follows (f a) [source a])
    (as : List α) : Follows (as.forM f) (as.map source) := by
  induction as with
  | nil => exact follows_pure
  | cons a as ih => exact follows_bind (hf a) ih

/-- Runs lines that could be read, and ends the run otherwise. -/
def runRead : Except Fault (List String) → Steps Unit
  | .ok texts => runLines texts
  | .error f => throw f

/-- Steps follow a source if they run its lines, and end the run if it cannot be opened. -/
theorem follows_source {x : Steps Unit} {source : LineSource} (read : Shell → Except Fault (List String))
    (hopen : ∀ sh, source.open ⟨sh, none, none⟩ = (read sh).map (·.map .ofString, ⟨sh, none, none⟩))
    (hrun : ∀ sh output, x ⟨sh, output⟩ = runRead (read sh) ⟨sh, output⟩) : Follows x [source] := by
  intro sh output
  rw [hrun, play, hopen]
  cases read sh with
  | error f => exact ⟨[], some f, sh, rfl, by rw [List.flatMap_nil, List.append_nil]; rfl⟩
  | ok texts =>
    obtain ⟨hlast, hprinted⟩ := takeAll_eq_printLines texts sh
    refine ⟨((⟨sh, none, none⟩ : Console.State).takeAll (texts.map .ofString)).1, none, (sh.printLines texts).2, ?_, ?_⟩
    · simp only [Except.map, hlast, historyFault, Option.map_none, play, List.append_nil]
    · rw [hprinted]
      rfl

theorem runFile_apply (isRequired : Bool) (p : Path) (sh : Shell) (output : List String) :
    runFile isRequired p ⟨sh, output⟩ = runRead (linesOf isRequired p sh.session.disk) ⟨sh, output⟩ := by
  have hget : runFile isRequired p ⟨sh, output⟩ = (match sh.session.disk.readText p with
      | .ok text => runLines (Text.lines text)
      | .error (.encoding f) => throw (.encoding f)
      | .error (.file .notFound) => if isRequired then throw (.missingFile p.toText) else pure ()
      | .error (.file f) => throw (.unreadableFile p.toText f) : Steps Unit) ⟨sh, output⟩ := rfl
  have hnone : runLines [] ⟨sh, output⟩ = (pure () : Steps Unit) ⟨sh, output⟩ := by
    show (_, (⟨sh, output ++ []⟩ : Running)) = _
    rw [List.append_nil]
    rfl
  rw [hget, linesOf]
  generalize sh.session.disk.readText p = read
  split
  · rfl
  · rfl
  · cases isRequired with
    | true => rfl
    | false => exact hnone.symm
  · rfl

theorem follows_runFile (isRequired : Bool) (p : Path) : Follows (runFile isRequired p) [.file isRequired p] :=
  follows_source (fun sh => linesOf isRequired p sh.session.disk) (fun _ => rfl) (runFile_apply isRequired p)

theorem follows_runLines (texts : List String) : Follows (runLines texts) [.arguments texts] :=
  follows_source (fun _ => .ok texts) (fun _ => rfl) (fun _ _ => rfl)

theorem follows_runNamed (name : String) : Follows (runNamed name) [.named name] := by
  refine follows_source (fun sh => namedLines name sh.session.disk) (fun _ => rfl) fun sh output => ?_
  have hget : runNamed name ⟨sh, output⟩ = (match (Path.ofText name).expandHome sh.session.disk.homes with
      | .ok p => runFile true p
      | .error f => throw (.home f) : Steps Unit) ⟨sh, output⟩ := rfl
  rw [hget, namedLines]
  cases (Path.ofText name).expandHome sh.session.disk.homes with
  | error f => rfl
  | ok p => exact runFile_apply true p sh output

/-- The steps of a run before its console. -/
def runBatch (o : Options) (c : Settings) : Steps Unit := do
  c.rcFiles.forM (runFile false)
  runLines o.lines
  o.files.forM runNamed

theorem follows_runBatch (o : Options) (c : Settings) : Follows (runBatch o c) (batchSources o c) :=
  follows_bind (follows_forM (follows_runFile false) c.rcFiles)
    (follows_bind (follows_runLines o.lines) (follows_forM follows_runNamed o.files))

/-- The history for the console, if the console is wanted. -/
def wantedHistory (o : Options) (c : Settings) (s : Session) : Except Fault (Option History) :=
  if wantsConsole o s then ((History.read s.disk (some c.historyPath) c.historySize).mapError .history).map some
  else .ok none

theorem runAll_apply (o : Options) (c : Settings) (r : Running) : runAll o c r =
    ((runBatch o c r).1.bind fun _ => wantedHistory o c (runBatch o c r).2.shell.session, (runBatch o c r).2) := by
  have hbind : runAll o c = runBatch o c >>= fun _ =>
      (fun r => (wantedHistory o c r.shell.session, r) : Steps (Option History)) := by
    unfold runAll runBatch
    rw [bind_assoc]
    refine bind_congr fun _ => ?_
    rw [bind_assoc]
    refine bind_congr fun _ => bind_congr fun _ => funext fun r => ?_
    have hget : (get : Steps Running) r = (.ok r, r) := rfl
    rw [steps_bind_apply, hget, wantedHistory]
    dsimp only
    split
    · cases History.read r.shell.session.disk (some c.historyPath) c.historySize <;> rfl
    · rfl
  rw [hbind, steps_bind_apply]
  generalize runBatch o c r = first
  obtain ⟨result, r⟩ := first
  cases result <;> rfl

/-- The console comes to nothing if it is not wanted. -/
theorem play_consoleSources_of_not {o : Options} {sh : Shell} (h : wantsConsole o sh.session = false) (c : Settings)
    (events : List Console.Event) : play (consoleSources o c events) ⟨sh, none, none⟩ = ⟨[], none, ⟨sh, none, none⟩⟩ := by
  unfold consoleSources
  split
  · rename_i hasked
    rw [wantsConsole, hasked, Bool.and_true, Bool.not_eq_false'] at h
    rw [play, LineSource.open, if_pos h]
    rfl
  · rfl

/-- The console that is wanted takes the lines that are typed, if its history can be read. -/
theorem play_consoleSources {o : Options} {sh : Shell} (h : wantsConsole o sh.session = true) (c : Settings)
    (events : List Console.Event) : play (consoleSources o c events) ⟨sh, none, none⟩ =
      match History.read sh.session.disk (some c.historyPath) c.historySize with
      | .error f => ⟨[], some (.history f), ⟨sh, none, none⟩⟩
      | .ok h =>
        let (turns, last) := (⟨sh, some h, none⟩ : Console.State).takeAll (typed events)
        ⟨turns, historyFault last, last⟩ := by
  obtain ⟨hrunning, hasked⟩ := (Bool.and_eq_true _ _).mp h
  rw [Bool.not_eq_true'] at hrunning
  rw [consoleSources, if_pos hasked, play, LineSource.open, if_neg (Bool.eq_false_iff.mp hrunning)]
  cases History.read sh.session.disk (some c.historyPath) c.historySize with
  | error f => rfl
  | ok h =>
    dsimp only [Except.mapError, Except.map]
    cases hfault : historyFault ((⟨sh, some h, none⟩ : Console.State).takeAll (typed events)).2 with
    | some f => rfl
    | none => simp only [play, List.append_nil]

/-- A run ends before its console, with what its course tells; or its console goes on where the course of the other sources
stops. -/
theorem startWith_cases (o : Options) (c : Settings) (s : Setup) :
    (∃ turns fault last,
      startWith o c s = .ended (reportOf [] (turns.flatMap LineTurn.printed)
        (Course.ending ⟨turns, fault, ⟨last, none, none⟩⟩) last) ∧
      ∀ events, courseOf o c s events = ⟨turns, fault, ⟨last, none, none⟩⟩) ∨
    ∃ turns state, startWith o c s = .console (turns.flatMap LineTurn.printed) state ∧
      ∀ events, courseOf o c s events = ⟨turns ++ (state.takeAll (typed events)).1,
        historyFault (state.takeAll (typed events)).2, (state.takeAll (typed events)).2⟩ := by
  obtain ⟨turns, fault, last, hplay, hrun⟩ := follows_runBatch o c (shellOf c s) []
  rw [List.nil_append] at hrun
  unfold startWith courseOf
  rw [runAll_apply, hrun]
  simp only [play_append, hplay]
  cases fault with
  | some f => exact .inl ⟨turns, some f, last, rfl, fun _ => rfl⟩
  | none =>
    dsimp only [resultOf, Except.bind]
    -- The history is read only if the console is wanted, and a run can still end there.
    cases hwanted : wantsConsole o last.session with
    | false =>
      simp only [wantedHistory, hwanted, play_consoleSources_of_not hwanted, List.append_nil]
      exact .inl ⟨turns, none, last, rfl, fun _ => rfl⟩
    | true =>
      simp only [wantedHistory, hwanted, if_true, play_consoleSources hwanted]
      cases History.read last.session.disk (some c.historyPath) c.historySize with
      | error f => exact .inl ⟨turns, some (.history f), last, rfl, fun _ => by rw [List.append_nil]⟩
      | ok h => exact .inr ⟨turns, ⟨last, some h, none⟩, rfl, fun _ => rfl⟩

/-- A run is what its course tells: it prints what the lines print that are taken, and leaves what the end of the session
leaves of the last shell. -/
theorem run_eq_course (o : Options) (c : Settings) (s : Setup) (events : List Console.Event) :
    ∃ prompts, (startWith o c s).run events = reportOf prompts ((courseOf o c s events).turns.flatMap LineTurn.printed)
      (courseOf o c s events).ending (courseOf o c s events).last.shell := by
  rcases startWith_cases o c s with ⟨turns, fault, last, hstart, hcourse⟩ | ⟨turns, state, hstart, hcourse⟩
  · rw [hstart, hcourse]
    exact ⟨[], rfl⟩
  · obtain ⟨hlast, hprinted⟩ := takeAll_eq_run events state
    rw [hstart, hcourse, List.flatMap_append, hlast, hprinted]
    refine ⟨(Console.run events state).1.prompts, ?_⟩
    have hending : endingOf (Console.run events state).2 =
        Course.ending ⟨[], historyFault (Console.run events state).2, (Console.run events state).2⟩ := by
      rw [endingOf, Course.ending, historyFault]
      cases (Console.run events state).2.fault <;> rfl
    show reportOf _ _ (endingOf _) _ = _
    rw [hending]
    rfl

/-! ## 5. After the end was asked for -/

/-- Lines are taken while the end of the session is not asked for: each of them starts before that, and the one in which it
is asked for is the last, and leaves the last shell. -/
structure Stops (turns : List LineTurn) (last : Shell) : Prop where
  running : ∀ t ∈ turns, t.shell.session.exiting = false
  last : ∀ before t after, turns = before ++ t :: after → t.after.session.exiting = true → after = [] ∧ last = t.after

theorem Stops.nil (last : Shell) : Stops [] last := ⟨by simp, by simp⟩

/-- Turns follow a turn: there are none if the end has been asked for in it. -/
theorem Stops.cons {t : LineTurn} {turns : List LineTurn} {last : Shell} (hrunning : t.shell.session.exiting = false)
    (hnone : t.after.session.exiting = true → turns = [] ∧ last = t.after) (h : Stops turns last) :
    Stops (t :: turns) last := by
  refine ⟨List.forall_mem_cons.mpr ⟨hrunning, h.running⟩, fun before u after hsplit hexit => ?_⟩
  cases before with
  | nil =>
    cases hsplit
    exact hnone hexit
  | cons _ before =>
    cases hsplit
    exact h.last before u after rfl hexit

theorem Stops.append {turns more : List LineTurn} {mid last : Shell} (h : Stops turns mid)
    (hnone : mid.session.exiting = true → more = [] ∧ last = mid) (h' : Stops more last) : Stops (turns ++ more) last := by
  induction turns with
  | nil => exact h'
  | cons t turns ih =>
    have hrest : Stops turns mid :=
      ⟨fun u hu => h.running u (List.mem_cons_of_mem t hu),
        fun before u after hsplit => h.last (t :: before) u after (by rw [hsplit, List.cons_append])⟩
    refine .cons (h.running t List.mem_cons_self) (fun hexit => ?_) (ih hrest)
    obtain ⟨rfl, rfl⟩ := h.last [] t turns rfl hexit
    exact hnone hexit

theorem stops_takeAll (lines : List Typed) (s : Console.State) : Stops (s.takeAll lines).1 (s.takeAll lines).2.shell := by
  induction lines generalizing s with
  | nil => exact .nil _
  | cons line rest ih =>
    cases hover : s.isOver with
    | true =>
      rw [Console.State.takeAll_of_isOver hover]
      exact .nil _
    | false =>
      cases hkept : (s.remember line).fault with
      | some f =>
        rw [Console.State.takeAll_of_fault hover hkept]
        exact .nil _
      | none =>
        rw [Console.State.takeAll_cons hover hkept]
        dsimp only
        have hrunning := Console.State.exiting_of_not_isOver hover
        refine .cons ((s.exiting_remember line).trans hrunning) (fun hafter => ?_) (ih (s.afterLine line))
        rw [← Console.State.shell_afterLine] at hafter
        rw [Console.State.takeAll_of_isOver (Console.State.isOver_of_exiting hafter)]
        exact ⟨rfl, Console.State.shell_afterLine s line⟩

/-- A source that is opened after the end was asked for changes nothing. -/
theorem open_of_exiting {source : LineSource} {s s' : Console.State} {lines : List Typed}
    (h : s.shell.session.exiting = true) (hopen : source.open s = .ok (lines, s')) : s' = s := by
  cases source with
  | arguments =>
    cases hopen
    rfl
  | console =>
    rw [LineSource.open, if_pos h] at hopen
    cases hopen
    rfl
  | file | named =>
    obtain ⟨_, -, heq⟩ := of_map_eq_ok hopen
    cases heq
    rfl

theorem play_of_exiting {s : Console.State} (h : s.shell.session.exiting = true) (sources : List LineSource) :
    (play sources s).turns = [] ∧ (play sources s).last = s := by
  induction sources with
  | nil => exact ⟨rfl, rfl⟩
  | cons source rest ih =>
    rw [play]
    cases hopen : source.open s with
    | error f => exact ⟨rfl, rfl⟩
    | ok opened =>
      obtain ⟨lines, s'⟩ := opened
      obtain rfl := open_of_exiting h hopen
      dsimp only
      rw [Console.State.takeAll_of_isOver (Console.State.isOver_of_exiting h)]
      cases historyFault s' with
      | some f => exact ⟨rfl, rfl⟩
      | none => exact ih

theorem stops_play (sources : List LineSource) (s : Console.State) :
    Stops (play sources s).turns (play sources s).last.shell := by
  induction sources generalizing s with
  | nil => exact .nil _
  | cons source rest ih =>
    rw [play]
    cases source.open s with
    | error f => exact .nil _
    | ok opened =>
      have htaken := stops_takeAll opened.1 opened.2
      dsimp only
      generalize opened.2.takeAll opened.1 = taken at htaken ⊢
      cases historyFault taken.2 with
      | some f => exact htaken
      | none =>
        refine htaken.append (fun hexit => ?_) (ih _)
        obtain ⟨hnone, hlast⟩ := play_of_exiting hexit rest
        exact ⟨hnone, congrArg Console.State.shell hlast⟩

/-- What happens after the end of the session was asked for. Whatever files the settings and the arguments name, whatever
lines are given and whatever is typed, the run prints what the lines of its course print, and leaves what the end of the
session leaves of the shell after them. Each of these lines starts before the end was asked for, and all its commands run,
also those behind the one that asks for the end. The line in which that is done is the last of the course: no line of any
source is read or run after it, and the shell stays as it left it. Nor is anything asked for when the end was asked for or
the history has failed: the run is the same whatever would be typed then. -/
theorem nothing_taken_after_exit (o : Options) (c : Settings) (s : Setup) (events : List Console.Event) :
    (∃ prompts, (startWith o c s).run events = reportOf prompts ((courseOf o c s events).turns.flatMap LineTurn.printed)
      (courseOf o c s events).ending (courseOf o c s events).last.shell) ∧
    (∀ t ∈ (courseOf o c s events).turns, t.shell.session.exiting = false ∧
      Shell.Takes t.shell t.turns t.after ∧ t.turns.map Turn.invocation = t.shell.commandsOf t.text) ∧
    (∀ before t after, (courseOf o c s events).turns = before ++ t :: after →
      (∃ u ∈ t.turns, u.after.session.exiting = true) →
      after = [] ∧ (courseOf o c s events).last.shell = t.after) ∧
    ((courseOf o c s events).last.isOver = true →
      ∀ more, (startWith o c s).run (events ++ more) = (startWith o c s).run events) := by
  have hstops := stops_play (batchSources o c ++ consoleSources o c events) ⟨shellOf c s, none, none⟩
  refine ⟨run_eq_course o c s events, fun t ht => ⟨hstops.running t ht, t.takes_turns⟩, ?_, ?_⟩
  · rintro before t after hsplit ⟨u, hu, hexit⟩
    exact hstops.last before t after hsplit (t.takes_turns.1.exiting.2 u hu hexit)
  · intro hover more
    rcases startWith_cases o c s with ⟨turns, fault, last, hstart, hcourse⟩ | ⟨turns, state, hstart, hcourse⟩
    · rw [hstart]
      rfl
    · rw [hcourse, (takeAll_eq_run events state).1] at hover
      rw [hstart, Start.run, Start.run, Console.run_append hover]

end Program

end ContractShell
