import ContractShell.Session.Run

/-!
Runs of a shell, turn by turn.

A run is a list of events: lines are typed, and between them the world around the shell may change. A line takes one turn
for each command that was read of it in full. All that happens to a session on the way happens in these turns.

## Main statements

* `Shell.holds_turnsOf`: what every command keeps holds at the start of each turn of a line.
* `Shell.holds_turns`: what commands and changes around a shell keep holds after a run and at the start of each turn.
-/

namespace ContractShell

/-! ## 1. Events and turns -/

/-- What happens to a shell: a line is typed, or its files, its environment and the answers that lie ahead change. -/
inductive Event where
  | line (text : String)
  | around (disk : Disk) (environment : List (String × String)) (outcomes : List Node.Outcome)

/-- A command that is run, and the shell that it is run in. -/
structure Turn where
  shell : Shell
  invocation : Command.Invocation

/-- What a command prints, or the fault that it ends with, before any change or after one. -/
def Session.resultIn (r : Except Session.Fault Session.Step) : Except Session.Fault (List String) := r >>= (·.result)

namespace Turn

/-- The shell after a turn. -/
def after (t : Turn) : Shell := (t.shell.execute t.invocation).2

/-- What the command of a turn prints, or the fault that it ends with. -/
def result (t : Turn) : Except Session.Fault (List String) :=
  Session.resultIn (t.invocation.run t.shell.session t.shell.world).1

/-- Why the command of a turn fails, if it fails. -/
def fault? (t : Turn) : Option Session.Fault :=
  match t.result with
  | .ok _ => none
  | .error f => some f

/-- A turn is told as its command ends. -/
theorem execute_fst (t : Turn) : (t.shell.execute t.invocation).1 = .ofResult t.result := by
  unfold result Shell.execute
  cases t.invocation.run t.shell.session t.shell.world with
  | mk r world => cases r <;> rfl

theorem isOk_execute (t : Turn) : (t.shell.execute t.invocation).1.isOk = t.fault?.isNone := by
  rw [execute_fst, fault?]
  cases t.result <;> rfl

end Turn

namespace Shell

/-- The turns of commands that are run one after the other. -/
def turnsOf : List Command.Invocation → Shell → List Turn
  | [], _ => []
  | i :: r, sh => ⟨sh, i⟩ :: turnsOf r (sh.execute i).2

/-- The commands that a line stands for. -/
def commandsOf (text : String) (sh : Shell) : List Command.Invocation :=
  (Command.Line.ofText sh.session.commands text).completed

/-- The shell after an event. -/
def step : Event → Shell → Shell
  | .line text, sh => (sh.runLine text).2
  | .around disk environment outcomes, sh =>
    ⟨{ sh.session with disk, environment }, { sh.world with network := { sh.world.network with outcomes } }⟩

/-- The turns of an event. -/
def turnsIn : Event → Shell → List Turn
  | .line text, sh => turnsOf (sh.commandsOf text) sh
  | .around .., _ => []

/-- The shell after a run. -/
def after : List Event → Shell → Shell
  | [], sh => sh
  | e :: es, sh => after es (sh.step e)

/-- The turns of a run. -/
def turns : List Event → Shell → List Turn
  | [], _ => []
  | e :: es, sh => sh.turnsIn e ++ turns es (sh.step e)

/-! ## 2. What holds throughout -/

section

variable {P : Shell → Prop} {Q : Command.Invocation → Shell → Prop}

theorem holds_turnsOf (hexecute : ∀ i sh, P sh → P (sh.execute i).2)
    (hkeeps : ∀ i j sh, P sh → Q j sh → Q j (sh.execute i).2) {is : List Command.Invocation} {sh : Shell} (hsh : P sh)
    (his : ∀ i ∈ is, Q i sh) :
    P (sh.interpret is).2 ∧ ∀ t ∈ sh.turnsOf is, P t.shell ∧ Q t.invocation t.shell := by
  induction is generalizing sh with
  | nil => exact ⟨hsh, by simp [turnsOf]⟩
  | cons i is ih =>
    obtain ⟨hlast, hturns⟩ := ih (hexecute i sh hsh) fun j hj => hkeeps i j sh hsh (his j (List.mem_cons_of_mem i hj))
    refine ⟨hlast, fun t ht => ?_⟩
    rcases List.mem_cons.mp ht with rfl | ht
    · exact ⟨hsh, his i List.mem_cons_self⟩
    · exact hturns t ht

/-- What every command and every change around the shell keeps holds after a run and at the start of each turn. What
follows for the commands of a line when it is read, and is kept by other commands, holds of each command in its turn. -/
theorem holds_turns (hexecute : ∀ i sh, P sh → P (sh.execute i).2)
    (haround : ∀ disk environment outcomes sh, P sh → P (sh.step (.around disk environment outcomes)))
    (hread : ∀ text sh, P sh → ∀ i ∈ sh.commandsOf text, Q i sh)
    (hkeeps : ∀ i j sh, P sh → Q j sh → Q j (sh.execute i).2) {sh : Shell} (hsh : P sh) (es : List Event) :
    P (sh.after es) ∧ ∀ t ∈ sh.turns es, P t.shell ∧ Q t.invocation t.shell := by
  induction es generalizing sh with
  | nil => exact ⟨hsh, by simp [turns]⟩
  | cons e es ih =>
    have hstep : P (sh.step e) ∧ ∀ t ∈ sh.turnsIn e, P t.shell ∧ Q t.invocation t.shell := by
      cases e with
      | line text => exact holds_turnsOf hexecute hkeeps hsh (hread text sh hsh)
      | around disk environment outcomes => exact ⟨haround disk environment outcomes sh hsh, by simp [turnsIn]⟩
    obtain ⟨hlast, hturns⟩ := ih hstep.1
    refine ⟨hlast, fun t ht => ?_⟩
    rcases List.mem_append.mp ht with ht | ht
    · exact hstep.2 t ht
    · exact hturns t ht

end

end Shell

end ContractShell
