import ContractShell.History
import ContractShell.Session.Run

/-!
The console: lines are asked for, kept in the history, and run, until the end of the session or of the input, or until the
history fails.

An interrupt drops the line that is being typed.

## Main statements

* `run_of_isOver`: nothing is asked for when the console has come to its end.
-/

namespace ContractShell

namespace Console

/-- What comes of asking for a line. -/
inductive Event where
  | line (text : Typed)
  | interrupt
  | endOfInput
  deriving DecidableEq, Repr

/-- The prompts that were shown, the lines that were printed, and the events that were not asked for. -/
structure Transcript where
  prompts : List String
  output : List String
  unread : List Event
  deriving DecidableEq, Repr

/-- A shell with its history, if it keeps one, and the fault that the history failed with. -/
structure State where
  shell : Shell
  history : Option History
  fault : Option Typed.Fault

/-- The console has come to its end: the session is to end, or the history has failed. -/
def State.isOver (s : State) : Bool := s.shell.session.exiting || s.fault.isSome

/-- Keeps a line in the history. -/
def State.remember (s : State) (line : Typed) : State :=
  match s.history with
  | none => s
  | some h =>
    let (writing, world) := World.takeWriting s.shell.world
    let kept := h.append line s.shell.session.disk writing
    ⟨⟨{ s.shell.session with disk := kept.disk }, world⟩, some kept.history, kept.fault⟩

/-- Keeps a line and runs it, unless the history fails. -/
def State.take (s : State) (line : Typed) : List String × State :=
  let s := s.remember line
  if s.fault.isSome then ([], s)
  else
    let (output, shell) := s.shell.printLine line.shown
    (output, { s with shell })

/-- A transcript that starts with a prompt and some lines. -/
def Transcript.after (prompt : String) (lines : List String) (t : Transcript) : Transcript :=
  { t with prompts := prompt :: t.prompts, output := lines ++ t.output }

/-- Asks for lines and runs them. When the events run out, the input has ended. -/
def run : List Event → State → Transcript × State
  | [], s => (⟨if s.isOver then [] else [s.shell.session.prompt], [], []⟩, s)
  | e :: rest, s =>
    if s.isOver then (⟨[], [], e :: rest⟩, s)
    else
      let prompt := s.shell.session.prompt
      match e with
      | .endOfInput => (⟨[prompt], [], rest⟩, s)
      | .interrupt =>
        let (t, s) := run rest s
        (t.after prompt [], s)
      | .line text =>
        let (lines, s) := s.take text
        let (t, s) := run rest s
        (t.after prompt lines, s)

/-- Nothing is asked for when the console has come to its end. -/
theorem run_of_isOver {events : List Event} {s : State} (h : s.isOver = true) : run events s = (⟨[], [], events⟩, s) := by
  cases events <;> simp [run, h]

end Console

end ContractShell
