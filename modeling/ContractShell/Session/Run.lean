import ContractShell.Command.Line
import ContractShell.Session.Builtin

/-!
Running command lines.

Each command of a line that was read in full is run, in order, on what the command before it left, whether that one failed
or not. A line that could not be read to its end is answered with the reason and a hint.
-/

namespace ContractShell

/-- A session and the world around it. -/
structure Shell where
  session : Session
  world : World

/-- What a command printed, and the error that it ended with. -/
structure Outcome where
  messages : List String
  error : Option String
  deriving DecidableEq, Repr

namespace Outcome

/-- The lines of an outcome: its error comes last. -/
def lines (o : Outcome) : List String := o.messages ++ o.error.toList

/-- No error. -/
def isOk (o : Outcome) : Bool := o.error.isNone

/-- The outcome of a command that prints lines or ends with a fault. -/
def ofResult : Except Session.Fault (List String) → Outcome
  | .ok lines => ⟨lines, none⟩
  | .error f => ⟨f.announced, some f.message⟩

end Outcome

/-! ## 1. Commands -/

/-- What a command that was read does. -/
def Command.Invocation.run (i : Command.Invocation) (s : Session) : Session.Attempt Session.Step :=
  match i.declaration with
  | none => throw (.unknownCommand i.name)
  | some d =>
    match d.action with
    | .none => throw (.unknownCommand i.name)
    | .builtin b => b.run i.args s
    | .method contract m => Session.callMethod i.name contract m i.args s

namespace Shell

/-- Runs a command. -/
def execute (i : Command.Invocation) (sh : Shell) : Outcome × Shell :=
  match i.run sh.session sh.world with
  | (.ok step, world) => (.ofResult step.result, ⟨step.session, world⟩)
  | (.error f, world) => (.ofResult (.error f), { sh with world })

/-- Runs commands one after the other. -/
def interpret : List Command.Invocation → Shell → List Outcome × Shell
  | [], sh => ([], sh)
  | i :: r, sh =>
    let (o, sh) := execute i sh
    let (os, sh) := interpret r sh
    (o :: os, sh)

/-! ## 2. Lines -/

/-- What is said where no usage can be shown. -/
def listHint : String := "Type \"list\" for a list of commands."

/-- What is said after a line's error: how the command is used that the reading broke off in, if it is known. -/
def hint (l : Command.Line) : String :=
  match l.broken?.bind (·.declaration) with
  | some d => "Usage: " ++ d.usage
  | none => listHint

/-- The outcomes that tell of a line's error. -/
def complaints (l : Command.Line) : List Outcome :=
  match l.fault with
  | none => []
  | some f => [⟨[], some f.message⟩, ⟨[hint l], none⟩]

/-- Reads a line against a table of commands, and runs its commands in a shell. -/
def runAgainst (commands : Command.Registry) (text : String) (sh : Shell) : List Outcome × Shell :=
  let line := Command.Line.ofText commands text
  let (outcomes, sh) := interpret line.completed sh
  (outcomes ++ complaints line, sh)

/-- Reads a line against the session's table and runs its commands. -/
def runLine (text : String) (sh : Shell) : List Outcome × Shell := sh.runAgainst sh.session.commands text

/-- Reads a line, runs its commands, and gives the lines to print. A blank line does nothing. -/
def printLine (text : String) (sh : Shell) : List String × Shell :=
  if (Text.trimString text).isEmpty then ([], sh)
  else
    let (outcomes, sh) := sh.runLine text
    (outcomes.flatMap Outcome.lines, sh)

/-- Reads lines and runs their commands until the end of the session is asked for. -/
def printLines : List String → Shell → List String × Shell
  | [], sh => ([], sh)
  | text :: r, sh =>
    if sh.session.exiting then ([], sh)
    else
      let (first, sh) := sh.printLine text
      let (more, sh) := printLines r sh
      (first ++ more, sh)

/-- Ends the session. Tells what came of its callbacks. -/
def finish (sh : Shell) : Calls × Shell :=
  let ((calls, session), world) := sh.session.finish sh.world
  (calls, ⟨session, world⟩)

end Shell

end ContractShell
