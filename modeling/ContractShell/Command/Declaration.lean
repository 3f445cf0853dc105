import ContractShell.Command.Token
import ContractShell.Schema.Basic

/-!
Declarations of commands: a name, typed arguments, and what the command does.

Optional arguments stand after the required ones; the type of declarations holds no others.

## Main statements

* `optionalLast_of_required`: arguments that are all required are in order.
-/

namespace ContractShell.Command

/-! ## 1. Arguments -/

/-- A positional argument of a command. -/
structure Arg where
  name : String
  kind : Kind
  optional : Bool
  deriving DecidableEq, Repr

/-- An argument in a usage: in angle brackets, or in square brackets when it is optional. -/
def Arg.usage (a : Arg) : String :=
  let filling := a.name ++ ":" ++ a.kind.name
  if a.optional then "[" ++ filling ++ "]" else "<" ++ filling ++ ">"

/-- The arguments from the first optional one on. -/
def fromOptional (args : List Arg) : List Arg := args.dropWhile fun a => !a.optional

/-- No required argument stands after an optional one. -/
def optionalLast (args : List Arg) : Bool := (fromOptional args).all (·.optional)

theorem optionalLast_of_required {args : List Arg} (h : ∀ a ∈ args, a.optional = false) :
    optionalLast args = true := by
  have hf : fromOptional args = [] := by
    induction args with
    | nil => rfl
    | cons a r ih =>
      have ha : a.optional = false := h a (by simp)
      have hr := ih fun b hb => h b (by simp [hb])
      simpa [fromOptional, List.dropWhile_cons, ha] using hr
  simp [optionalLast, hf]

/-! ## 2. Actions -/

/-- The built-in commands. -/
inductive Builtin where
  | address
  | balance
  | call
  | close
  | connect
  | create
  | disconnect
  | exit
  | generate
  | help
  | importKey
  | list
  | openWallet
  | showPrivate
  | showPublic
  | read
  | register
  | transfer
  | upload
  deriving DecidableEq, Repr

/-- What a command does: nothing, a built-in command, or a call of a contract's method. -/
inductive Action where
  | none
  | builtin (command : Builtin)
  | method (contract : String) (method : Method)

/-! ## 3. Declarations -/

/-- A command: its name, description and arguments, whether listings leave it out, and what it does. -/
structure Declaration where
  name : String
  description : String
  args : List Arg
  hidden : Bool
  action : Action
  /-- Optional arguments stand last. -/
  args_ordered : optionalLast args = true

/-- A required argument that stands after an optional one. -/
structure MisplacedArg where
  command : String
  arg : String
  deriving DecidableEq, Repr

/-- The wording of the fault. -/
def MisplacedArg.message (m : MisplacedArg) : String :=
  "command " ++ m.command ++ ": required argument " ++ m.arg ++ " follows an optional one"

/-- The name of the first required argument after an optional one. -/
def firstMisplaced (args : List Arg) : String :=
  (((fromOptional args).find? fun a => !a.optional).map (·.name)).getD ""

/-- A declaration, or the first required argument that stands after an optional one. -/
def Declaration.make (name description : String) (args : List Arg) (hidden : Bool) (action : Action) :
    Except MisplacedArg Declaration :=
  if h : optionalLast args = true then .ok ⟨name, description, args, hidden, action, h⟩
  else .error ⟨name, firstMisplaced args⟩

/-- How a command is used: its name and its arguments. -/
def Declaration.usage (d : Declaration) : String := String.intercalate " " (d.name :: d.args.map Arg.usage)

end ContractShell.Command
