import ContractShell.Library.Basic
import ContractShell.Schema.Basic
import ContractShell.Text.Split

/-!
The contracts that the shell knows, by the names under which they were registered.

## Main statements

* `find?_add_self`, `find?_add_other`: what a name stands for after a contract was added.
-/

namespace ContractShell

/-! ## 1. Contracts -/

/-- A registered contract. -/
structure Contract where
  name : String
  address : Bytes
  methods : List Method
  library : Library

namespace Contract

/-- What stands between a contract and its method in a command's name. -/
def separator : Char := '.'

/-- The name of the command that calls a method. -/
def commandName (contract method : String) : String := contract ++ String.singleton separator ++ method

/-- The method of a name. -/
def method? (c : Contract) (name : String) : Option Method := c.methods.find? (·.name == name)

/-- Why a contract or a method cannot be found or added. -/
inductive Fault where
  | invalidMethodName (name : String)
  | unknown (name : String)
  | exists (name : String)
  | noMethod (contract method : String)
  deriving DecidableEq, Repr

/-- What a fault says. -/
def Fault.detail : Fault → String
  | .invalidMethodName name => "invalid method name " ++ name
  | .unknown name => "contract " ++ name ++ " does not exist"
  | .exists name => "contract " ++ name ++ " already exists"
  | .noMethod contract method => "contract " ++ contract ++ " has no method " ++ method

/-- The wording of a fault. -/
def Fault.message (f : Fault) : String := Text.withContext "contract error" f.detail

/-- The contract and the method that a command's name consists of. -/
def splitName (name : String) : Except Fault (String × String) :=
  match Text.splitString separator name with
  | [contract, method] =>
    if contract.isEmpty || method.isEmpty then .error (.invalidMethodName name) else .ok (contract, method)
  | _ => .error (.invalidMethodName name)

end Contract

/-! ## 2. The table -/

/-- The registered contracts, oldest first. -/
structure Contracts where
  all : List Contract

namespace Contracts

/-- No contracts. -/
def empty : Contracts := ⟨[]⟩

/-- The contract of a name. -/
def find? (cs : Contracts) (name : String) : Option Contract := cs.all.find? (·.name == name)

/-- There is a contract of a name. -/
def contains (cs : Contracts) (name : String) : Bool := (cs.find? name).isSome

/-- Adds a contract at the end. -/
def add (cs : Contracts) (c : Contract) : Contracts := ⟨cs.all ++ [c]⟩

/-- Adds a contract under a name that is not yet taken. -/
def insert (cs : Contracts) (c : Contract) : Except Contract.Fault Contracts :=
  if cs.contains c.name then .error (.exists c.name) else .ok (cs.add c)

theorem find?_add_self {cs : Contracts} {c : Contract} (h : cs.find? c.name = none) :
    (cs.add c).find? c.name = some c := by
  simp only [find?] at h
  simp [find?, add, List.find?_append, h]

theorem find?_add_other {cs : Contracts} {c : Contract} {name : String} (h : c.name ≠ name) :
    (cs.add c).find? name = cs.find? name := by
  simp [find?, add, List.find?_append, h]

/-- The names of the contracts. -/
def names (cs : Contracts) : List String := cs.all.map (·.name)

/-- The contract of a name. -/
def get (cs : Contracts) (name : String) : Except Contract.Fault Contract :=
  match cs.find? name with
  | some c => .ok c
  | none => .error (.unknown name)

/-- The contract and the method that a command's name stands for. -/
def lookup (cs : Contracts) (commandName : String) : Except Contract.Fault (Contract × Method) :=
  match Contract.splitName commandName with
  | .error f => .error f
  | .ok (contract, method) =>
    match cs.get contract with
    | .error f => .error f
    | .ok c =>
      match c.method? method with
      | none => .error (.noMethod contract method)
      | some m => .ok (c, m)

end Contracts

end ContractShell
