import ContractShell.Command.Registry
import ContractShell.Contract.Table
import ContractShell.Interface.Document
import ContractShell.Library.Schemas
import ContractShell.Schema.Args

/-!
Registration: a contract is added together with one command for each of its methods, or not at all.

## Main statements

* `tables_of_register`: what a registration adds to the two tables.
-/

namespace ContractShell

open Command (Declaration Registry)

namespace Registration

/-! ## 1. Faults -/

/-- Why a contract cannot be registered. -/
inductive Fault where
  | invalidName (name : String)
  | exists (name : String)
  | invalidAddress (text : String)
  /-- The type definitions of the document cannot be loaded. -/
  | types (fault : LoadFault)
  /-- A type of a method has no schema. -/
  | schema (fault : SchemaFault)
  | commandExists (name : String)
  /-- A method's type cannot be given as arguments of a command. -/
  | arguments (command : String) (fault : SchemaFault)
  deriving DecidableEq, Repr

/-- The wording of a fault. -/
def Fault.message : Fault → String
  | .invalidName name => "contract error: invalid characters in contract name " ++ name
  | .exists name => (Contract.Fault.exists name).message
  | .invalidAddress text => "contract error: invalid contract address " ++ text
  | .types f => f.message
  | .schema f => f.message
  | .commandExists name => "contract error: command " ++ name ++ " already exists"
  | .arguments command f => "invalid ABI: " ++ command ++ ": " ++ f.message

/-! ## 2. Methods and their commands -/

/-- A contract's name: letters, figures and underscores, at least one. -/
def isName (name : String) : Bool := !name.isEmpty && name.toList.all Command.isWordChar

/-- The methods of entries, with the schemas of their types. -/
def methodsFrom (lib : Library) : Library.Memo → List Interface.Entry → Except SchemaFault (List Method)
  | _, [] => .ok []
  | memo, e :: r =>
    match lib.schemaFrom memo e.argument with
    | (.error f, _) => .error f
    | (.ok arguments, memo) =>
      match lib.schemaFrom memo e.result with
      | (.error f, _) => .error f
      | (.ok result, memo) =>
        (methodsFrom lib memo r).map (⟨e.name, arguments, result, e.entryPoint, e.readOnly, e.description⟩ :: ·)

/-- The methods of a document in the order of their names. -/
def methodsOf (lib : Library) (d : Interface.Document) : Except SchemaFault (List Method) :=
  methodsFrom lib [] (d.methods.mergeSort fun a b => a.name ≤ b.name)

/-- The command that calls a method. -/
def declarationOf (contract : String) (m : Method) : Except Fault Declaration :=
  match h : m.arguments.args with
  | .error f => .error (.arguments (Contract.commandName contract m.name) f)
  | .ok args =>
    .ok ⟨Contract.commandName contract m.name, m.description, args, false, .method contract m,
      Command.optionalLast_of_required (required_of_args h)⟩

/-- The commands for methods. None of them may be there already. -/
def declarationsFor (commands : Registry) (contract : String) : List Method → Except Fault (List Declaration)
  | [] => .ok []
  | m :: r =>
    let name := Contract.commandName contract m.name
    if commands.contains name then .error (.commandExists name)
    else
      match declarationOf contract m with
      | .error f => .error f
      | .ok d => (declarationsFor commands contract r).map (d :: ·)

/-! ## 3. Registration -/

/-- The contract of a document and the commands for its methods. -/
def prepare (contracts : Contracts) (commands : Registry) (name address : String) (d : Interface.Document) :
    Except Fault (Contract × List Declaration) :=
  if !isName name then .error (.invalidName name)
  else if contracts.contains name then .error (.exists name)
  else
    match Base58.decode address.toList with
    | .error _ => .error (.invalidAddress address)
    | .ok addressBytes =>
      match Library.ofText d.types with
      | .error f => .error (.types f)
      | .ok lib =>
        match methodsOf lib d with
        | .error f => .error (.schema f)
        | .ok methods =>
          (declarationsFor commands name methods).map fun ds => (⟨name, addressBytes, methods, lib⟩, ds)

/-- The contract of a document, and the tables of contracts and commands with it and the commands for its methods. -/
def register (contracts : Contracts) (commands : Registry) (name address : String) (d : Interface.Document) :
    Except Fault (Contract × Contracts × Registry) :=
  match prepare contracts commands name address d with
  | .error f => .error f
  | .ok (c, ds) =>
    match contracts.insert c with
    | .error _ => .error (.exists c.name)
    | .ok contracts => .ok (c, contracts, ds.foldl Registry.add commands)

theorem declarations_foldl_add (ds : List Declaration) (r : Registry) :
    (ds.foldl Registry.add r).declarations = r.declarations ++ ds := by
  induction ds generalizing r with
  | nil => simp
  | cons d ds ih => simp [ih, Registry.add]

/-- A registration adds its contract to the table of contracts, and its commands at the end of the table of commands. -/
theorem tables_of_register {contracts cs : Contracts} {commands r : Registry} {name address : String}
    {d : Interface.Document} {c : Contract} (h : register contracts commands name address d = .ok (c, cs, r)) :
    ∃ ds, prepare contracts commands name address d = .ok (c, ds) ∧ cs = contracts.add c ∧
      r.declarations = commands.declarations ++ ds := by
  simp only [register] at h
  cases hp : prepare contracts commands name address d with
  | error f => rw [hp] at h; cases h
  | ok p =>
    obtain ⟨c', ds⟩ := p
    rw [hp] at h
    simp only [Contracts.insert] at h
    split at h
    · cases h
    · rename_i hi
      split at hi
      · cases hi
      · cases hi
        cases h
        exact ⟨ds, rfl, rfl, declarations_foldl_add _ _⟩

end Registration

end ContractShell
