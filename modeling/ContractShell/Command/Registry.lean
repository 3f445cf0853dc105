import ContractShell.Command.Declaration

/-!
The table of commands.

Declarations are kept in the order in which they were added. A name resolves to the declaration that was added last under
it. The table counts its additions.

## Main statements

* `find?_add_self`, `find?_add_other`: what a name resolves to after an addition.
* `ofDeclarations_declarations`: a table is known from its declarations.
-/

namespace ContractShell.Command

/-- The declarations of all commands, oldest first, and the number of additions, which tells apart the states of one table
as it grows. -/
structure Registry where
  declarations : List Declaration
  revision : Nat
  counted : revision = declarations.length

namespace Registry

/-- The table of declarations that are added one after the other. -/
def ofDeclarations (ds : List Declaration) : Registry := ⟨ds, ds.length, rfl⟩

@[simp] theorem declarations_ofDeclarations (ds : List Declaration) : (ofDeclarations ds).declarations = ds := rfl

/-- A table is known from its declarations. -/
@[simp] theorem ofDeclarations_declarations (r : Registry) : ofDeclarations r.declarations = r := by
  cases r with
  | mk ds revision counted =>
    cases counted
    rfl

theorem eq_of_declarations {r r' : Registry} (h : r.declarations = r'.declarations) : r = r' := by
  rw [← ofDeclarations_declarations r, h, ofDeclarations_declarations]

/-- The table without commands. -/
def empty : Registry := ofDeclarations []

/-- Adds a declaration at the end, and counts it. -/
def add (r : Registry) (d : Declaration) : Registry :=
  ⟨r.declarations ++ [d], r.revision + 1, by rw [r.counted, List.length_append, List.length_singleton]⟩

theorem add_eq (r : Registry) (d : Declaration) : r.add d = ofDeclarations (r.declarations ++ [d]) :=
  (ofDeclarations_declarations (r.add d)).symm

/-- The declaration that a name resolves to. -/
def find? (r : Registry) (name : String) : Option Declaration := r.declarations.reverse.find? (·.name == name)

theorem find?_add_self (r : Registry) (d : Declaration) : (r.add d).find? d.name = some d := by
  simp [find?, add]

theorem find?_add_other (r : Registry) (d : Declaration) {name : String} (h : d.name ≠ name) :
    (r.add d).find? name = r.find? name := by
  simp [find?, add, h]

/-- A name resolves to a declaration. -/
def contains (r : Registry) (name : String) : Bool := (r.find? name).isSome

/-- How many declarations were added. -/
def size (r : Registry) : Nat := r.declarations.length

/-- The names in the order of addition. -/
def names (r : Registry) : List String := r.declarations.map (·.name)

/-- The names that listings show, in alphabetical order. -/
def visibleNames (r : Registry) : List String :=
  ((r.declarations.filter fun d => !d.hidden).map (·.name)).mergeSort (· ≤ ·)

/-- The description that a name resolves to. -/
def describe (r : Registry) (name : String) : String := ((r.find? name).map (·.description)).getD ""

/-- A text filled with spaces up to a width. -/
def padTo (width : Nat) (s : String) : String := s ++ String.ofList (List.replicate (width - s.length) ' ')

/-- The visible names with their descriptions, in columns. -/
def listing (r : Registry) : List String :=
  let names := r.visibleNames
  let width := names.foldl (fun w n => max w n.length) 0
  names.map fun n => padTo width n ++ " - " ++ r.describe n

end Registry

end ContractShell.Command
