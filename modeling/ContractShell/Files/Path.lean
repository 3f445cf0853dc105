import ContractShell.Text.Split

/-!
Paths as their components.

The text of a path is normalised: no empty and no `.` component, no slash at the end, `.` for the path without
components. Two slashes in front are kept apart from one, three or more count as one. `..` stays as it is.
-/

namespace ContractShell

/-- A path: the slashes in front and the names after them. -/
structure Path where
  root : String
  names : List String
  deriving DecidableEq, Repr

namespace Path

/-! ## 1. Text -/

/-- The slashes in front of a text. -/
def rootOf (s : List Char) : String :=
  match (s.takeWhile (· = '/')).length with
  | 0 => ""
  | 2 => "//"
  | _ => "/"

/-- The path of a text. -/
def ofText (text : String) : Path :=
  ⟨rootOf text.toList, (Text.splitString '/' text).filter fun n => n != "" && n != "."⟩

/-- The text of a path. -/
def toText (p : Path) : String :=
  let body := p.root ++ String.intercalate "/" p.names
  if body.isEmpty then "." else body

/-- A path that starts at the root. -/
def isAbsolute (p : Path) : Bool := !p.root.isEmpty

/-! ## 2. Parts -/

/-- A path seen from another one. -/
def append (p q : Path) : Path := if q.isAbsolute then q else ⟨p.root, p.names ++ q.names⟩

/-- The path without its last name. -/
def parent (p : Path) : Path := ⟨p.root, p.names.dropLast⟩

/-! ## 3. Home directories -/

/-- The home directories of the users by name; the empty name is the user of the shell. -/
abbrev Homes := List (String × String)

/-- A home directory is not known. -/
structure NoHome where
  user : String
  deriving DecidableEq, Repr

/-- The wording of the fault. -/
def NoHome.message (_ : NoHome) : String := "Could not determine home directory."

/-- A path whose first name is `~` or `~user`, seen from the home directory of that user. Other paths stay. -/
def expandHome (homes : Homes) (p : Path) : Except NoHome Path :=
  match p.isAbsolute, p.names with
  | false, first :: rest =>
    match first.toList with
    | '~' :: user =>
      match homes.find? (·.1 == String.ofList user) with
      | some (_, home) => .ok ((ofText home).append ⟨"", rest⟩)
      | none => .error ⟨String.ofList user⟩
    | _ => .ok p
  | _, _ => .ok p

end Path

end ContractShell
