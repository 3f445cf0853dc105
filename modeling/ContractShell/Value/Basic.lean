import ContractShell.Bytes.Basic
import ContractShell.Text.Quoted

/-!
Values: what the fields of messages hold. A message is its members by name, in order.

## Main statements

* `setMember_fresh`: setting a member that is not there adds it at the end.
-/

namespace ContractShell

/-- A value of a field, or a message. -/
inductive Value where
  | bool (value : Bool)
  | int (value : Int)
  | text (value : String)
  | bytes (value : Bytes)
  | message (members : List (String × Value))
  deriving Repr

namespace Value

instance : Inhabited Value := ⟨.message []⟩

/-- Sets a member: one that is there keeps its place. -/
def setMember (name : String) (value : Value) : List (String × Value) → List (String × Value)
  | [] => [(name, value)]
  | (n, v) :: r => if n = name then (n, value) :: r else (n, v) :: setMember name value r

/-- Setting a member that is not there adds it at the end. -/
theorem setMember_fresh (name : String) (value : Value) (members : List (String × Value))
    (h : ∀ p ∈ members, p.1 ≠ name) : setMember name value members = members ++ [(name, value)] := by
  induction members with
  | nil => rfl
  | cons p r ih =>
    have hp : p.1 ≠ name := h p (by simp)
    simp [setMember, hp, ih fun q hq => h q (by simp [hq])]

/-- The members of a message; other values have none. -/
def members : Value → List (String × Value)
  | .message ms => ms
  | _ => []

/-- The member of a name. -/
def member? (name : String) (ms : List (String × Value)) : Option Value := (ms.find? (·.1 == name)).map (·.2)

end Value

end ContractShell
