import ContractShell.Bytes.Basic
import ContractShell.Number.Binary64
import ContractShell.Yaml.Timestamp

/-!
The values of YAML documents.

Lists, mappings and sets are objects that values refer to by number, since a document can refer to the same object in
several places, even inside of the object itself. A mapping holds pairs in the order in which their keys first came up.
Two keys are the same if they are equal as values; numbers are equal across their kinds.
-/

namespace ContractShell.Yaml

/-- A value. -/
inductive Value where
  | null
  | bool (b : Bool)
  | int (n : Int)
  /-- A floating-point number, and where it comes from: what is not a number is the same only as itself. -/
  | float (x : Binary64) (origin : Nat)
  | text (s : String)
  | bytes (b : Bytes)
  | date (d : Date)
  | instant (t : Instant)
  /-- The object of a number. -/
  | object (number : Nat)
  deriving DecidableEq, Repr

/-- What holds other values. -/
inductive Object where
  | list (items : List Value)
  /-- A list of pairs. -/
  | pairs (items : List (Value × Value))
  | mapping (items : List (Value × Value))
  | set (items : List Value)
  deriving DecidableEq, Repr

/-- Objects with their numbers. -/
abbrev Objects := List (Nat × Object)

/-- The object of a number. -/
def Objects.get? (objects : Objects) (number : Nat) : Option Object := (objects.find? (·.1 == number)).map (·.2)

namespace Value

/-- The integer that a key stands for, if it is a whole number or a truth value. -/
def whole? : Value → Option Int
  | .bool b => some (if b then 1 else 0)
  | .int n => some n
  | .float x _ => x.truncate?.filter fun n => x.equalsInt n
  | _ => none

/-- Two keys that are not whole numbers are the same. -/
def sameOther : Value → Value → Bool
  | .float .nan a, .float .nan b => a == b
  | .float x _, .float y _ => x == y
  | .instant t, .instant u => t.isSame u
  | a, b => a == b

/-- Two keys are the same. -/
def same (a b : Value) : Bool :=
  match a.whole?, b.whole? with
  | some m, some n => m == n
  | none, none => sameOther a b
  | _, _ => false

/-- A value that can be a key: one that holds no others. -/
def isKey : Value → Bool
  | .object _ => false
  | _ => true

/-- Sets the value of a key: a key that is there keeps its place. -/
def setPair (key value : Value) : List (Value × Value) → List (Value × Value)
  | [] => [(key, value)]
  | (k, v) :: r => if k.same key then (k, value) :: r else (k, v) :: setPair key value r

/-- The value of a key. -/
def find? (key : Value) (ps : List (Value × Value)) : Option Value := (ps.find? (·.1.same key)).map (·.2)

end Value

end ContractShell.Yaml
