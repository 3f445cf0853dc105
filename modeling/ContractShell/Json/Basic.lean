import ContractShell.Number.Binary64
import ContractShell.Text.Quoted

/-!
JSON documents as values.

An object is its members in the order they were first written; a key occurs once. Numbers without point and exponent are
integers of any size, the others are floating-point numbers.

In messages values are shown with `None`, `True` and `False` for null and the two truth values, quoted text inside lists and
objects, and a string on its own as it is.

## Main statements

* `set_fresh`: setting a key that is not there adds it at the end.
-/

namespace ContractShell

/-- A JSON document. -/
inductive Json where
  | null
  | bool (value : Bool)
  | int (value : Int)
  | float (value : Binary64)
  | str (value : String)
  | arr (items : List Json)
  | obj (members : List (String × Json))
  deriving Repr

namespace Json

/-! ## 1. Members -/

/-- Sets a key of a list of members: a key that is there keeps its place. -/
def set (key : String) (value : Json) : List (String × Json) → List (String × Json)
  | [] => [(key, value)]
  | (k, v) :: r => if k = key then (k, value) :: r else (k, v) :: set key value r

theorem set_fresh (key : String) (value : Json) (m : List (String × Json)) (h : ∀ p ∈ m, p.1 ≠ key) :
    set key value m = m ++ [(key, value)] := by
  induction m with
  | nil => rfl
  | cons p r ih =>
    have hp : p.1 ≠ key := h p (by simp)
    simp [set, hp, ih fun q hq => h q (by simp [hq])]

/-- The value of a key. -/
def find? (key : String) (m : List (String × Json)) : Option Json := (m.find? (·.1 == key)).map (·.2)

/-- A member of an object; other documents have none. -/
def member? (key : String) : Json → Option Json
  | .obj m => find? key m
  | _ => none

/-! ## 2. Views -/

/-- The members of an object. -/
def members? : Json → Option (List (String × Json))
  | .obj m => some m
  | _ => none

/-- The text of a string. -/
def text? : Json → Option String
  | .str s => some s
  | _ => none

/-- A value that counts as not given: null, false, zero, and empty text, list or object. -/
def isVacant : Json → Bool
  | .null => true
  | .bool b => !b
  | .int n => n == 0
  | .float x => x.isZero
  | .str s => s.isEmpty
  | .arr items => items.isEmpty
  | .obj m => m.isEmpty

/-- The name that messages give to the kind of a value. -/
def kindName : Json → String
  | .null => "NoneType"
  | .bool _ => "bool"
  | .int _ => "int"
  | .float _ => "float"
  | .str _ => "str"
  | .arr _ => "list"
  | .obj _ => "dict"

/-! ## 3. Values in messages -/

mutual

/-- A value inside a list or an object. -/
def shownInside : Json → String
  | .null => "None"
  | .bool b => if b then "True" else "False"
  | .int n => toString n
  | .float x => x.toText
  | .str s => Text.quotedString s
  | .arr items => "[" ++ shownItems items ++ "]"
  | .obj m => "\x7b" ++ shownMembers m ++ "\x7d"

/-- Items with commas between them. -/
def shownItems : List Json → String
  | [] => ""
  | [x] => shownInside x
  | x :: r => shownInside x ++ ", " ++ shownItems r

/-- Members with commas between them. -/
def shownMembers : List (String × Json) → String
  | [] => ""
  | [(k, v)] => Text.quotedString k ++ ": " ++ shownInside v
  | (k, v) :: r => Text.quotedString k ++ ": " ++ shownInside v ++ ", " ++ shownMembers r

end

/-- A value on its own. -/
def shown : Json → String
  | .str s => s
  | v => shownInside v

end Json

end ContractShell
