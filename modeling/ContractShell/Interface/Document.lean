import ContractShell.Interface.EntryPoint
import ContractShell.Json.Reader
import ContractShell.Text.Quoted

/-!
Interface documents: the methods of a contract and the types that they take and return.

A document is an object. Its methods are an object of entries, or a list of entries that carry their names; its types are
text. The first fault in reading order is reported.
-/

namespace ContractShell.Interface

/-! ## 1. Methods -/

/-- A method as its document describes it. -/
structure Entry where
  name : String
  argument : String
  result : String
  entryPoint : Nat
  description : String
  readOnly : Bool
  deriving DecidableEq, Repr

/-- Why a document cannot be read. -/
inductive Fault where
  | malformed
  | notObject
  | noMethods
  | noTypes
  | entryNotObject (method : String)
  | unnamed
  | duplicate (method : String)
  /-- A name in a list is itself a list or an object. -/
  | compoundName (kind : String)
  | entryPoint (method : String) (fault : EntryPoint.Fault)
  | readOnly (method : String)
  deriving DecidableEq, Repr

/-- What a fault says. -/
def Fault.detail : Fault → String
  | .malformed => "malformed JSON (...)"
  | .notObject => "document must be a JSON object"
  | .noMethods => "missing methods"
  | .noTypes => "missing types"
  | .entryNotObject m => s!"method {m} must be an object"
  | .unnamed => "method entries must carry a name"
  | .duplicate m => s!"duplicate method {m}"
  | .compoundName kind => s!"unhashable type: '{kind}'"
  | .entryPoint m .missing => s!"method {m} is missing an entry point"
  | .entryPoint m (.notANumber raw) => s!"method {m} has invalid entry point {raw}"
  | .entryPoint m (.outOfRange raw) => s!"method {m} entry point {raw} is out of range"
  | .readOnly m => s!"method {m} read-only flag must be true or false"

/-- The wording of a fault. -/
def Fault.message : Fault → String
  | .compoundName kind => (Fault.compoundName kind).detail
  | f => Text.withContext "invalid ABI" f.detail

/-- The text of a member, empty when the member is vacant. -/
def textOf (key : String) (m : List (String × Json)) : String :=
  match Json.find? key m with
  | none => ""
  | some v => if v.isVacant then "" else v.shown

/-- The value of the first of two spellings of a key that is there. -/
def eitherOf (key other : String) (m : List (String × Json)) : Option Json :=
  match Json.find? key m with
  | some v => some v
  | none => Json.find? other m

/-- The flag that says that a method only reads. -/
def readOnlyOf (m : List (String × Json)) : Option Bool :=
  match eitherOf "read-only" "read_only" m with
  | none => some false
  | some (.bool b) => some b
  | some _ => none

/-- The entry of a method. -/
def Entry.ofJson (name : String) (v : Json) : Except Fault Entry :=
  match v with
  | .obj m =>
    match EntryPoint.read (eitherOf "entry_point" "entry-point" m) with
    | .error f => .error (.entryPoint name f)
    | .ok n =>
      match readOnlyOf m with
      | none => .error (.readOnly name)
      | some flag => .ok ⟨name, textOf "argument" m, textOf "return" m, n, textOf "description" m, flag⟩
  | _ => .error (.entryNotObject name)

/-- Sets the entry of a name: a name that is there keeps its place. -/
def setEntry (e : Entry) : List Entry → List Entry
  | [] => [e]
  | x :: r => if x.name = e.name then e :: r else x :: setEntry e r

/-! ## 2. Documents -/

/-- An interface document. -/
structure Document where
  methods : List Entry
  types : String
  deriving DecidableEq, Repr

/-- Entries in the form of an object. -/
def entriesOfMembers (m : List (String × Json)) : Except Fault (List Entry) :=
  m.foldlM (fun done p => return setEntry (← Entry.ofJson p.1 p.2) done) []

/-- The name that an entry of a list carries, next to those before it. A name that is text must be new. -/
def nameIn (done : List Entry) (v : Json) : Except Fault String :=
  match v.member? "name" with
  | none => .error .unnamed
  | some n =>
    if n.isVacant then .error .unnamed
    else
      match n with
      | .str s => if done.any (·.name == s) then .error (.duplicate s) else .ok s
      | .arr _ | .obj _ => .error (.compoundName n.kindName)
      | _ => .ok n.shown

/-- Entries in the form of a list. -/
def entriesOfItems (items : List Json) : Except Fault (List Entry) :=
  items.foldlM (fun done v => do
    let name ← nameIn done v
    return setEntry (← Entry.ofJson name v) done) []

/-- The entries of a document. -/
def entriesOf : Option Json → Except Fault (List Entry)
  | some (.obj m) => entriesOfMembers m
  | some (.arr items) => entriesOfItems items
  | _ => .error .noMethods

/-- The document that an object describes. -/
def Document.ofJson : Json → Except Fault Document
  | .obj m => do
    let methods ← entriesOf (Json.find? "methods" m)
    match Json.find? "types" m with
    | some (.str types) => return ⟨methods, types⟩
    | _ => throw .noTypes
  | _ => .error .notObject

/-- The document of a text. -/
def Document.ofText (text : String) : Except Fault Document :=
  match Json.read? text with
  | none => .error .malformed
  | some v => ofJson v

end ContractShell.Interface
