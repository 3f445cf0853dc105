import ContractShell.Json.Basic
import ContractShell.Yaml.Value

/-!
Documents: a value together with the objects that it refers to.

An object can hold itself. Where a message shows an object inside of itself it leaves out what the object holds.
-/

namespace ContractShell.Yaml

/-- A value and the objects that it refers to. -/
structure Document where
  objects : Objects
  root : Value
  deriving DecidableEq, Repr

namespace Document

/-! ## 1. Parts -/

/-- A document without objects. -/
def ofValue (v : Value) : Document := ⟨[], v⟩

/-- A text as a document. -/
def ofString (text : String) : Document := ofValue (.text text)

/-- A mapping without members. -/
def blank : Document := ⟨[(0, .mapping [])], .object 0⟩

/-- The object that the document is. -/
def object? (d : Document) : Option Object :=
  match d.root with
  | .object number => d.objects.get? number
  | _ => none

/-- Another value of the same document. -/
def withRoot (d : Document) (v : Value) : Document := { d with root := v }

/-- The document is a mapping. -/
def isMapping (d : Document) : Bool :=
  match d.object? with
  | some (.mapping _) => true
  | _ => false

/-- The value of a text as a key. -/
def member? (d : Document) (name : String) : Option Document :=
  match d.object? with
  | some (.mapping ps) => (Value.find? (.text name) ps).map d.withRoot
  | _ => none

/-- A document that counts as nothing: null, false, zero, or something without content. -/
def isVacant (d : Document) : Bool :=
  match d.root with
  | .null => true
  | .bool b => !b
  | .int n => n == 0
  | .float x _ => x.isZero
  | .text s => s.isEmpty
  | .bytes b => b.isEmpty
  | .date _ | .instant _ => false
  | .object number =>
    match d.objects.get? number with
    | some (.list items) | some (.set items) => items.isEmpty
    | some (.pairs items) | some (.mapping items) => items.isEmpty
    | none => true

/-! ## 2. As messages show them -/

/-- A value that is no object, inside of an object. An integer can be too long to be shown. -/
def shownPlain : Value → Option String
  | .null => some "None"
  | .bool b => some (if b then "True" else "False")
  | .int n => Integer.text? n
  | .float x _ => some x.toText
  | .text s => some (Text.quotedString s)
  | .bytes b => some (Text.quotedBytes b)
  | .date d => some d.shown
  | .instant t => some t.shown
  | .object _ => none

/-- A pair of values in parentheses. -/
def shownPair (inside : Value → Option String) (p : Value × Value) : Option String :=
  return "(" ++ (← inside p.1) ++ ", " ++ (← inside p.2) ++ ")"

/-- A pair of a mapping. -/
def shownMember (inside : Value → Option String) (p : Value × Value) : Option String :=
  return (← inside p.1) ++ ": " ++ (← inside p.2)

/-- Texts with commas between them, between brackets. -/
def enclosed (opening closing : String) (parts : List String) : String :=
  opening ++ String.intercalate ", " parts ++ closing

/-- An object, given how the values in it are shown. -/
def shownObject (inside : Value → Option String) : Object → Option String
  | .list items => (items.mapM inside).map (enclosed "[" "]")
  | .pairs items => (items.mapM (shownPair inside)).map (enclosed "[" "]")
  | .mapping items => (items.mapM (shownMember inside)).map (enclosed "\x7b" "\x7d")
  | .set [] => some "set()"
  | .set items => (items.mapM inside).map (enclosed "\x7b" "\x7d")

/-- An object inside of itself. -/
def shownAgain : Object → String
  | .list _ | .pairs _ => "[...]"
  | .mapping _ => "\x7b...\x7d"
  | .set _ => "set(...)"

/-- A value inside of the objects of some numbers. -/
def shownInside (objects : Objects) : Nat → List Nat → Value → Option String
  | 0, _, _ => none
  | fuel + 1, around, v =>
    match v with
    | .object number =>
      match objects.get? number with
      | none => none
      | some o =>
        if around.contains number then some (shownAgain o)
        else shownObject (shownInside objects fuel (number :: around)) o
    | v => shownPlain v

/-- A document on its own, unless a number in it is too long. Each object is shown inside of itself at most once. -/
def shown? (d : Document) : Option String :=
  match d.root with
  | .text s => some s
  | .date x => some x.text
  | .instant t => some t.text
  | v => shownInside d.objects (d.objects.length + 2) [] v

/-- The items of a list, each as it is shown on its own. -/
def shownItems? (d : Document) : Option (List (Option String)) :=
  match d.object? with
  | some (.list items) => some (items.map fun v => (d.withRoot v).shown?)
  | some (.pairs items) =>
    some (items.map (shownPair (shownInside d.objects (d.objects.length + 2) [])))
  | _ => none

/-! ## 3. From JSON -/

/-- Adds an object. Its number is the count of those before it. -/
def addObject (o : Object) : StateM Objects Value := do
  let os ← get
  set (os ++ [(os.length, o)])
  return .object os.length

mutual

/-- A JSON value, with its objects added to those so far. -/
def addJson : Json → StateM Objects Value
  | .null => return .null
  | .bool b => return .bool b
  | .int n => return .int n
  | .float x => return .float x 0
  | .str s => return .text s
  | .arr items => do addObject (.list (← addItems items))
  | .obj m => do addObject (.mapping (← addMembers m))

/-- JSON values one after the other. -/
def addItems : List Json → StateM Objects (List Value)
  | [] => return []
  | x :: r => do
    let v ← addJson x
    return v :: (← addItems r)

/-- The members of a JSON object. -/
def addMembers : List (String × Json) → StateM Objects (List (Value × Value))
  | [] => return []
  | (k, x) :: r => do
    let v ← addJson x
    return (.text k, v) :: (← addMembers r)

end

/-- A JSON value as a document. -/
def ofJson (v : Json) : Document :=
  let (root, objects) := (addJson v).run []
  ⟨objects, root⟩

end Document

end ContractShell.Yaml
