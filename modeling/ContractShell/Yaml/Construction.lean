import ContractShell.Yaml.Document
import ContractShell.Yaml.Graph
import ContractShell.Yaml.Merging
import ContractShell.Yaml.ScalarValue

/-!
From the graph of a document to its value.

The values of scalars are made at once. An object is made empty where it is first met, and filled after those that were
met before it, so it can hold itself.
-/

namespace ContractShell.Yaml

/-- The nodes of a document, the objects that were made so far, and the numbers of those that are still empty, in the
order in which they are filled. An object has the number of its node. -/
structure Builder where
  nodes : Nodes
  objects : Objects
  waiting : List Nat

/-- Steps that make values and can fail. -/
abbrev Building := StateT Builder (Except Fault)

namespace Builder

/-- The document breaks the rules of the language. -/
def refuse {α : Type} : Building α := throw .malformed

/-- The node of a number. -/
def nodeAt (number : Nat) : Building Node := do
  match (← get).nodes[number]? with
  | some n => return n
  | none => refuse

/-! ## 1. Scalars -/

/-- The text of a node that should be a scalar. That of a mapping is the one of the value of its key `=`. -/
def scalarText? (ns : Nodes) : Nat → Nat → Option String
  | 0, _ => none
  | fuel + 1, number =>
    match ns.content? number with
    | some (.scalar text) => some text
    | some (.mapping ps) =>
      match ps.find? fun p => ns.tag? p.1 == some .value with
      | some p => scalarText? ns fuel p.2
      | none => none
    | _ => none

/-- The value of a node that should be a scalar. -/
def scalarValue (ns : Nodes) (number : Nat) (n : Node) : Except Fault Value :=
  match scalarText? ns (ns.size + 1) number, n with
  | none, _ => .error .malformed
  | some _, ⟨.timestamp, .mapping _⟩ => .error .mappingForTimestamp
  | some text, _ => Value.ofScalar number n.tag text

/-! ## 2. Objects -/

/-- The object of a tag before it is filled. -/
def emptyObject? : Tag → Option Object
  | .sequence => some (.list [])
  | .mapping => some (.mapping [])
  | .set => some (.set [])
  | .orderedMapping | .pairs => some (.pairs [])
  | _ => none

/-- A builder in which an object is made, and waits to be filled. -/
def place (number : Nat) (o : Object) (b : Builder) : Builder :=
  if (b.objects.get? number).isSome then b
  else { b with objects := (number, o) :: b.objects, waiting := b.waiting ++ [number] }

/-- A builder in which an object is filled. -/
def settle (number : Nat) (o : Object) (b : Builder) : Builder :=
  { b with objects := b.objects.map fun p => if p.1 = number then (number, o) else p }

/-- The value of a node. An object is empty until it is filled. -/
def value (number : Nat) : Building Value := do
  let n ← nodeAt number
  match emptyObject? n.tag with
  | some o =>
    modify (place number o)
    return .object number
  | none => liftM (scalarValue (← get).nodes number n)

/-- The pairs of a mapping with each key once. A key is a value that holds no others. -/
def pairsOf (number : Nat) : Building (List (Value × Value)) := do
  let nodes ← liftM ((← get).nodes.flatten number)
  modify fun b => { b with nodes }
  ((nodes.pairs? number).getD []).foldlM (fun done p => do
    let k ← value p.1
    if !k.isKey then refuse
    let v ← value p.2
    return Value.setPair k v done) []

/-- The pair of a mapping that holds one pair. -/
def singleOf (number : Nat) : Building (Value × Value) := do
  match (← get).nodes.pairs? number with
  | some [p] =>
    let k ← value p.1
    return (k, ← value p.2)
  | _ => refuse

/-- Fills the object of a node. -/
def fill (number : Nat) : Building Unit := do
  let n ← nodeAt number
  let o ← match n.tag, n.content with
    | .sequence, .sequence items => Object.list <$> items.mapM value
    | .orderedMapping, .sequence items | .pairs, .sequence items => Object.pairs <$> items.mapM singleOf
    | .mapping, .mapping _ => Object.mapping <$> pairsOf number
    | .set, .mapping _ => do pure (Object.set ((← pairsOf number).map (·.1)))
    | _, _ => refuse
  modify (settle number o)

/-- Fills the objects that wait, and those that come up on the way. -/
def fillAll : Nat → Building Unit
  | 0 => return ()
  | fuel + 1 => do
    match (← get).waiting with
    | [] => return ()
    | number :: rest =>
      modify fun b => { b with waiting := rest }
      fill number
      fillAll fuel

end Builder

/-! ## 3. Documents -/

/-- The document of a graph. -/
def Document.ofGraph (g : Graph) : Except Fault Document := do
  let build : Building Value := do
    let root ← Builder.value g.root
    Builder.fillAll (g.nodes.size + 1)
    return root
  let (root, b) ← build.run ⟨g.nodes, [], []⟩
  return ⟨b.objects, root⟩

/-- The document of a text. One that holds nothing stands for null. -/
def Document.ofText (text : String) : Except Fault Document := do
  match ← Graph.ofText text with
  | some g => Document.ofGraph g
  | none => return .ofValue .null

end ContractShell.Yaml
