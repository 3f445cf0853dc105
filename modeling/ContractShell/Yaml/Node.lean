import ContractShell.Yaml.Tag

/-!
The nodes of a document.

A node refers to the nodes in it by number, since a document can name a node and refer to it in several places, even
inside of the node itself.
-/

namespace ContractShell.Yaml

/-- What a node holds: a text, other nodes, or pairs of other nodes. -/
inductive Content where
  | scalar (text : String)
  | sequence (items : List Nat)
  | mapping (pairs : List (Nat × Nat))
  deriving DecidableEq, Repr

/-- A node of a document. -/
structure Node where
  tag : Tag
  content : Content
  deriving DecidableEq, Repr

/-- A scalar. -/
def Node.scalar (tag : Tag) (text : String) : Node := ⟨tag, .scalar text⟩

/-- The node that is left out. -/
def Node.empty : Node := .scalar .null ""

/-- The nodes of a document by number. -/
abbrev Nodes := Array Node

namespace Nodes

/-- A node with something else in it. Numbers beyond the last node change nothing. -/
def setContent (ns : Nodes) (number : Nat) (content : Content) : Nodes := ns.modify number fun n => { n with content }

/-- A node with another tag. -/
def setTag (ns : Nodes) (number : Nat) (tag : Tag) : Nodes := ns.modify number fun n => { n with tag }

/-- The tag of a node. -/
def tag? (ns : Nodes) (number : Nat) : Option Tag := (ns[number]?).map (·.tag)

/-- What a node holds. -/
def content? (ns : Nodes) (number : Nat) : Option Content := (ns[number]?).map (·.content)

/-- The pairs of a mapping; other nodes have none. -/
def pairs? (ns : Nodes) (number : Nat) : Option (List (Nat × Nat)) :=
  match ns.content? number with
  | some (.mapping ps) => some ps
  | _ => none

end Nodes

/-- A document: its nodes, and the number of the one that holds the others. -/
structure Graph where
  nodes : Nodes
  root : Nat

end ContractShell.Yaml
