import ContractShell.Yaml.Fault
import ContractShell.Yaml.Node

/-!
Mappings that take over the pairs of others.

A pair whose key is `<<` stands for the pairs of its value, a mapping or a sequence of mappings. They come before the
mapping's own, and of the mappings of a sequence the last one's come first, so that what is nearer wins. The key `=` of a
mapping is its text.
-/

namespace ContractShell.Yaml.Nodes

/-! ## 1. Keys -/

/-- A pair is there to be taken over. -/
def isMerge (ns : Nodes) (p : Nat × Nat) : Bool := ns.tag? p.1 == some .merge

/-- How many pairs are there to be taken over. -/
def mergeCount (ns : Nodes) : Nat :=
  ((List.range ns.size).filterMap ns.pairs?).foldl (fun n ps => n + ps.countP ns.isMerge) 0

/-- The keys of pairs, with each `=` as a text. -/
def retag (ns : Nodes) (ps : List (Nat × Nat)) : Nodes :=
  ps.foldl (fun ns p => if ns.tag? p.1 = some .value then ns.setTag p.1 .text else ns) ns

/-- The value of the first pair of a mapping that is there to be taken over, and the nodes without that pair. -/
def takeMerge? (ns : Nodes) (number : Nat) : Option (Nat × Nodes) := do
  let ps ← ns.pairs? number
  let p ← ps.find? ns.isMerge
  return (p.2, ns.setContent number (.mapping (ps.eraseP ns.isMerge)))

/-! ## 2. Mappings -/

mutual

/-- Puts the pairs that a mapping takes over in front of its own, behind those that it took over so far. -/
def flattenFrom (number : Nat) (taken : List (Nat × Nat)) : Nat → Nodes → Except Fault Nodes
  | 0, _ => .error .malformed
  | fuel + 1, ns => do
    match ns.takeMerge? number with
    | some (source, ns) =>
      let (ps, ns) ← takenFrom source fuel ns
      flattenFrom number (taken ++ ps) fuel ns
    | none =>
      let ps := (ns.pairs? number).getD []
      return (ns.retag ps).setContent number (.mapping (taken ++ ps))
termination_by structural fuel => fuel

/-- The pairs that are taken over from a mapping or from the mappings of a sequence. -/
def takenFrom (source : Nat) : Nat → Nodes → Except Fault (List (Nat × Nat) × Nodes)
  | 0, _ => .error .malformed
  | fuel + 1, ns => do
    match ns.content? source with
    | some (.mapping _) =>
      let ns ← flattenFrom source [] fuel ns
      return ((ns.pairs? source).getD [], ns)
    | some (.sequence items) =>
      items.foldlM (fun (ps, ns) item => do
        if (ns.pairs? item).isNone then throw .malformed
        let ns ← flattenFrom item [] fuel ns
        return ((ns.pairs? item).getD [] ++ ps, ns)) ([], ns)
    | _ => throw .malformed
termination_by structural fuel => fuel

end

/-- The nodes with the pairs that a mapping takes over put in front of its own. -/
def flatten (ns : Nodes) (number : Nat) : Except Fault Nodes := flattenFrom number [] (2 * ns.mergeCount + 2) ns

end ContractShell.Yaml.Nodes
