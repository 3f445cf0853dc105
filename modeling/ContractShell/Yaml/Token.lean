import ContractShell.Yaml.Fault

/-!
The tokens of YAML: indicators, block structure found from indentation, properties of nodes, and scalars.
-/

namespace ContractShell.Yaml

/-- An instruction in front of a document. -/
inductive Directive where
  | version (major : Nat)
  /-- A handle stands for the start of a tag. -/
  | handle (name start : String)
  | other
  deriving DecidableEq, Repr

/-- A token. -/
inductive Token where
  | streamEnd
  | directive (d : Directive)
  | documentStart
  | documentEnd
  | blockSequenceStart
  | blockMappingStart
  | blockEnd
  | flowSequenceStart
  | flowSequenceEnd
  | flowMappingStart
  | flowMappingEnd
  | blockEntry
  | flowEntry
  | key
  | value
  | reference (name : String)
  | anchor (name : String)
  | tag (handle : Option String) (suffix : String)
  | scalar (text : String) (plain : Bool)
  deriving DecidableEq, Repr

end ContractShell.Yaml
