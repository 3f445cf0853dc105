import ContractShell.Descriptor.Basic
import ContractShell.Wire.Layout

/-!
Where options stand in a file of type definitions, and what has to be known of them before the file is linked: whether
they choose features, and whether the names of options that are not understood are complete.
-/

namespace ContractShell.Descriptor

open Wire (Item itemsOf payloads numbers)

/-! ## 1. Sites -/

/-- The sorts of definitions that have options. -/
inductive Definition where
  | file
  | message
  | field
  | oneof
  | extensionRange
  | enumeration
  | enumValue
  | service
  | procedure
  deriving DecidableEq, Repr

/-- The part of a definition's options that chooses features. -/
def Definition.featurePart : Definition → Nat
  | .file => 50
  | .message => 12
  | .field => 21
  | .oneof => 1
  | .extensionRange => 50
  | .enumeration => 7
  | .enumValue => 2
  | .service => 34
  | .procedure => 35

/-- The options say whether a field is packed. -/
def saysPacked (options : List Item) : Bool := !(numbers 2 options).isEmpty

/-- The features of a field follow from how it is declared: it is required, it is a group, or it says whether it is
packed. -/
def Field.isInferred (f : Field) : Bool :=
  f.label == some .required || f.type == some .group || saysPacked (itemsOf (f.options.getD []))

/-- The options of a definition. -/
structure OptionSite where
  /-- The way from the file to the definition. -/
  path : String
  sort : Definition
  /-- The features of the definition follow from how it is declared. -/
  isInferred : Bool
  options : Bytes
  deriving DecidableEq, Repr

/-- The site of the options of a definition, if it has any. -/
def siteAt (path : String) (sort : Definition) (isInferred : Bool) (options : Option Bytes) : List OptionSite :=
  options.toList.map (⟨path, sort, isInferred, ·⟩)

/-- The sites in the definitions of a list, each with its place on the way. -/
def sitesIn {α : Type} (sites : String → α → List OptionSite) (path name : String) (definitions : List α) :
    List OptionSite :=
  (definitions.mapIdx fun i d => sites s!"{path}{name}[{i}]." d).flatten

/-- The site of a field. -/
def Field.sites (path : String) (f : Field) : List OptionSite := siteAt path .field f.isInferred f.options

/-- The sites in an enumeration. -/
def Enumeration.sites (path : String) (e : Enumeration) : List OptionSite :=
  sitesIn (fun p (v : EnumValue) => siteAt p .enumValue false v.options) path "value" e.values ++
    siteAt path .enumeration false e.options

/-- The sites in a service. -/
def Service.sites (path : String) (s : Service) : List OptionSite :=
  sitesIn (fun p (m : Procedure) => siteAt p .procedure false m.options) path "method" s.procedures ++
    siteAt path .service false s.options

mutual

/-- The sites in a message type: those of its fields, of the definitions inside, and its own, in the order in which the
parts of a message type are numbered. -/
def Message.sites (path : String) : Message → List OptionSite
  | ⟨_, fields, extensions, nested, enums, oneofs, ranges, _, options⟩ =>
    sitesIn Field.sites path "field" fields ++ nestedSites path 0 nested ++
      sitesIn Enumeration.sites path "enum_type" enums ++
      sitesIn (fun p (r : ExtensionRange) => siteAt p .extensionRange false r.options) path "extension_range" ranges ++
      sitesIn Field.sites path "extension" extensions ++ siteAt path .message false options ++
      sitesIn (fun p (o : Oneof) => siteAt p .oneof false o.options) path "oneof_decl" oneofs

/-- The sites in nested message types, of which the first has a certain place. -/
def nestedSites (path : String) (place : Nat) : List Message → List OptionSite
  | [] => []
  | m :: r => m.sites s!"{path}nested_type[{place}]." ++ nestedSites path (place + 1) r

end

/-- The sites in a file. -/
def File.sites (f : File) : List OptionSite :=
  sitesIn Message.sites "" "message_type" f.messages ++ sitesIn Enumeration.sites "" "enum_type" f.enums ++
    sitesIn Service.sites "" "service" f.services ++ sitesIn Field.sites "" "extension" f.extensions ++
    siteAt "" .file false f.options

/-! ## 2. What options say -/

/-- The options choose features. Where features follow from the declaration, choices mean nothing. -/
def OptionSite.choosesFeatures (s : OptionSite) : Bool :=
  !(payloads s.sort.featurePart (itemsOf s.options)).isEmpty && !s.isInferred

/-- A definition in the file chooses features for itself. -/
def File.choosesFeatures (f : File) : Bool := f.sites.any (·.choosesFeatures)

/-- The parts that a segment of an option's name lacks. -/
def lackingParts (path : String) (segment : Bytes) : List String :=
  let items := itemsOf segment
  (if (payloads 1 items).isEmpty then [path ++ "name_part"] else []) ++
    (if (numbers 2 items).isEmpty then [path ++ "is_extension"] else [])

/-- The parts that the names of options that are not understood lack. -/
def OptionSite.lacking (s : OptionSite) : List String :=
  ((payloads 999 (itemsOf s.options)).mapIdx fun i option =>
    ((payloads 2 (itemsOf option)).mapIdx fun j segment =>
      lackingParts s!"{s.path}options.uninterpreted_option[{i}].name[{j}]." segment).flatten).flatten

/-- The parts that names of options in the file lack. -/
def File.lacking (f : File) : List String := f.sites.flatMap (·.lacking)

end ContractShell.Descriptor
