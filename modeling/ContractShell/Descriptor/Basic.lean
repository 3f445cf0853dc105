import ContractShell.Bytes.Basic

/-!
Descriptors: how files of type definitions describe messages, enumerations, extensions and services.

Names are kept as they were found; whether they are usable is checked when a file is linked. Options are kept as bytes.
-/

namespace ContractShell.Descriptor

/-! ## 1. Fields -/

/-- The declared types of fields. -/
inductive FieldType where
  | double
  | float
  | int64
  | uint64
  | int32
  | fixed64
  | fixed32
  | bool
  | string
  | group
  | message
  | bytes
  | uint32
  | enum
  | sfixed32
  | sfixed64
  | sint32
  | sint64
  deriving DecidableEq, Repr

namespace FieldType

/-- The types in the order of their numbers, which start at one. -/
def all : List FieldType := [
  .double, .float, .int64, .uint64, .int32, .fixed64, .fixed32, .bool, .string, .group, .message, .bytes, .uint32, .enum,
  .sfixed32, .sfixed64, .sint32, .sint64]

/-- The number of a type. -/
def code (t : FieldType) : Nat := all.idxOf t + 1

/-- The type of a number. -/
def ofCode? : Nat → Option FieldType
  | 0 => none
  | n + 1 => all[n]?

/-- The name of a type. -/
def name : FieldType → String
  | .double => "double"
  | .float => "float"
  | .int64 => "int64"
  | .uint64 => "uint64"
  | .int32 => "int32"
  | .fixed64 => "fixed64"
  | .fixed32 => "fixed32"
  | .bool => "bool"
  | .string => "string"
  | .group => "group"
  | .message => "message"
  | .bytes => "bytes"
  | .uint32 => "uint32"
  | .enum => "enum"
  | .sfixed32 => "sfixed32"
  | .sfixed64 => "sfixed64"
  | .sint32 => "sint32"
  | .sint64 => "sint64"

/-- The type refers to another definition. -/
def isNamed : FieldType → Bool
  | .message | .group | .enum => true
  | _ => false

/-- The type is a message inside the message. -/
def isMessage : FieldType → Bool
  | .message | .group => true
  | _ => false

/-- The type is written as a varint. -/
def isVarint : FieldType → Bool
  | .int64 | .uint64 | .int32 | .bool | .uint32 | .enum | .sint32 | .sint64 => true
  | _ => false

end FieldType

/-- How often a field occurs. -/
inductive Label where
  | optional
  | required
  | repeated
  deriving DecidableEq, Repr

/-- The number of a label. -/
def Label.code : Label → Nat
  | .optional => 1
  | .required => 2
  | .repeated => 3

/-- The label of a number. -/
def Label.ofCode? : Nat → Option Label
  | 1 => some .optional
  | 2 => some .required
  | 3 => some .repeated
  | _ => none

/-- A field of a message, or an extension. -/
structure Field where
  name : String
  number : Int
  label : Option Label
  type : Option FieldType
  /-- The definition that a type of message or enumeration refers to. -/
  typeName : Option String
  /-- The message that an extension belongs to. -/
  extendee : Option String
  default : Option Bytes
  options : Option Bytes
  oneofIndex : Option Int
  jsonName : Option String
  /-- The field tells whether it was given by a oneof of its own. -/
  ownOneof : Bool
  deriving DecidableEq, Repr

/-- The label that holds: optional, if none is given. -/
def Field.effectiveLabel (f : Field) : Label := f.label.getD .optional

/-- The type that holds: the first one, if none is given. -/
def Field.effectiveType (f : Field) : FieldType := f.type.getD .double

/-! ## 2. Definitions -/

/-- A value of an enumeration. -/
structure EnumValue where
  name : String
  number : Int
  options : Option Bytes
  deriving DecidableEq, Repr

/-- An enumeration: its values, and the ranges of reserved numbers, both ends included. -/
structure Enumeration where
  name : String
  values : List EnumValue
  reserved : List (Int × Int)
  options : Option Bytes
  deriving DecidableEq, Repr

/-- The names of an enumeration's values with their numbers. -/
def Enumeration.numbers (e : Enumeration) : List (String × Int) := e.values.map fun v => (v.name, v.number)

/-- A range of numbers for extensions, its second end left out. -/
structure ExtensionRange where
  start : Int
  stop : Int
  options : Option Bytes
  deriving DecidableEq, Repr

/-- A group of fields of which at most one is given. -/
structure Oneof where
  name : String
  options : Option Bytes
  deriving DecidableEq, Repr

/-- A message type. The ranges of reserved numbers leave out their second end. -/
structure Message where
  name : String
  fields : List Field
  extensions : List Field
  nested : List Message
  enums : List Enumeration
  oneofs : List Oneof
  extensionRanges : List ExtensionRange
  reserved : List (Int × Int)
  options : Option Bytes
  deriving Repr

/-- A method of a service, with the messages that it takes and returns. -/
structure Procedure where
  name : String
  input : String
  output : String
  options : Option Bytes
  deriving DecidableEq, Repr

/-- A service. -/
structure Service where
  name : String
  procedures : List Procedure
  options : Option Bytes
  deriving DecidableEq, Repr

/-- A file of type definitions. -/
structure File where
  name : String
  package : String
  dependencies : List String
  publicDependencies : List Int
  weakDependencies : List Int
  messages : List Message
  enums : List Enumeration
  services : List Service
  extensions : List Field
  dialect : Option String
  edition : Option Nat
  options : Option Bytes
  deriving Repr

/-- A file without definitions. -/
def File.blank (name package : String) : File :=
  ⟨name, package, [], [], [], [], [], [], [], none, none, none⟩

/-- The third dialect, in which fields have no default values of their own. -/
def File.isThird (f : File) : Bool := f.dialect == some "proto3"

/-- The dialect that says its edition, and lets definitions choose features. -/
def File.hasEdition (f : File) : Bool := f.dialect == some "editions"

end ContractShell.Descriptor
