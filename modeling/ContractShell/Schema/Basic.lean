import ContractShell.Descriptor.Basic
import ContractShell.Text.Quoted

/-!
Schemas: the ordered, named and typed fields of a message.

A field holds one plain value or another message. The empty name stands for a method that takes or returns nothing.
-/

namespace ContractShell

/-! ## 1. Fields -/

/-- The kinds of plain fields. The three kinds of bytes differ in how they are written. -/
inductive LeafKind where
  | bool
  | int
  | uint
  | string
  | bytes
  | bytesHex
  | bytesAddress
  deriving DecidableEq, Repr

/-- The name of a kind. -/
def LeafKind.name : LeafKind → String
  | .bool => "bool"
  | .int => "int"
  | .uint => "uint"
  | .string => "string"
  | .bytes => "bytes"
  | .bytesHex => "bytes-hex"
  | .bytesAddress => "bytes-address"

/-- All kinds of plain fields. -/
def LeafKind.all : List LeafKind := [.bool, .int, .uint, .string, .bytes, .bytesHex, .bytesAddress]

/-- The kind of a name. -/
def LeafKind.ofName? (name : String) : Option LeafKind := LeafKind.all.find? (·.name == name)

mutual

/-- A message type: its full name and its fields. -/
inductive Schema where
  | mk (name : String) (fields : List Field)

/-- A field of a message. -/
inductive Field where
  /-- A plain value. -/
  | leaf (name : String) (kind : LeafKind)
  /-- A message. -/
  | message (name : String) (schema : Schema)
  /-- A message whose schema is not known. -/
  | unknown (name : String)

end

namespace Schema

/-- The full name of the message type. -/
def name : Schema → String
  | .mk n _ => n

/-- The fields of the message type. -/
def fields : Schema → List Field
  | .mk _ fs => fs

/-- The schema of a method that takes or returns nothing. -/
def empty : Schema := .mk "" []

instance : Inhabited Schema := ⟨empty⟩

end Schema

namespace Field

/-- The name of a field. -/
def name : Field → String
  | .leaf n _ => n
  | .message n _ => n
  | .unknown n => n

/-- The name of a field's kind. -/
def kindName : Field → String
  | .leaf _ k => k.name
  | .message _ _ => "message"
  | .unknown _ => "message"

instance : Inhabited Field := ⟨.unknown ""⟩

end Field

/-! ## 2. Methods -/

/-- A method: what it takes and returns, the number that selects it, and whether it only reads. -/
structure Method where
  name : String
  arguments : Schema
  result : Schema
  entryPoint : Nat
  readOnly : Bool
  description : String

/-! ## 3. Faults -/

/-- Why there is no schema. -/
inductive SchemaFault where
  /-- No file declares the type. -/
  | unknownType (name : String)
  /-- The type contains itself. -/
  | recursive (name : String)
  /-- A field occurs any number of times. -/
  | repeated (type : Descriptor.FieldType)
  /-- A field is of a type without a kind. -/
  | unsupported (type : Descriptor.FieldType)
  /-- The schema of a field's message is not known. -/
  | noSchema (field : String)
  deriving DecidableEq, Repr

/-- The wording of a fault. -/
def SchemaFault.message : SchemaFault → String
  | .unknownType name => Text.withContext "could not find type" name
  | .recursive name => Text.withContext "unsupported field type" ("recursive message " ++ name)
  | .repeated type => Text.withContext "unsupported field type" ("repeated " ++ type.name)
  | .unsupported type => Text.withContext "unsupported field type" type.name
  | .noSchema field => Text.withContext "unsupported field type" (field ++ " has no message schema")

end ContractShell
