import ContractShell.Descriptor.Basic
import ContractShell.Text.Utf8
import ContractShell.Wire.Item

/-!
Files of type definitions as bytes: the parts of every message in the order of their numbers.
-/

namespace ContractShell.Descriptor

open Wire (writeVarint writeDelimited)

/-! ## 1. Parts -/

/-- A text in a part. -/
def writeText (number : Nat) (s : String) : Bytes := writeDelimited number (Text.Utf8.ofString s)

/-- A part that is left out when it is empty. -/
def writeName (number : Nat) (s : String) : Bytes := if s.isEmpty then [] else writeText number s

/-- A part that is written only when it is given. -/
def writeOptional {α : Type} (write : Nat → α → Bytes) (number : Nat) (value : Option α) : Bytes :=
  (value.map (write number)).getD []

/-- A part that occurs once for every item of a list. -/
def writeEach {α : Type} (bytes : α → Bytes) (number : Nat) (items : List α) : Bytes :=
  items.flatMap fun x => writeDelimited number (bytes x)

/-- A number in a part; a negative one as its residue modulo `2 ^ 64`. -/
def writeInt (number : Nat) (n : Int) : Bytes := writeVarint number (n % 0x10000000000000000).toNat

/-- A range as a message of two parts. -/
def rangeBytes (r : Int × Int) : Bytes := writeInt 1 r.1 ++ writeInt 2 r.2

/-! ## 2. Definitions -/

/-- The bytes of a field. -/
def Field.bytes (f : Field) : Bytes :=
  writeName 1 f.name ++ writeOptional writeText 2 f.extendee ++ writeInt 3 f.number ++
    writeOptional (fun n l => writeVarint n (Label.code l)) 4 f.label ++
    writeOptional (fun n t => writeVarint n (FieldType.code t)) 5 f.type ++ writeOptional writeText 6 f.typeName ++
    writeOptional writeDelimited 7 f.default ++ writeOptional writeDelimited 8 f.options ++
    writeOptional writeInt 9 f.oneofIndex ++ writeOptional writeText 10 f.jsonName ++
    (if f.ownOneof then writeVarint 17 1 else [])

/-- The bytes of a value of an enumeration. -/
def EnumValue.bytes (v : EnumValue) : Bytes :=
  writeName 1 v.name ++ writeInt 2 v.number ++ writeOptional writeDelimited 3 v.options

/-- The bytes of a range for extensions. -/
def ExtensionRange.bytes (r : ExtensionRange) : Bytes :=
  writeInt 1 r.start ++ writeInt 2 r.stop ++ writeOptional writeDelimited 3 r.options

/-- The bytes of a oneof. -/
def Oneof.bytes (o : Oneof) : Bytes := writeName 1 o.name ++ writeOptional writeDelimited 2 o.options

/-- The bytes of a procedure. -/
def Procedure.bytes (p : Procedure) : Bytes :=
  writeName 1 p.name ++ writeName 2 p.input ++ writeName 3 p.output ++ writeOptional writeDelimited 4 p.options

/-- The bytes of an enumeration. -/
def Enumeration.bytes (e : Enumeration) : Bytes :=
  writeName 1 e.name ++ writeEach EnumValue.bytes 2 e.values ++ writeOptional writeDelimited 3 e.options ++
    writeEach rangeBytes 4 e.reserved

mutual

/-- The bytes of a message type. -/
def Message.bytes : Message → Bytes
  | ⟨name, fields, extensions, nested, enums, oneofs, extensionRanges, reserved, options⟩ =>
    writeName 1 name ++ writeEach Field.bytes 2 fields ++ nestedBytes nested ++ writeEach Enumeration.bytes 4 enums ++
      writeEach ExtensionRange.bytes 5 extensionRanges ++ writeEach Field.bytes 6 extensions ++
      writeOptional writeDelimited 7 options ++ writeEach Oneof.bytes 8 oneofs ++ writeEach rangeBytes 9 reserved

/-- The bytes of nested message types, each in its part. -/
def nestedBytes : List Message → Bytes
  | [] => []
  | m :: r => writeDelimited 3 m.bytes ++ nestedBytes r

end

/-- The bytes of a service. -/
def Service.bytes (s : Service) : Bytes :=
  writeName 1 s.name ++ writeEach Procedure.bytes 2 s.procedures ++ writeOptional writeDelimited 3 s.options

/-- The bytes of a file. -/
def File.bytes (f : File) : Bytes :=
  writeName 1 f.name ++ writeName 2 f.package ++ f.dependencies.flatMap (writeText 3) ++
    writeEach Message.bytes 4 f.messages ++ writeEach Enumeration.bytes 5 f.enums ++
    writeEach Service.bytes 6 f.services ++ writeEach Field.bytes 7 f.extensions ++
    writeOptional writeDelimited 8 f.options ++ f.publicDependencies.flatMap (writeInt 10) ++
    f.weakDependencies.flatMap (writeInt 11) ++ writeOptional writeText 12 f.dialect ++
    writeOptional Wire.writeVarint 14 f.edition

/-- The bytes of a set of files. -/
def setBytes (files : List File) : Bytes := writeEach File.bytes 1 files

end ContractShell.Descriptor
