import ContractShell.Descriptor.Format
import ContractShell.Descriptor.Standard
import ContractShell.Schema.Basic

/-!
Display hints: an option of bytes fields that says in which text form people write them.

The option is an extension of the options of fields. Its definition stands in a file of its own, which every library has.
-/

namespace ContractShell

open Descriptor (Standard.fileName)

/-- The hints, in the order of their numbers. -/
inductive BytesHint where
  | base64
  | base58
  | hex
  | blockId
  | transactionId
  | contractId
  | address
  deriving DecidableEq, Repr

namespace BytesHint

/-! ## 1. The option -/

/-- All hints, in the order of their numbers. -/
def all : List BytesHint := [.base64, .base58, .hex, .blockId, .transactionId, .contractId, .address]

/-- The number of a hint. -/
def code (h : BytesHint) : Nat := all.idxOf h

/-- The name of a hint. -/
def name : BytesHint → String
  | .base64 => "BASE64"
  | .base58 => "BASE58"
  | .hex => "HEX"
  | .blockId => "BLOCK_ID"
  | .transactionId => "TRANSACTION_ID"
  | .contractId => "CONTRACT_ID"
  | .address => "ADDRESS"

/-- The number of the option. -/
def optionNumber : Nat := 50000

/-- The options of a field that carry a hint and nothing else. -/
def options (h : BytesHint) : Bytes := Wire.writeVarint optionNumber h.code

/-- The hint that an item holds: a number in one of the three forms of numbers. -/
def ofItem? : Wire.Item → Option BytesHint
  | .varint _ v => all[v]?
  | .fixed32 _ v => all[v]?
  | .fixed64 _ v => all[v]?
  | .delimited _ _ => none
  | .group _ _ => none

/-- The hint in the options of a field: the first item of the option's number counts. -/
def ofOptions? (options : Bytes) : Option BytesHint :=
  ((Wire.itemsOf options).find? (·.number == optionNumber)).bind ofItem?

/-! ## 2. The definition of the option -/

/-- The name of the file. -/
def fileName : String := "koinos/options.proto"

/-- The enumeration of the hints. -/
def enumeration : Descriptor.Enumeration := ⟨"bytes_type", all.map fun h => ⟨h.name, h.code, none⟩, [], none⟩

/-- The extension that adds the option to the options of fields. -/
def extension : Descriptor.Field :=
  { name := "btype"
    number := optionNumber
    label := some .optional
    type := some .enum
    typeName := some ".koinos.bytes_type"
    extendee := some ("." ++ Descriptor.fieldOptionsType)
    default := none
    options := none
    oneofIndex := none
    jsonName := none
    ownOneof := false }

/-- The file that defines the option. -/
def file : Descriptor.File :=
  { Descriptor.File.blank fileName "koinos" with
    dependencies := [Standard.fileName]
    enums := [enumeration]
    extensions := [extension]
    dialect := some "proto3" }

end BytesHint

/-- The kind of a bytes field with a hint. Without one, and with the hint of base64, bytes are written in hexadecimal
without further meaning. -/
def LeafKind.ofHint : Option BytesHint → LeafKind
  | some .hex | some .blockId | some .transactionId => .bytesHex
  | some .base58 | some .contractId | some .address => .bytesAddress
  | some .base64 | none => .bytes

end ContractShell
