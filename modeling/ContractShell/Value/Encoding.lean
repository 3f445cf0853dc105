import ContractShell.Library.Basic
import ContractShell.Value.Binding

/-!
Messages as bytes.

Every field of the schema is put in schema order into the linked message type, and the parts come out in the order of
their numbers. A field of a oneof takes the place of the one put there before it. A field without presence of its own is
left out when it is zero or empty; nested messages are always there.
-/

namespace ContractShell

open Descriptor (shortName FieldType Slot Linked Pool)
open Wire (Item)

/-! ## 1. Faults -/

/-- Why a value cannot be written. -/
inductive EncodeFault where
  /-- The message type is not linked. -/
  | unknownType (name : String)
  /-- The value lacks a field. -/
  | lacking (field : String)
  /-- The linked message type lacks a field. -/
  | noField (type field : String)
  /-- A field does not take a value. -/
  | unfit (field : String) (fault : Misfit)
  /-- Bytes in a field for text are no text. -/
  | notText (field : String) (fault : Text.Utf8.Fault)
  /-- The type of a field is none that a schema has. -/
  | strangeType (field : String)
  /-- A field that holds a message, or any number of values, takes no single value. -/
  | unassignable (field : String)
  /-- What a field holds is not a message. -/
  | noMessage (kind : String)
  /-- A value cannot be used at all. -/
  | misused (fault : Misfit)
  /-- Required fields lack in the message of a type, or in messages inside it. -/
  | incomplete (schema type : String) (paths : List String)
  /-- Messages lie in each other too deep. -/
  | tooDeep (schema : String)
  /-- The bytes of the message are too many. -/
  | tooLarge (schema : String)
  deriving DecidableEq, Repr

/-- The wording of a fault. -/
def EncodeFault.message : EncodeFault → String
  | .unknownType name => Text.withContext "could not find type" name
  | .lacking field => Text.quotedString field
  | .noField type field => s!"Protocol message {shortName type} has no \"{field}\" field."
  | .unfit field fault => Text.withContext "invalid value for field" (field ++ " (" ++ fault.message ++ ")")
  | .notText field fault => Text.withContext "invalid value for field" (field ++ " (" ++ fault.message ++ ")")
  | .strangeType field => Text.withContext "invalid value for field" field
  | .unassignable field =>
    s!"Assignment not allowed to message, map, or repeated field \"{field}\" in protocol message object."
  | .noMessage kind => s!"'{kind}' object has no attribute 'SetInParent'"
  | .misused fault => fault.message
  | .incomplete schema type paths =>
    Text.withContext "invalid value for field"
      (schema ++ " (Message " ++ type ++ " is missing required fields: " ++ String.intercalate "," paths ++ ")")
  | .tooDeep schema | .tooLarge schema =>
    Text.withContext "invalid value for field" (schema ++ " (Failed to serialize proto)")

/-! ## 2. Plain fields -/

/-- The range of an integer type, its second end left out; other types have none. -/
def integerRange? : FieldType → Option (Int × Int)
  | .int32 => some (-0x80000000, 0x80000000)
  | .int64 => some (-0x8000000000000000, 0x8000000000000000)
  | .uint32 => some (0, 0x100000000)
  | .uint64 => some (0, 0x10000000000000000)
  | _ => none

/-- An integer as a varint: a negative one as its residue modulo `2 ^ 64`. -/
def residue (n : Int) : Nat := (n % 0x10000000000000000).toNat

/-- An item, or nothing when the value is zero and the field has no presence of its own. -/
def unlessImplied (slot : Slot) (isZero : Bool) (i : Item) : Option Item :=
  if isZero && !slot.hasPresence then none else some i

/-- The item of an integer in a field of a message type. -/
def integerItem (owner : String) (slot : Slot) (range : Int × Int) : Value → Except EncodeFault (Option Item)
  | .int n =>
    if range.1 ≤ n ∧ n < range.2 then .ok (unlessImplied slot (n == 0) (.varint slot.number (residue n)))
    else .error (.unfit slot.name (.outOfRange n))
  | .bool _ => .error (.unfit slot.name (.truthForInteger (owner ++ "." ++ slot.name)))
  | v => .error (.unfit slot.name (.noInteger v.kindName))

/-- The truth value that a field for truth values takes from a value. -/
def flagOf (slot : Slot) : Value → Except EncodeFault Bool
  | .bool b => .ok b
  | .int n => if -0x8000000000000000 ≤ n ∧ n < 0x8000000000000000 then .ok (n != 0) else .error (.misused .flagTooLarge)
  | v => .error (.unfit slot.name (.noInteger v.kindName))

/-- The item of a truth value. -/
def flagItem (slot : Slot) (b : Bool) : Option Item :=
  unlessImplied slot (!b) (.varint slot.number (if b then 1 else 0))

/-- The item of a byte string. -/
def bytesItem (slot : Slot) (b : Bytes) : Option Item := unlessImplied slot b.isEmpty (.delimited slot.number b)

/-- The item of a plain value in a field of a message type, if it is written at all. -/
def leafItem (owner : String) (slot : Slot) (v : Value) : Except EncodeFault (Option Item) :=
  if slot.repeated || slot.type.isMessage then .error (.unassignable slot.name)
  else
    match slot.type, v with
    | .bool, v => (flagOf slot v).map (flagItem slot)
    | .string, .text s => .ok (bytesItem slot (Text.Utf8.ofString s))
    | .string, .bytes b =>
      match Text.Utf8.decode b with
      | .ok _ => .ok (bytesItem slot b)
      | .error fault => .error (.notText slot.name fault)
    | .string, _ => .error (.unfit slot.name .notText)
    | .bytes, .bytes b => .ok (bytesItem slot b)
    | .bytes, v => .error (.unfit slot.name (.notBytes v.kindName))
    | type, v =>
      match integerRange? type with
      | some range => integerItem owner slot range v
      | none => .error (.strangeType slot.name)

/-! ## 3. Messages -/

/-- A part of a message. -/
structure Part where
  /-- The oneof that it belongs to. -/
  oneof : Option Nat
  item : Item
  /-- How deep messages lie in it. -/
  depth : Nat
  /-- The required fields that lack in it. -/
  lacks : List String
  deriving DecidableEq, Repr

/-- Writes a part after others. It takes the place of a part of its oneof. -/
def putPart (p : Part) (parts : List Part) : List Part :=
  (match p.oneof with
   | none => parts
   | some _ => parts.filter fun q => q.oneof != p.oneof) ++ [p]

/-- Parts in the order of their numbers. -/
def sortedParts (parts : List Part) : List Part := parts.mergeSort fun a b => a.item.number ≤ b.item.number

/-- The items of parts in the order of their numbers. -/
def sortedItems (parts : List Part) : List Item := (sortedParts parts).map (·.item)

/-- The bytes of parts in the order of their numbers. -/
def joinParts (parts : List Part) : Bytes := (sortedItems parts).flatMap Item.write

/-- How deep messages lie in a message of these parts. -/
def partsDepth (parts : List Part) : Nat := parts.foldl (fun d p => max d p.depth) 0

/-- The required fields that lack in a message of these parts: its own, and those in messages inside it. -/
def lackingIn (linked : Linked) (parts : List Part) : List String :=
  let own := linked.slots.filter fun s => s.required && parts.all (·.item.number != s.number)
  own.map (·.name) ++ (sortedParts parts).flatMap (·.lacks)

/-- The name of a field that hides the operation by which a nested message is put into the one around it. -/
def placingOperation : String := "SetInParent"

/-- The name of a field that hides the operation by which a message is written. -/
def writingOperation : String := "SerializeToString"

/-- The name of the sort of value that a field holds when it is set; a message goes by the name of its type. -/
def Descriptor.Slot.kindName (slot : Slot) : String :=
  match slot.type with
  | .bool => "bool"
  | .string => "str"
  | .bytes => "bytes"
  | .message | .group => shortName slot.target
  | .double | .float => "float"
  | _ => "int"

/-- The name of the sort of thing that a field of a message holds before it is set. -/
def Descriptor.Slot.holderName (slot : Slot) : String :=
  if slot.repeated then
    "google._upb._message." ++ if slot.type.isMessage then "RepeatedCompositeContainer" else "RepeatedScalarContainer"
  else slot.kindName

/-- The part of a nested message of a linked type. -/
def nestedPart (slot : Slot) (linked : Linked) (inner : List Part) : Part :=
  let b := joinParts inner
  ⟨slot.oneof, if slot.type = .group then .group slot.number b else .delimited slot.number b, partsDepth inner + 1,
    (lackingIn linked inner).map fun path => slot.name ++ "." ++ path⟩

/-- The member of a name, which the value must have. -/
def memberOf (name : String) (v : Value) : Except EncodeFault Value :=
  match v.lookUp name with
  | .error fault => .error (.misused fault)
  | .ok none => .error (.lacking name)
  | .ok (some item) => .ok item

mutual

/-- The parts of a message, for the linked message type of a full name. -/
def Schema.parts (pool : Pool) (type : String) : Schema → Value → Except EncodeFault (List Part)
  | .mk _ fields, v =>
    match pool.find? type with
    | none => .error (.unknownType type)
    | some linked => fieldParts pool linked v fields []

/-- Puts the parts of a list of fields after others. -/
def fieldParts (pool : Pool) (linked : Linked) (v : Value) : List Field → List Part → Except EncodeFault (List Part)
  | [], done => .ok done
  | f :: r, done =>
    match fieldPart pool linked v f with
    | .error fault => .error fault
    | .ok none => fieldParts pool linked v r done
    | .ok (some p) => fieldParts pool linked v r (putPart p done)

/-- The part of a field, if it is written at all. -/
def fieldPart (pool : Pool) (linked : Linked) (v : Value) : Field → Except EncodeFault (Option Part)
  | .leaf name _ =>
    match memberOf name v with
    | .error fault => .error fault
    | .ok item =>
      match linked.slot? name with
      | none => .error (.noField linked.name name)
      | some slot => (leafItem linked.name slot item).map fun o => o.map fun i => ⟨slot.oneof, i, 0, []⟩
  | .message name schema =>
    match memberOf name v with
    | .error fault => .error fault
    | .ok item =>
      match linked.slot? name with
      | none => .error (.noField linked.name name)
      | some slot =>
        if slot.repeated || !slot.type.isMessage then .error (.noMessage slot.holderName)
        else
          match pool.find? slot.target with
          | none => .error (.unknownType slot.target)
          | some inner =>
            -- The message is put in its place before any of its fields is looked at.
            match inner.slot? placingOperation with
            | some field => .error (.misused (.hiddenOperation field.kindName))
            | none =>
              match schema.parts pool slot.target item with
              | .error fault => .error fault
              | .ok parts => .ok (some (nestedPart slot inner parts))
  | .unknown name =>
    match memberOf name v with
    | .error fault => .error fault
    | .ok _ =>
      match linked.slot? name with
      | none => .error (.noField linked.name name)
      | some slot =>
        if slot.repeated || !slot.type.isMessage then .error (.noMessage slot.holderName)
        else .error (.misused .noSchema)

end

/-- The most bytes of a message. -/
def maxMessageSize : Nat := 0x7FFFFFFF

/-- The bytes of a message. The schema without a name has none. -/
def Library.encode (lib : Library) (schema : Schema) (v : Value) : Except EncodeFault Bytes :=
  if schema.name.isEmpty then .ok []
  else
    let type := Library.bareName schema.name
    match lib.pool.find? type with
    | none => .error (.unknownType type)
    | some linked =>
      match schema.parts lib.pool type v with
      | .error fault => .error fault
      | .ok parts =>
        -- A field of this name stands in the place of the operation, and what it holds cannot be called.
        match linked.slot? writingOperation with
        | some field => .error (.misused (.hiddenOperation field.kindName))
        | none =>
          if !(lackingIn linked parts).isEmpty then
            .error (.incomplete schema.name linked.name (lackingIn linked parts))
          else if Wire.maxDepth ≤ partsDepth parts then .error (.tooDeep schema.name)
          else if maxMessageSize < (joinParts parts).length then .error (.tooLarge schema.name)
          else .ok (joinParts parts)

end ContractShell
