import ContractShell.Library.Basic
import ContractShell.Value.Reading

/-!
Messages from bytes.

Bytes that are a message of the type give a value for every field of the schema. Of a field that occurs more than once the
last occurrence counts, and the occurrences of a nested message are one message in parts. A field that does not occur has
its default value. Parts that the type does not know, or that are written in another way, mean nothing.
-/

namespace ContractShell

open Descriptor (shortName Default FieldType Slot Linked Pool)
open Wire (Item)

/-- Why bytes cannot be read. -/
inductive DecodeFault where
  /-- The message type is not linked. -/
  | unknownType (name : String)
  /-- The bytes are not a message of the type. -/
  | malformed (schema : String)
  /-- A message cannot be read at all. -/
  | misused (fault : Misfit)
  deriving DecidableEq, Repr

/-- The wording of a fault. -/
def DecodeFault.message : DecodeFault → String
  | .unknownType name => Text.withContext "could not find type" name
  | .malformed schema => Text.withContext "invalid value for field" (schema ++ " (malformed response: ...)")
  | .misused fault => fault.message

/-! ## 1. Plain fields -/

/-- Bytes as text. Bytes that are no text stay bytes. -/
def textValue (b : Bytes) : Value :=
  match Text.Utf8.toString? b with
  | some s => .text s
  | none => .bytes b

/-- The value of a varint in a field. -/
def ofVarint (type : FieldType) (n : Nat) : Value :=
  match type with
  | .bool => .bool (n != 0)
  | .int32 => .int (Wire.signed 32 n)
  | .int64 => .int (Wire.signed 64 n)
  | .uint32 => .int (n % 0x100000000 : Nat)
  | _ => .int n

/-- The value that a field has when it does not occur. -/
def defaultValue (slot : Slot) : Value :=
  match slot.type, slot.default with
  | .bool, .flag b => .bool b
  | .bool, _ => .bool false
  | .string, .bytes b => textValue b
  | .string, _ => .text ""
  | .bytes, .bytes b => .bytes b
  | .bytes, _ => .bytes []
  | _, .number n => .int n
  | _, _ => .int 0

/-- The value of a plain field among the items of its message. -/
def leafValue (slot : Slot) (items : List Item) : Value :=
  match slot.type with
  | .string => ((Wire.lastPayload? slot.number items).map textValue).getD (defaultValue slot)
  | .bytes => ((Wire.lastPayload? slot.number items).map Value.bytes).getD (defaultValue slot)
  | type => ((Wire.numbers slot.number items).getLast?.map (ofVarint type)).getD (defaultValue slot)

/-! ## 2. Oneofs -/

/-- An item is written in the way of a field's type. -/
def fits (slot : Slot) : Item → Bool
  | .varint n _ => n == slot.number && slot.type.isVarint
  | .delimited n _ => n == slot.number && (slot.type == .string || slot.type == .bytes || slot.type == .message)
  | .fixed64 n _ => n == slot.number && (slot.type == .fixed64 || slot.type == .sfixed64 || slot.type == .double)
  | .fixed32 n _ => n == slot.number && (slot.type == .fixed32 || slot.type == .sfixed32 || slot.type == .float)
  | .group n _ => n == slot.number && slot.type == .group

/-- Two numbers belong to different fields of one oneof. -/
def areRivals (linked : Linked) (a b : Nat) : Bool :=
  a != b && linked.slots.any fun s => s.number == a && s.oneof.isSome &&
    linked.slots.any fun t => t.number == b && t.oneof == s.oneof

/-- Adds an item to those that count: an item of a oneof puts out the other fields of the oneof. -/
def settleItem (linked : Linked) (done : List Item) (i : Item) : List Item :=
  if linked.slots.any fun s => s.oneof.isSome && fits s i then
    (done.filter fun j => !areRivals linked i.number j.number) ++ [i]
  else done ++ [i]

/-- The items that count. -/
def settle (linked : Linked) (items : List Item) : List Item :=
  if linked.slots.any (·.oneof.isSome) then items.foldl (settleItem linked) [] else items

/-! ## 3. Messages -/

/-- The bytes of a nested message. -/
def nestedBytesOf (slot : Slot) (items : List Item) : Bytes :=
  if slot.type = .group then Wire.joinedContent slot.number items
  else (Wire.joinedPayload? slot.number items).getD []

mutual

/-- The value that the items of a message give for a schema and the linked message type of a full name. -/
def Schema.valueOf (pool : Pool) (type : String) : Schema → List Item → Value
  | .mk _ fields, items =>
    match pool.find? type with
    | none => .message []
    | some linked => .message (fieldValues pool linked (settle linked items) fields [])

/-- Adds the members for a list of fields. -/
def fieldValues (pool : Pool) (linked : Linked) (items : List Item) :
    List Field → List (String × Value) → List (String × Value)
  | [], done => done
  | f :: r, done =>
    match fieldValue? pool linked items f with
    | none => fieldValues pool linked items r done
    | some v => fieldValues pool linked items r (Value.setMember f.name v done)

/-- The value of a field, if the message type has the field. -/
def fieldValue? (pool : Pool) (linked : Linked) (items : List Item) : Field → Option Value
  | .leaf name _ => (linked.slot? name).map fun slot => leafValue slot items
  | .message name schema =>
    match linked.slot? name with
    | none => none
    | some slot => some (schema.valueOf pool slot.target (Wire.itemsOf (nestedBytesOf slot items)))
  | .unknown _ => none

end

/-- The name of a field that hides the operation by which a message is read. -/
def readingOperation : String := "ParseFromString"

/-- The name of the sort of value that a field of a new message holds. -/
def Descriptor.Slot.freshKindName (slot : Slot) : String :=
  if slot.type.isMessage then shortName slot.target else (defaultValue slot).kindName

/-- The message that bytes denote. The schema without a name has no fields, whatever the bytes are. -/
def Library.decode (lib : Library) (schema : Schema) (b : Bytes) : Except DecodeFault Value :=
  if schema.name.isEmpty then .ok (.message [])
  else
    let type := Library.bareName schema.name
    match lib.pool.find? type with
    | none => .error (.unknownType type)
    | some linked =>
      -- A new message holds the default in a field of this name, which cannot be called either.
      match linked.slot? readingOperation with
      | some field => .error (.misused (.hiddenOperation field.freshKindName))
      | none =>
        if Wire.wellFormed lib.pool.layouts type b then .ok (schema.valueOf lib.pool type (Wire.itemsOf b))
        else .error (.malformed schema.name)

end ContractShell
