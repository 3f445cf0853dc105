import ContractShell.Descriptor.Basic
import ContractShell.Descriptor.Format
import ContractShell.Text.Quoted

/-!
Files of type definitions from their bytes.

A byte string is a set of files or a single file. It is a set when it is well formed as one and holds at least one file,
all of them with names.
-/

namespace ContractShell.Descriptor

open Wire (Item itemsOf payloads lastPayload? joinedPayload? numbers packedNumbers signed choice?)

/-! ## 1. Parts -/

/-- A name, which is a text; bytes that are no text are shown between quotes. -/
def nameOf (b : Bytes) : String := (Text.Utf8.toString? b).getD (Text.quotedBytes b)

/-- The name in a part, if it is there. -/
def name? (number : Nat) (items : List Item) : Option String := (lastPayload? number items).map nameOf

/-- The name in a part, empty if it is not there. -/
def nameAt (number : Nat) (items : List Item) : String := (name? number items).getD ""

/-- The signed number of thirty-two bits in a part, if it is there. -/
def int? (number : Nat) (items : List Item) : Option Int := (numbers number items).getLast?.map (signed 32)

/-- The signed number of thirty-two bits in a part, zero if it is not there. -/
def intAt (number : Nat) (items : List Item) : Int := (int? number items).getD 0

/-- The truth value in a part, false if it is not there. -/
def flagAt (number : Nat) (items : List Item) : Bool := ((numbers number items).getLast?.map (· != 0)).getD false

/-- The range in a message whose first two parts are its ends. -/
def range (b : Bytes) : Int × Int := (intAt 1 (itemsOf b), intAt 2 (itemsOf b))

/-! ## 2. Definitions -/

/-- A field from its bytes. -/
def Field.ofBytes (b : Bytes) : Field :=
  let items := itemsOf b
  { name := nameAt 1 items
    number := intAt 3 items
    label := choice? Label.ofCode? 4 items
    type := choice? FieldType.ofCode? 5 items
    typeName := name? 6 items
    extendee := name? 2 items
    default := lastPayload? 7 items
    options := joinedPayload? 8 items
    oneofIndex := int? 9 items
    jsonName := name? 10 items
    ownOneof := flagAt 17 items }

/-- An enumeration from its bytes. -/
def Enumeration.ofBytes (b : Bytes) : Enumeration :=
  let items := itemsOf b
  let value (p : Bytes) : EnumValue := ⟨nameAt 1 (itemsOf p), intAt 2 (itemsOf p), joinedPayload? 3 (itemsOf p)⟩
  ⟨nameAt 1 items, (payloads 2 items).map value, (payloads 4 items).map range, joinedPayload? 3 items⟩

/-- A message type from its bytes, with at most `depth` levels of nested types. -/
def Message.ofBytesWithin : Nat → Bytes → Message
  | depth, b =>
    let items := itemsOf b
    { name := nameAt 1 items
      fields := (payloads 2 items).map Field.ofBytes
      extensions := (payloads 6 items).map Field.ofBytes
      nested := match depth with
        | 0 => []
        | d + 1 => (payloads 3 items).map (Message.ofBytesWithin d)
      enums := (payloads 4 items).map Enumeration.ofBytes
      oneofs := (payloads 8 items).map fun p => ⟨nameAt 1 (itemsOf p), joinedPayload? 2 (itemsOf p)⟩
      extensionRanges := (payloads 5 items).map fun p => ⟨(range p).1, (range p).2, joinedPayload? 3 (itemsOf p)⟩
      reserved := (payloads 9 items).map range
      options := joinedPayload? 7 items }

/-- A message type from its bytes. -/
def Message.ofBytes (b : Bytes) : Message := Message.ofBytesWithin Wire.maxDepth b

/-- A service from its bytes. -/
def Service.ofBytes (b : Bytes) : Service :=
  let items := itemsOf b
  let procedure (p : Bytes) : Procedure :=
    let parts := itemsOf p
    ⟨nameAt 1 parts, nameAt 2 parts, nameAt 3 parts, joinedPayload? 4 parts⟩
  ⟨nameAt 1 items, (payloads 2 items).map procedure, joinedPayload? 3 items⟩

/-- The numbers of the editions of the language of definitions. -/
def editionCodes : List Nat := [0, 1, 2, 900, 998, 999, 1000, 1001, 99997, 99998, 99999, 2147483647]

/-- The edition of a number. -/
def edition? (n : Nat) : Option Nat := if editionCodes.contains n then some n else none

/-- A file from its bytes. -/
def File.ofBytes (b : Bytes) : File :=
  let items := itemsOf b
  { name := nameAt 1 items
    package := nameAt 2 items
    dependencies := (payloads 3 items).map nameOf
    publicDependencies := (packedNumbers 10 items).map (signed 32)
    weakDependencies := (packedNumbers 11 items).map (signed 32)
    messages := (payloads 4 items).map Message.ofBytes
    enums := (payloads 5 items).map Enumeration.ofBytes
    services := (payloads 6 items).map Service.ofBytes
    extensions := (payloads 7 items).map Field.ofBytes
    dialect := name? 12 items
    edition := choice? edition? 14 items
    options := joinedPayload? 8 items }

/-! ## 3. Byte strings of definitions -/

/-- Why bytes are no definitions. -/
inductive BlobFault where
  /-- The bytes are malformed. -/
  | malformed
  /-- The bytes hold no file with a name. -/
  | unnamed
  deriving DecidableEq, Repr

/-- The files of a set, unless the bytes are malformed as one. -/
def filesOfSet? (b : Bytes) : Option (List File) :=
  if Wire.wellFormed formatLayouts fileSetType b then some ((payloads 1 (itemsOf b)).map File.ofBytes) else none

/-- A single file, unless the bytes are malformed as one. -/
def fileOf? (b : Bytes) : Option File :=
  if Wire.wellFormed formatLayouts fileType b then some (File.ofBytes b) else none

/-- The files that a byte string holds. -/
def filesOf (b : Bytes) : Except BlobFault (List File) :=
  let files := (filesOfSet? b).getD []
  if !files.isEmpty && files.all (fun f => !f.name.isEmpty) then .ok files
  else
    match fileOf? b with
    | none => .error .malformed
    | some f => if f.name.isEmpty then .error .unnamed else .ok [f]

end ContractShell.Descriptor
