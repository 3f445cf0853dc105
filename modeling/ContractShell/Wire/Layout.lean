import ContractShell.Text.Utf8
import ContractShell.Wire.Item

/-!
Which bytes are a message of a type: their items can be read, nested messages are themselves well formed, and text that
has to be UTF-8 is.

Items that the type does not know, or that are written in another way than the type says, are allowed and mean nothing. A
container has one sort of item: a group with the number of an extension and a payload, in either order.
-/

namespace ContractShell.Wire

/-! ## 1. Layouts -/

/-- What the content of a numbered part has to be. -/
inductive Shape where
  /-- UTF-8 text. -/
  | text
  /-- Varints one after the other. -/
  | packed
  /-- A message of a type, with its length in front. -/
  | message (type : String)
  /-- A message of a type, as a group. -/
  | group (type : String)
  deriving DecidableEq, Repr

/-- The parts of a type whose contents are checked. -/
structure Layout where
  parts : List (Nat × Shape)
  /-- The parts are extensions, each in a group of its own with its number and its payload. -/
  isContainer : Bool
  deriving Repr

/-- The layouts of types. -/
abbrev Layouts := List (String × Layout)

/-- The layout of a type. One that is not known has no parts. -/
def Layouts.layoutOf (layouts : Layouts) (type : String) : Layout :=
  ((layouts.find? (·.1 == type)).map (·.2)).getD ⟨[], false⟩

/-- What the content of a part has to be. -/
def Layout.shape? (layout : Layout) (number : Nat) : Option Shape :=
  (layout.parts.find? (·.1 == number)).map (·.2)

/-- The varints that a payload consists of. -/
def varints? (s : Bytes) : Option (List Nat) :=
  if s.isEmpty then some []
  else
    match h : readVarint? s with
    | none => none
    | some (n, r) =>
      have : r.length < s.length := readVarint?_length_lt h
      (varints? r).map (n :: ·)
termination_by s.length

/-- How deep messages and groups may lie in each other. -/
def maxDepth : Nat := 100

/-! ## 2. Looking at items -/

/-- The payloads of a part. -/
def payloads (number : Nat) (items : List Item) : List Bytes :=
  items.filterMap fun i =>
    match i with
    | .delimited n p => if n = number then some p else none
    | _ => none

/-- The payload of a part that occurs once; of several, the last counts. -/
def lastPayload? (number : Nat) (items : List Item) : Option Bytes := (payloads number items).getLast?

/-- The bytes of a nested message: several occurrences are one message in parts. -/
def joinedPayload? (number : Nat) (items : List Item) : Option Bytes :=
  match payloads number items with
  | [] => none
  | ps => some ps.flatten

/-- The bytes of a nested message that is written as a group: several occurrences are one message in parts. -/
def joinedContent (number : Nat) (items : List Item) : Bytes :=
  items.flatMap fun i =>
    match i with
    | .group n c => if n = number then c else []
    | _ => []

/-- The varints of a part. -/
def numbers (number : Nat) (items : List Item) : List Nat :=
  items.filterMap fun i =>
    match i with
    | .varint n v => if n = number then some v else none
    | _ => none

/-- The varints of a part that may be packed. -/
def packedNumbers (number : Nat) (items : List Item) : List Nat :=
  items.flatMap fun i =>
    match i with
    | .varint n v => if n = number then [v] else []
    | .delimited n p => if n = number then (varints? p).getD [] else []
    | _ => []

/-- The choice in a part: of its numbers, the last one that stands for a choice. -/
def choice? {α : Type} (ofCode? : Nat → Option α) (number : Nat) (items : List Item) : Option α :=
  ((numbers number items).filterMap fun n => ofCode? (n % 0x100000000)).getLast?

/-- A number of `bits` bits as a signed one. -/
def signed (bits n : Nat) : Int :=
  let low := n % Nat.pow 2 bits
  if low < Nat.pow 2 (bits - 1) then low else (low : Int) - Nat.pow 2 bits

/-! ## 3. Well-formed messages -/

/-- The number of the groups in a container. -/
def entryNumber : Nat := 1

/-- The number of an extension and its payload in the items of a group of a container: the first of each count. -/
def entry? (items : List Item) : Option (Nat × Bytes) := do
  let number ← (numbers 2 items).head?
  let payload ← (payloads 3 items).head?
  return (number % 0x100000000, payload)

/-- The content of an item has the shape that the layout asks for. `inner` says which bytes are a message of a type one
level down. -/
def contentFits (layout : Layout) (inner : String → Bytes → Bool) : Item → Bool
  | .delimited n payload =>
    match layout.shape? n with
    | some .text => Text.Utf8.valid payload
    | some .packed => (varints? payload).isSome
    | some (.message type) => inner type payload
    | _ => true
  | .group n content =>
    match layout.shape? n with
    | some (.group type) => inner type content
    | _ => true
  | _ => true

/-- A group of a container fits: the payload of an extension that is known is a message of its type. `outer` says which
bytes are a message of a type at the uppermost level. -/
def entryFits (layout : Layout) (outer : String → Bytes → Bool) : Item → Bool
  | .group n content =>
    if n = entryNumber then
      match entry? ((items? maxDepth content).getD []) with
      | none => true
      | some (number, payload) =>
        match layout.shape? number with
        | some (.message type) | some (.group type) => outer type payload
        | _ => true
    else true
  | _ => true

/-- Bytes are a message of a type, with at most `depth` levels below it. A nested message is shorter than the one around
it, so `fuel` need not exceed the number of bytes. -/
def wellFormedWithin (layouts : Layouts) (fuel depth : Nat) (type : String) (s : Bytes) : Bool :=
  match items? depth s with
  | none => false
  | some items =>
    let layout := layouts.layoutOf type
    match fuel with
    | 0 => items.isEmpty
    | f + 1 =>
      if layout.isContainer then items.all (entryFits layout fun t p => wellFormedWithin layouts f maxDepth t p)
      else items.all (contentFits layout fun t p => depth != 0 && wellFormedWithin layouts f (depth - 1) t p)

/-- Bytes are a message of a type. -/
def wellFormed (layouts : Layouts) (type : String) (s : Bytes) : Bool :=
  wellFormedWithin layouts s.length maxDepth type s

/-- The items of a message that is known to be well formed. -/
def itemsOf (s : Bytes) : List Item := (items? maxDepth s).getD []

end ContractShell.Wire
