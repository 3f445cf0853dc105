import ContractShell.Bytes.Basic
import ContractShell.Command.Line
import ContractShell.Number.Integer
import ContractShell.Schema.Basic
import ContractShell.Value.Reading

/-!
Binding: messages from the flat texts that people type, and back.

All messages of a schema take their plain fields from one map by name. The first field in order that has no text, or an
unfit one, is reported.

A message is shown as lines of text: one for every plain field, and for every nested message its lines between two braces.
Text is written with its quotes and escapes, so no line holds a line end.

## Main statements

* `hexText_length`: bytes are shown as a mark and two digits each.
-/

namespace ContractShell

open Command (Values)

/-! ## 1. Bytes as typed -/

/-- Why a text does not denote bytes. -/
inductive HexFault where
  /-- The text is not a run of hexadecimal digits with an optional mark. -/
  | notHex
  /-- The number of digits is odd. -/
  | oddDigits (count : Nat)
  deriving DecidableEq, Repr

/-- The wording of a fault. -/
def HexFault.message : HexFault → String
  | .notHex => "not a hex string"
  | .oddDigits n => s!"non-hexadecimal number found in fromhex() arg at position {n}"

/-- The mark that may stand in front of hexadecimal digits. -/
def hexMark : List Char := ['0', 'x']

/-- A text without the mark in front of it. -/
def dropHexMark : List Char → List Char
  | '0' :: 'x' :: r => r
  | s => s

/-- The bytes of a text: hexadecimal digits, with a mark in front or without one, or nothing at all. -/
def bytesOfHexText (text : String) : Except HexFault Bytes :=
  match text.toList with
  | [] => .ok []
  | s =>
    match Command.hex? s with
    | some (_, []) =>
      match Hex.decode? (dropHexMark s) with
      | some b => .ok b
      | none => .error (.oddDigits (dropHexMark s).length)
    | _ => .error .notHex

/-- The text of bytes: the mark and the digits. -/
def hexText (b : Bytes) : String := String.ofList (hexMark ++ Hex.encode b)

/-- Bytes are shown as a mark and two digits each. -/
theorem hexText_length (b : Bytes) : (hexText b).toList.length = 2 + 2 * b.length := by
  simp [hexText, hexMark, Hex.length_encode]
  omega

/-! ## 2. Plain fields -/

/-- Why a text does not denote the value of a field. -/
inductive TextFault where
  | notAnInteger
  | notUnsigned
  | hex (fault : HexFault)
  | notBase58
  deriving DecidableEq, Repr

/-- What a fault says. -/
def TextFault.detail : TextFault → String
  | .notAnInteger => "expected an integer"
  | .notUnsigned => "expected an unsigned integer"
  | .hex f => f.message
  | .notBase58 => "expected base58"

/-- Why texts do not make a message, or a message no texts. -/
inductive BindFault where
  /-- There is nothing for a field. -/
  | missing (field : String)
  /-- The text for a field does not denote a value of its kind. -/
  | invalid (field : String) (fault : TextFault)
  /-- A numeral is too long to read. -/
  | numeral (fault : Integer.Fault)
  /-- The schema of a nested message is not known. -/
  | noSchema
  /-- A value is not of the sort that the schema says. -/
  | misfit (fault : Misfit)
  deriving DecidableEq, Repr

/-- The wording of a fault. -/
def BindFault.message : BindFault → String
  | .missing field => Text.withContext "missing value for field" field
  | .invalid field fault => Text.withContext "invalid value for field" (field ++ " (" ++ fault.detail ++ ")")
  | .numeral fault => fault.message
  | .noSchema => "'NoneType' object has no attribute 'fields'"
  | .misfit fault => fault.message

/-- The integer of a text that is one as a whole. -/
def bindInteger (signed : Bool) (field text : String) : Except BindFault Value :=
  match Command.integer? signed text.toList with
  | some (_, []) =>
    match Integer.read 10 text with
    | .ok n => .ok (.int n)
    | .error fault => .error (.numeral fault)
  | _ => .error (.invalid field (if signed then .notAnInteger else .notUnsigned))

/-- The value of a plain field that a text denotes. -/
def LeafKind.bind (kind : LeafKind) (field text : String) : Except BindFault Value :=
  match kind with
  | .bool => .ok (.bool (text == "true"))
  | .int => bindInteger true field text
  | .uint => bindInteger false field text
  | .string => .ok (.text text)
  | .bytes | .bytesHex =>
    match bytesOfHexText text with
    | .ok b => .ok (.bytes b)
    | .error fault => .error (.invalid field (.hex fault))
  | .bytesAddress =>
    match Base58.decode text.toList with
    | .ok b => .ok (.bytes b)
    | .error _ => .error (.invalid field .notBase58)

/-- The text of a plain field's value. A value of another sort than the field's gives what it can. -/
def LeafKind.text (kind : LeafKind) (v : Value) : Except Misfit String :=
  match kind with
  | .bool => .ok (if v.isTruthy then "true" else "false")
  | .int | .uint => v.integer.bind Value.numeral
  | .string => v.shown
  | .bytes | .bytesHex => v.byteString.map hexText
  | .bytesAddress => v.byteString.map Base58.toString

/-! ## 3. Messages -/

mutual

/-- The message that a map of texts gives for a schema. -/
def Schema.bind (values : Values) : Schema → Except BindFault Value
  | .mk _ fields => (bindFields values fields []).map .message

/-- Adds the members that a map of texts gives for a list of fields. -/
def bindFields (values : Values) : List Field → List (String × Value) → Except BindFault (List (String × Value))
  | [], done => .ok done
  | .leaf name kind :: r, done =>
    match values.find? name with
    | none => .error (.missing name)
    | some text =>
      match kind.bind name text with
      | .error fault => .error fault
      | .ok v => bindFields values r (Value.setMember name v done)
  | .message name schema :: r, done =>
    match schema.bind values with
    | .error fault => .error fault
    | .ok v => bindFields values r (Value.setMember name v done)
  | .unknown _ :: _, _ => .error .noSchema

end

/-- Puts texts into a map, one after the other. -/
def setAll (values new : Values) : Values := new.foldl (fun vs p => Values.set p.1 p.2 vs) values

mutual

/-- The texts of a message's plain fields by name; of several fields with one name the last counts. -/
def Schema.unbind : Schema → Value → Except BindFault Values
  | .mk _ fields, v => unbindFields v fields []

/-- Adds the texts of a list of fields. -/
def unbindFields (v : Value) : List Field → Values → Except BindFault Values
  | [], done => .ok done
  | .leaf name kind :: r, done =>
    match v.memberIn name with
    | .error fault => .error (.misfit fault)
    | .ok none => .error (.missing name)
    | .ok (some item) =>
      match kind.text item with
      | .error fault => .error (.misfit fault)
      | .ok text => unbindFields v r (Values.set name text done)
  | .message name schema :: r, done =>
    match v.memberIn name with
    | .error fault => .error (.misfit fault)
    | .ok none => .error (.missing name)
    | .ok (some item) =>
      match schema.unbind item with
      | .error fault => .error fault
      | .ok inner => unbindFields v r (setAll done inner)
  | .unknown name :: _, _ =>
    match v.memberIn name with
    | .error fault => .error (.misfit fault)
    | .ok none => .error (.missing name)
    | .ok (some _) => .error .noSchema

end

/-! ## 4. Messages as lines -/

/-- How a plain field's value is shown. -/
def LeafKind.shown (kind : LeafKind) (v : Value) : Except Misfit String :=
  match kind with
  | .string => v.document
  | _ => kind.text v

mutual

/-- The lines of a message; fields that it lacks are left out. Lines of nested messages are indented once more. -/
def Schema.display (indent : String) : Schema → Value → Except Misfit (List String)
  | .mk _ fields, v => displayFields indent v fields

/-- The lines of a list of fields. -/
def displayFields (indent : String) (v : Value) : List Field → Except Misfit (List String)
  | [] => .ok []
  | .leaf name kind :: r =>
    match v.memberIn name with
    | .error fault => .error fault
    | .ok none => displayFields indent v r
    | .ok (some item) =>
      match kind.shown item with
      | .error fault => .error fault
      | .ok text => (displayFields indent v r).map ((name ++ ": " ++ text) :: ·)
  | .message name schema :: r =>
    match v.memberIn name with
    | .error fault => .error fault
    | .ok none => displayFields indent v r
    | .ok (some item) =>
      match schema.display indent item with
      | .error fault => .error fault
      | .ok inner =>
        (displayFields indent v r).map fun rest =>
          (name ++ " \x7b") :: inner.map (indent ++ ·) ++ "\x7d" :: rest
  | .unknown name :: r =>
    match v.memberIn name with
    | .error fault => .error fault
    | .ok none => displayFields indent v r
    | .ok (some _) => .error .noSchema

end

/-- How far the lines of nested messages are indented in output. -/
def displayIndent : String := "  "

end ContractShell
