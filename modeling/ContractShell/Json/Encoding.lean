import ContractShell.Json.Reader
import ContractShell.Text.Utf8

/-!
Reading JSON documents from bytes.

A document starts with two ASCII characters, so where zero bytes stand at its start shows how its characters are written.
-/

namespace ContractShell.Json

/-- How the characters of a document are written as bytes. -/
inductive Encoding where
  | utf8
  /-- UTF-8 behind the mark of the byte order. -/
  | markedUtf8
  | pairs (order : Text.Units.ByteOrder)
  | fours (order : Text.Units.ByteOrder)
  deriving DecidableEq, Repr

namespace Encoding

/-- The mark of the byte order in UTF-8. -/
def mark : Bytes := [0xEF, 0xBB, 0xBF]

/-- The encoding that zero bytes at the start show. Two bytes on their own are one unit. -/
def ofStart : List Nat → Encoding
  | 0 :: 0 :: _ :: _ :: _ => .fours .big
  | 0 :: _ :: _ :: _ :: _ => .pairs .big
  | _ :: 0 :: 0 :: 0 :: _ => .fours .little
  | _ :: 0 :: _ :: _ :: _ => .pairs .little
  | [0, _] => .pairs .big
  | [_, 0] => .pairs .little
  | _ => .utf8

/-- The encoding of bytes. -/
def ofBytes (b : Bytes) : Encoding :=
  if mark.isPrefixOf b then .markedUtf8 else ofStart ((b.take 5).map (·.toNat))

/-- The text of bytes. -/
def text? (e : Encoding) (b : Bytes) : Option (List Char) :=
  match e with
  | .utf8 => (Text.Utf8.decode b).toOption
  | .markedUtf8 => (Text.Utf8.decode (b.drop mark.length)).toOption
  | .pairs order => Text.Units.textOfPairs? order b
  | .fours order => Text.Units.textOfFours? order b

end Encoding

/-- The document that bytes are. -/
def readBytes? (b : Bytes) : Option Json := ((Encoding.ofBytes b).text? b).bind fun s => read? (String.ofList s)

end ContractShell.Json
