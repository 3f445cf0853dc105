import ContractShell.Json.Basic
import ContractShell.Number.Integer
import ContractShell.Text.Quoted

/-!
JSON documents as text.

All text is ASCII: other characters are written by number, in pairs above `0xFFFF`. The compact form has no blanks; the
canonical form is the compact form with the members of every object in the order of their keys; the indented form is
the one of files, for an object of plain values. Only documents whose integers are not too long are ever written.
-/

namespace ContractShell.Json

/-! ## 1. Strings -/

/-- The two units of a character above `0xFFFF`. -/
def surrogates (n : Nat) : Nat × Nat := (0xD800 + (n - 0x10000) / 1024, 0xDC00 + (n - 0x10000) % 1024)

/-- A unit by its number. -/
def unitEscape (n : Nat) : List Char := '\\' :: 'u' :: Text.hexFixed 4 n

/-- How a character is written in a string. -/
def escape (c : Char) : List Char :=
  if c = '"' then ['\\', '"']
  else if c = '\\' then ['\\', '\\']
  else if c = '\n' then ['\\', 'n']
  else if c = '\r' then ['\\', 'r']
  else if c = '\t' then ['\\', 't']
  else if c.toNat = 12 then ['\\', 'f']
  else if c.toNat = 8 then ['\\', 'b']
  else if 32 ≤ c.toNat ∧ c.toNat ≤ 126 then [c]
  else if c.toNat < 0x10000 then unitEscape c.toNat
  else unitEscape (surrogates c.toNat).1 ++ unitEscape (surrogates c.toNat).2

/-- A string between quotes. -/
def writeString (s : String) : List Char := '"' :: s.toList.flatMap escape ++ ['"']

/-! ## 2. Compact form -/

/-- The text of a number. -/
def writeFloat : Binary64 → String
  | .nan => "NaN"
  | .infinite negative => if negative then "-Infinity" else "Infinity"
  | x => x.toText

mutual

/-- No integer of a document is too long to be written. -/
def isWritable : Json → Bool
  | .int n => Integer.isWritable n
  | .arr items => isWritableItems items
  | .obj m => isWritableMembers m
  | _ => true

/-- Every item can be written. -/
def isWritableItems : List Json → Bool
  | [] => true
  | x :: r => isWritable x && isWritableItems r

/-- Every member can be written. -/
def isWritableMembers : List (String × Json) → Bool
  | [] => true
  | (_, v) :: r => isWritable v && isWritableMembers r

end

mutual

/-- A document without blanks. It is the text of a document that can be written. -/
def compact : Json → List Char
  | .null => "null".toList
  | .bool b => (if b then "true" else "false").toList
  | .int n => (toString n).toList
  | .float x => (writeFloat x).toList
  | .str s => writeString s
  | .arr items => '[' :: compactItems items ++ [']']
  | .obj m => '\x7b' :: compactMembers m ++ ['\x7d']

/-- Items with commas between them. -/
def compactItems : List Json → List Char
  | [] => []
  | [x] => compact x
  | x :: r => compact x ++ ',' :: compactItems r

/-- Members with commas between them. -/
def compactMembers : List (String × Json) → List Char
  | [] => []
  | [(k, v)] => writeString k ++ ':' :: compact v
  | (k, v) :: r => writeString k ++ ':' :: compact v ++ ',' :: compactMembers r

end

/-! ## 3. Canonical form -/

/-- Members in the order of their keys. -/
def sortMembers (m : List (String × Json)) : List (String × Json) := m.mergeSort fun a b => a.1 ≤ b.1

mutual

/-- A document with the members of every object in the order of their keys. -/
def sortKeys : Json → Json
  | .arr items => .arr (sortItems items)
  | .obj m => .obj (sortMembers (sortValues m))
  | v => v

/-- Sorts the keys inside every item. -/
def sortItems : List Json → List Json
  | [] => []
  | x :: r => sortKeys x :: sortItems r

/-- Sorts the keys inside every member. -/
def sortValues : List (String × Json) → List (String × Json)
  | [] => []
  | (k, v) :: r => (k, sortKeys v) :: sortValues r

end

/-- The canonical text of a document. -/
def canonical (v : Json) : List Char := compact (sortKeys v)

/-! ## 4. Indented form -/

/-- An object of plain values, one member on a line. -/
def indented (m : List (String × Json)) : String :=
  let line (p : String × Json) : String := "  " ++ String.ofList (writeString p.1 ++ ':' :: ' ' :: compact p.2)
  "\x7b\n" ++ String.intercalate ",\n" (m.map line) ++ "\n\x7d"

end ContractShell.Json
