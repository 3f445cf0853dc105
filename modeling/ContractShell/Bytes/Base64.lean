import ContractShell.Bytes.Basic

/-!
Bytes as base64 text, in the standard alphabet and in the one that is safe in addresses.

There are two readers. The strict one takes the padded form and nothing else. The lenient one skips every character
outside the alphabet and stops where the padding is complete, so text after it does not matter.
-/

namespace ContractShell.Base64

/-! ## 1. The alphabets -/

/-- The digit of a value below 64 in the standard alphabet. -/
def digit (n : Nat) : Char :=
  if n < 26 then Char.ofNat (65 + n)
  else if n < 52 then Char.ofNat (71 + n)
  else if n < 62 then Char.ofNat (n - 4)
  else if n = 62 then '+' else '/'

/-- The digit of a value below 64 in the alphabet that is safe in addresses. -/
def urlDigit (n : Nat) : Char := if n = 62 then '-' else if n = 63 then '_' else digit n

/-- The value of a digit of the standard alphabet. -/
def value? (c : Char) : Option Nat :=
  let n := c.toNat
  if 65 ≤ n && n ≤ 90 then some (n - 65)
  else if 97 ≤ n && n ≤ 122 then some (n - 71)
  else if 48 ≤ n && n ≤ 57 then some (n + 4)
  else if c = '+' then some 62
  else if c = '/' then some 63
  else none

/-- The standard digit that a digit of the address-safe alphabet stands for; others stand for themselves. -/
def ofUrlDigit (c : Char) : Char := if c = '-' then '+' else if c = '_' then '/' else c

/-! ## 2. Writing -/

/-- Writes bytes in groups of three, with padding after a last group of one or two. -/
def encodeWith (digit : Nat → Char) : Bytes → List Char
  | [] => []
  | [a] => [digit (a.toNat / 4), digit (a.toNat % 4 * 16), '=', '=']
  | [a, b] => [digit (a.toNat / 4), digit (a.toNat % 4 * 16 + b.toNat / 16), digit (b.toNat % 16 * 4), '=']
  | a :: b :: c :: r =>
    digit (a.toNat / 4) :: digit (a.toNat % 4 * 16 + b.toNat / 16) ::
      digit (b.toNat % 16 * 4 + c.toNat / 64) :: digit (c.toNat % 64) :: encodeWith digit r

/-- The padded text of bytes. -/
def encode (b : Bytes) : String := String.ofList (encodeWith digit b)

/-- The padded text of bytes in the address-safe alphabet. -/
def encodeUrl (b : Bytes) : String := String.ofList (encodeWith urlDigit b)

/-! ## 3. Reading -/

/-- Why a text is not base64. -/
inductive Fault where
  /-- The text has characters outside ASCII. -/
  | notAscii
  /-- The text ends inside a group of more than one digit. -/
  | incorrectPadding
  /-- The text has this many digits, which leaves one over. -/
  | loneDigit (digits : Nat)
  /-- The text starts with padding. -/
  | leadingPadding
  /-- Text follows the padding. -/
  | excessData
  /-- A character is outside the alphabet. -/
  | foreignCharacter
  /-- A digit stands inside the padding. -/
  | splitPadding
  deriving DecidableEq, Repr

/-- The wording of a fault. -/
def Fault.message : Fault → String
  | .notAscii => "string argument should contain only ASCII characters"
  | .incorrectPadding => "Incorrect padding"
  | .loneDigit n =>
    s!"Invalid base64-encoded string: number of data characters ({n}) cannot be 1 more than a multiple of 4"
  | .leadingPadding => "Leading padding not allowed"
  | .excessData => "Excess data after padding"
  | .foreignCharacter => "Only base64 data is allowed"
  | .splitPadding => "Discontinuous padding not allowed"

/-- A reader between two characters: digits in the group (`place`), the bits they leave over, the padding seen since the
last digit, whether any padding was seen, and how many digits were read. -/
structure Cursor where
  place : Nat
  left : Nat
  pads : Nat
  padded : Bool
  digits : Nat

/-- The reader at the start. -/
def Cursor.start : Cursor := ⟨0, 0, 0, false, 0⟩

/-- What a digit adds to the bytes, and the reader after it. -/
def Cursor.take (k : Cursor) (v : Nat) : Option UInt8 × Cursor :=
  match k.place with
  | 0 => (none, ⟨1, v, 0, k.padded, k.digits + 1⟩)
  | 1 => (some (UInt8.ofNat (k.left * 4 + v / 16)), ⟨2, v % 16, 0, k.padded, k.digits + 1⟩)
  | 2 => (some (UInt8.ofNat (k.left * 16 + v / 4)), ⟨3, v % 4, 0, k.padded, k.digits + 1⟩)
  | _ => (some (UInt8.ofNat (k.left * 64 + v)), ⟨0, 0, 0, k.padded, k.digits + 1⟩)

/-- Reads on. A group is complete after four digits, or after two or three and padding up to four. -/
def readFrom (strict : Bool) : Cursor → List Char → Except Fault Bytes
  | k, [] =>
    if k.place = 0 then .ok []
    else if k.place = 1 then .error (.loneDigit k.digits)
    else .error .incorrectPadding
  | k, c :: r =>
    if c = '=' then
      if 2 ≤ k.place ∧ 4 ≤ k.place + k.pads + 1 then
        if strict && !r.isEmpty then .error .excessData else .ok []
      else readFrom strict { k with padded := true, pads := if 2 ≤ k.place then k.pads + 1 else k.pads } r
    else match value? c with
      | none => if strict then .error .foreignCharacter else readFrom strict k r
      | some v =>
        if strict && k.padded then .error .splitPadding
        else
          match k.take v with
          | (some byte, k') => (readFrom strict k' r).map (byte :: ·)
          | (none, k') => readFrom strict k' r

/-- The bytes of a text in the standard alphabet. -/
def decode (strict : Bool) (text : List Char) : Except Fault Bytes :=
  if text.any (fun c => 128 ≤ c.toNat) then .error .notAscii
  else if strict && text.head? = some '=' then .error .leadingPadding
  else readFrom strict .start text

/-- The bytes of a text in either alphabet, read leniently. -/
def decodeUrl (text : List Char) : Except Fault Bytes :=
  if text.any (fun c => 128 ≤ c.toNat) then .error .notAscii
  else readFrom false .start (text.map ofUrlDigit)

/-- The bytes of a text in either alphabet whose padding may be missing: padding up to a multiple of four characters is
added first. -/
def decodeUnpadded (text : String) : Except Fault Bytes :=
  let s := text.toList
  decodeUrl (s ++ List.replicate ((4 - s.length % 4) % 4) '=')

end ContractShell.Base64
