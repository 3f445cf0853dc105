import ContractShell.Bytes.Basic
import ContractShell.Text.Quoted

/-!
UTF-8: characters as bytes and back.

The reader is a machine that takes one byte at a time. It refuses at the first byte that no well-formed text has there,
so overlong forms, surrogates and code points above the last one are refused at their second byte.

## Main statements

* `encodeChar_ne_nil`: every character takes at least one byte.
-/

namespace ContractShell.Text.Utf8

/-! ## 1. Writing -/

/-- The bytes of a character. -/
def encodeChar (c : Char) : Bytes :=
  let n := c.toNat
  if n < 0x80 then [UInt8.ofNat n]
  else if n < 0x800 then [UInt8.ofNat (0xC0 + n / 64), UInt8.ofNat (0x80 + n % 64)]
  else if n < 0x10000 then
    [UInt8.ofNat (0xE0 + n / 4096), UInt8.ofNat (0x80 + n / 64 % 64), UInt8.ofNat (0x80 + n % 64)]
  else
    [UInt8.ofNat (0xF0 + n / 262144), UInt8.ofNat (0x80 + n / 4096 % 64), UInt8.ofNat (0x80 + n / 64 % 64),
     UInt8.ofNat (0x80 + n % 64)]

theorem encodeChar_ne_nil (c : Char) : encodeChar c ≠ [] := by
  simp only [encodeChar]
  repeat' split
  all_goals simp

/-- The bytes of a text. -/
def encode (s : List Char) : Bytes := s.flatMap encodeChar

/-- The bytes of a string. -/
def ofString (s : String) : Bytes := encode s.toList

/-! ## 2. Reading -/

/-- Why bytes are not a text, with the first byte at fault and, where a character was begun, how many of its bytes
were good. -/
inductive Fault where
  /-- No character starts with this byte. -/
  | invalidStart (position : Nat) (byte : UInt8)
  /-- A character was begun with `good` bytes, and the next byte does not continue it. -/
  | invalidContinuation (position good : Nat) (byte : UInt8)
  /-- The bytes end inside a character. -/
  | unexpectedEnd (position good : Nat) (byte : UInt8)
  deriving DecidableEq, Repr

/-- The bytes of a fault: one by its value and position, several by their first and last position. -/
def span (position good : Nat) (byte : UInt8) : String :=
  if good = 1 then "byte 0x" ++ String.ofList (hexFixed 2 byte.toNat) ++ s!" in position {position}"
  else s!"bytes in position {position}-{position + good - 1}"

/-- The wording of a fault. -/
def Fault.message : Fault → String
  | .invalidStart p b => s!"'utf-8' codec can't decode {span p 1 b}: invalid start byte"
  | .invalidContinuation p n b => s!"'utf-8' codec can't decode {span p n b}: invalid continuation byte"
  | .unexpectedEnd p n b => s!"'utf-8' codec can't decode {span p n b}: unexpected end of data"

/-- A character being read: the value so far, how many bytes it still needs, the range of the next one, where it began,
its first byte and how many bytes are read. -/
structure Pending where
  value : Nat
  owed : Nat
  low : Nat
  high : Nat
  start : Nat
  first : UInt8
  good : Nat

/-- What the first byte of a character says: the value's leading bits, the bytes to come, and the range of the next. -/
def lead? (b : UInt8) : Option (Nat × Nat × Nat × Nat) :=
  let n := b.toNat
  if n < 0x80 then some (n, 0, 0, 0)
  else if n < 0xC2 then none
  else if n < 0xE0 then some (n - 0xC0, 1, 0x80, 0xBF)
  else if n = 0xE0 then some (0, 2, 0xA0, 0xBF)
  else if n = 0xED then some (0xD, 2, 0x80, 0x9F)
  else if n < 0xF0 then some (n - 0xE0, 2, 0x80, 0xBF)
  else if n = 0xF0 then some (0, 3, 0x90, 0xBF)
  else if n < 0xF4 then some (n - 0xF0, 3, 0x80, 0xBF)
  else if n = 0xF4 then some (4, 3, 0x80, 0x8F)
  else none

/-- Reads on from byte `position`, with a character begun or none. -/
def decodeFrom (position : Nat) : Option Pending → Bytes → Except Fault (List Char)
  | none, [] => .ok []
  | some p, [] => .error (.unexpectedEnd p.start p.good p.first)
  | none, b :: r =>
    match lead? b with
    | none => .error (.invalidStart position b)
    | some (v, 0, _, _) => (decodeFrom (position + 1) none r).map (Char.ofNat v :: ·)
    | some (v, owed, low, high) => decodeFrom (position + 1) (some ⟨v, owed, low, high, position, b, 1⟩) r
  | some p, b :: r =>
    if p.low ≤ b.toNat ∧ b.toNat ≤ p.high then
      let v := p.value * 64 + (b.toNat - 0x80)
      if p.owed = 1 then (decodeFrom (position + 1) none r).map (Char.ofNat v :: ·)
      else decodeFrom (position + 1) (some ⟨v, p.owed - 1, 0x80, 0xBF, p.start, p.first, p.good + 1⟩) r
    else .error (.invalidContinuation p.start p.good p.first)

/-- The characters of a byte string, or the first fault. -/
def decode (b : Bytes) : Except Fault (List Char) := decodeFrom 0 none b

/-- The string of a byte string, if it is a text. -/
def toString? (b : Bytes) : Option String := (decode b).toOption.map String.ofList

/-- A byte string is a text. -/
def valid (b : Bytes) : Bool := (decode b).toOption.isSome

end ContractShell.Text.Utf8
