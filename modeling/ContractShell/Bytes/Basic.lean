import ContractShell.Text.Digit

/-!
Byte strings, the numbers they denote in big-endian order, and their text in hexadecimal, two digits for each byte.

## Main statements

* `length_ofNat`: a number written at a width has that many bytes.
* `Hex.length_encode`: the text has two characters for each byte.
-/

namespace ContractShell

/-- A byte string, first byte first. -/
abbrev Bytes := List UInt8

namespace Bytes

/-! ## 1. Big-endian numbers -/

/-- The number a byte string denotes, most significant byte first. -/
def toNat (b : Bytes) : Nat := b.foldl (fun n x => n * 256 + x.toNat) 0

/-- The `width` low bytes of a number, most significant byte first. -/
def ofNat (width n : Nat) : Bytes :=
  (List.range width).map fun i => UInt8.ofNat (n >>> (8 * (width - 1 - i)))

@[simp] theorem length_ofNat (width n : Nat) : (ofNat width n).length = width := by simp [ofNat]

/-- The number of bytes that a number takes without leading zero bytes. -/
def width (n : Nat) : Nat := if n = 0 then 0 else n.log2 / 8 + 1

/-- A number in as few bytes as hold it; zero takes none. -/
def ofNatMinimal (n : Nat) : Bytes := ofNat (width n) n

/-! ## 2. Parts -/

/-- All bytes but the last `n`. -/
def dropLast (n : Nat) (b : Bytes) : Bytes := b.take (b.length - n)

/-- The last `n` bytes. -/
def takeLast (n : Nat) (b : Bytes) : Bytes := b.drop (b.length - n)

theorem dropLast_append_takeLast (n : Nat) (b : Bytes) : dropLast n b ++ takeLast n b = b :=
  List.take_append_drop _ _

/-- Byte by byte exclusive or; the shorter string decides the length. -/
def xor (a b : Bytes) : Bytes := List.zipWith (· ^^^ ·) a b

end Bytes

namespace Hex

/-! ## 3. Hexadecimal text -/

/-- The two digits of a byte. -/
def encodeByte (b : UInt8) : List Char := [Text.hexChar (b.toNat / 16), Text.hexChar (b.toNat % 16)]

/-- The digits of a byte string, in lower case. -/
def encode (b : Bytes) : List Char := b.flatMap encodeByte

/-- The digits of a byte string, as a string. -/
def toString (b : Bytes) : String := String.ofList (encode b)

theorem length_encode (b : Bytes) : (encode b).length = 2 * b.length := by
  induction b with
  | nil => rfl
  | cons x r ih => simp only [encode, List.flatMap_cons, List.length_append, encodeByte] at *; simp [ih]; omega

/-- The bytes of an even number of digits, in either case. -/
def decode? : List Char → Option Bytes
  | [] => some []
  | [_] => none
  | a :: b :: r =>
    match Text.hexDigit? a, Text.hexDigit? b, decode? r with
    | some x, some y, some rest => some (UInt8.ofNat (16 * x + y) :: rest)
    | _, _, _ => none

end Hex

end ContractShell
