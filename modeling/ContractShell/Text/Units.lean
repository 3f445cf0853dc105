import ContractShell.Bytes.Basic

/-!
Texts in units of two or four bytes.

A unit of four bytes is the number of a character. Of two bytes, a character beyond the first 65536 takes a pair of units.
A unit of a pair that stands alone is read as a character that stands for it, a private one at the end of the code space, so
texts with different ones stay different.
-/

namespace ContractShell.Text.Units

/-- Which byte of a unit comes first: the most or the least significant one. -/
inductive ByteOrder where
  | big
  | little
  deriving DecidableEq, Repr

/-- The unit that a few bytes are. -/
def ByteOrder.unit (order : ByteOrder) (b : Bytes) : Nat :=
  match order with
  | .big => Bytes.toNat b
  | .little => Bytes.toNat b.reverse

/-! ## 1. Units -/

/-- The units of two bytes. -/
def pairs? (order : ByteOrder) : Bytes → Option (List Nat)
  | [] => some []
  | a :: b :: r => (pairs? order r).map (order.unit [a, b] :: ·)
  | [_] => none

/-- The units of four bytes. -/
def fours? (order : ByteOrder) : Bytes → Option (List Nat)
  | [] => some []
  | a :: b :: c :: d :: r => (fours? order r).map (order.unit [a, b, c, d] :: ·)
  | _ => none

/-! ## 2. Characters -/

/-- The first unit of a pair. -/
def isFirst (u : Nat) : Bool := 0xD800 ≤ u && u < 0xDC00

/-- The second unit of a pair. -/
def isSecond (u : Nat) : Bool := 0xDC00 ≤ u && u < 0xE000

/-- The character that stands for a unit of a pair that is alone. -/
def standIn (u : Nat) : Char := Char.ofNat (0x10F800 + (u - 0xD800))

/-- The character of a unit on its own. -/
def single (u : Nat) : Char := if isFirst u || isSecond u then standIn u else Char.ofNat u

/-- The character of a pair of units. -/
def joined (u v : Nat) : Char := Char.ofNat (0x10000 + (u - 0xD800) * 1024 + (v - 0xDC00))

/-- The characters of units of two bytes. -/
def characters : List Nat → List Char
  | [] => []
  | [u] => [single u]
  | u :: v :: r => if isFirst u && isSecond v then joined u v :: characters r else single u :: characters (v :: r)

/-- The text of units of two bytes. -/
def textOfPairs? (order : ByteOrder) (b : Bytes) : Option (List Char) := (pairs? order b).map characters

/-- The text of units of four bytes, each of which is the number of a character. -/
def textOfFours? (order : ByteOrder) (b : Bytes) : Option (List Char) :=
  (fours? order b).bind fun us => if us.all (· < 0x110000) then some (us.map single) else none

end ContractShell.Text.Units
