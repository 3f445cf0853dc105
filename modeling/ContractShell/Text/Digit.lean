/-!
Digits: the decimal digits of every script, and the digits of a base up to sixteen.

## Main statements

* `decimal?_lt`: the value of a decimal digit is below ten.
-/

namespace ContractShell.Text

/-! ## 1. Decimal digits of all scripts -/

/-- The code points of the zeros of all scripts. Each starts a run of ten digits. -/
def decimalZeros : List Nat :=
  [0x30, 0x660, 0x6f0, 0x7c0, 0x966, 0x9e6, 0xa66, 0xae6, 0xb66, 0xbe6, 0xc66, 0xce6, 0xd66, 0xde6, 0xe50, 0xed0,
   0xf20, 0x1040, 0x1090, 0x17e0, 0x1810, 0x1946, 0x19d0, 0x1a80, 0x1a90, 0x1b50, 0x1bb0, 0x1c40, 0x1c50, 0xa620,
   0xa8d0, 0xa900, 0xa9d0, 0xa9f0, 0xaa50, 0xabf0, 0xff10, 0x104a0, 0x10d30, 0x11066, 0x110f0, 0x11136, 0x111d0,
   0x112f0, 0x11450, 0x114d0, 0x11650, 0x116c0, 0x11730, 0x118e0, 0x11950, 0x11c50, 0x11d50, 0x11da0, 0x16a60,
   0x16ac0, 0x16b50, 0x1d7ce, 0x1d7d8, 0x1d7e2, 0x1d7ec, 0x1d7f6, 0x1e140, 0x1e2f0, 0x1e950, 0x1fbf0]

/-- The value of a decimal digit of any script. -/
def decimal? (c : Char) : Option Nat :=
  let n := c.toNat
  (decimalZeros.find? fun z => z ≤ n && n < z + 10).map (n - ·)

theorem decimal?_lt {c : Char} {d : Nat} (h : decimal? c = some d) : d < 10 := by
  simp only [decimal?, Option.map_eq_some_iff] at h
  obtain ⟨z, hz, rfl⟩ := h
  have hp := List.find?_some hz
  simp only [Bool.and_eq_true, decide_eq_true_eq] at hp
  omega

/-- A decimal digit of any script. -/
def isDecimal (c : Char) : Bool := (decimal? c).isSome

/-! ## 2. Digits of a base -/

/-- One of the ten digits `0` to `9`. -/
def isDigit (c : Char) : Bool := 48 ≤ c.toNat && c.toNat ≤ 57

/-- The value of a hexadecimal digit, in either case. -/
def hexDigit? (c : Char) : Option Nat :=
  let n := c.toNat
  if 48 ≤ n && n ≤ 57 then some (n - 48)
  else if 97 ≤ n && n ≤ 102 then some (n - 87)
  else if 65 ≤ n && n ≤ 70 then some (n - 55)
  else none

/-- A hexadecimal digit, in either case. -/
def isHexDigit (c : Char) : Bool := (hexDigit? c).isSome

/-- The written form of a digit below sixteen, in lower case. -/
def hexChar (d : Nat) : Char := if d < 10 then Char.ofNat (48 + d) else Char.ofNat (87 + d)

/-- The digit's value in a base; a decimal digit of any script counts, and letters stand for ten and above. -/
def digitIn? (base : Nat) (c : Char) : Option Nat :=
  match decimal? c with
  | some d => if d < base then some d else none
  | none => (hexDigit? c).filter (· < base)

end ContractShell.Text
