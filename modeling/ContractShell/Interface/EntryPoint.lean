import ContractShell.Json.Basic
import ContractShell.Number.Integer
import ContractShell.Text.Blank

/-!
Entry points: the numbers that select a contract's methods.

An entry point is written as a number or as text, decimal or hexadecimal after `0x`, and takes thirty-two bits.
-/

namespace ContractShell.EntryPoint

/-- The largest entry point. -/
def largest : Nat := 0xFFFFFFFF

/-- Why a value is not an entry point. -/
inductive Fault where
  | missing
  /-- The value does not denote a number. -/
  | notANumber (shown : String)
  /-- The number is negative or takes more than thirty-two bits. -/
  | outOfRange (shown : String)
  deriving DecidableEq, Repr

/-- A text starts with the mark of hexadecimal numbers. -/
def isHex : List Char → Bool
  | '0' :: c :: _ => c = 'x' || c = 'X'
  | _ => false

/-- The number that a text denotes. -/
def number? (text : String) : Option Int :=
  let trimmed := Text.trimString text
  (Integer.read (if isHex trimmed.toList then 16 else 10) trimmed).toOption

/-- The number that a value denotes; a value that is no number counts as its text. -/
def numberOf? : Json → Option Int
  | .int n => some n
  | v => number? v.shown

/-- The entry point of a value, if there is one. -/
def read (raw : Option Json) : Except Fault Nat :=
  match raw with
  | none | some .null | some (.bool _) => .error .missing
  | some v =>
    match numberOf? v with
    | none => .error (.notANumber v.shown)
    | some n => if 0 ≤ n ∧ n ≤ largest then .ok n.toNat else .error (.outOfRange v.shown)

end ContractShell.EntryPoint
