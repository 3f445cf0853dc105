import ContractShell.Text.Blank
import ContractShell.Text.Digit

/-!
Decimal numbers with an exact coefficient and a power of ten, and arithmetic at twenty-eight significant digits.

A number keeps its exponent, so `1.50` and `1.5` are equal in value and differ in form. Reading is exact; scaling rounds
to the working precision, half to even.
-/

namespace ContractShell

/-- The number `±coefficient · 10 ^ exponent`. -/
structure Decimal where
  negative : Bool
  coefficient : Nat
  exponent : Int
  deriving DecidableEq, Repr

namespace Decimal

/-! ## 1. The working context -/

/-- The significant digits that arithmetic keeps. -/
def precision : Nat := 28

/-- The greatest exponent of a leading digit. -/
def maxExponent : Int := 999999

/-- The least exponent of a leading digit at full precision. -/
def minExponent : Int := -999999

/-- The least exponent at all. -/
def tiny : Int := minExponent - (precision - 1)

/-- The greatest exponent that can be written down. -/
def maxReadExponent : Int := 999999999999999999

/-- The least exponent that can be written down. -/
def minReadExponent : Int := -1999999999999999997

/-- Why an operation has no result. -/
inductive Fault where
  /-- The result is larger than any number. -/
  | overflow
  /-- The operands are outside the operation's domain. -/
  | invalidOperation
  deriving DecidableEq, Repr

/-! ## 2. Digits -/

/-- How many decimal digits a coefficient has; zero has one. -/
def digitCount (n : Nat) : Nat := (Nat.toDigits 10 n).length

/-- The exponent of the leading digit. -/
def adjusted (d : Decimal) : Int := d.exponent + digitCount d.coefficient - 1

/-- `n / 10 ^ k`, rounded half to even. -/
def roundedShift (n k : Nat) : Nat :=
  if digitCount n < k then 0
  else
    let unit := Nat.pow 10 k
    let q := n / unit
    let twice := 2 * (n % unit)
    if twice < unit then q
    else if unit < twice then q + 1
    else if q % 2 = 0 then q else q + 1

/-! ## 3. Reading -/

/-- The longest run of digits: how many, the number, and the rest. -/
def readDigits : List Char → Nat → Nat → Nat × Nat × List Char
  | [], n, v => (n, v, [])
  | c :: r, n, v =>
    match Text.decimal? c with
    | some d => readDigits r (n + 1) (v * 10 + d)
    | none => (n, v, c :: r)

/-- An optional sign: whether it is a minus, and the rest. -/
def readSign : List Char → Bool × List Char
  | '-' :: r => (true, r)
  | '+' :: r => (false, r)
  | r => (false, r)

/-- The exponent part: absent, or a mark, an optional sign and digits up to the end. -/
def readExponent? : List Char → Option Int
  | [] => some 0
  | c :: r =>
    if c = 'e' ∨ c = 'E' then
      let (negative, s) := readSign r
      match readDigits s 0 0 with
      | (0, _, _) => none
      | (_, v, []) => some (if negative then -(v : Int) else v)
      | _ => none
    else none

/-- Digits with an optional point: how many there are, the coefficient, how many stand after the point, and the rest. -/
def readCoefficient (s : List Char) : Nat × Nat × Nat × List Char :=
  match readDigits s 0 0 with
  | (n, v, '.' :: r) =>
    let (m, w, rest) := readDigits r n v
    (m, w, m - n, rest)
  | (n, v, rest) => (n, v, 0, rest)

/-- The finite number that a text denotes, exactly. Underscores are ignored, blanks around it too; exponents that cannot
be written down are refused. -/
def ofText? (text : String) : Option Decimal :=
  let (negative, s) := readSign ((Text.trim text.toList).filter (· ≠ '_'))
  match readCoefficient s with
  | (0, _, _, _) => none
  | (_, coefficient, places, rest) =>
    match readExponent? rest with
    | none => none
    | some e =>
      let d : Decimal := ⟨negative, coefficient, e - places⟩
      let leading := if coefficient = 0 then d.exponent else d.adjusted
      if maxReadExponent < leading ∨ d.exponent < minReadExponent then none else some d

/-! ## 4. Rounding to the context -/

/-- Rounds to `precision` digits. -/
def rounded (d : Decimal) : Decimal :=
  let n := digitCount d.coefficient
  if n ≤ precision then d
  else
    let k := n - precision
    let c := roundedShift d.coefficient k
    if digitCount c ≤ precision then ⟨d.negative, c, d.exponent + k⟩
    else ⟨d.negative, c / 10, d.exponent + k + 1⟩

/-- Brings a number into the context: overflow is a fault, numbers below the least exponent lose digits, and the rest is
rounded to `precision` digits. -/
def finish (d : Decimal) : Except Fault Decimal :=
  if d.coefficient = 0 then
    .ok { d with exponent := if maxExponent < d.exponent then maxExponent
                             else if d.exponent < tiny then tiny else d.exponent }
  else if maxExponent < d.adjusted then .error .overflow
  else if d.adjusted < minExponent ∧ d.exponent < tiny then
    .ok ⟨d.negative, roundedShift d.coefficient (tiny - d.exponent).toNat, tiny⟩
  else
    let r := rounded d
    if maxExponent < r.adjusted then .error .overflow else .ok r

/-- `d · 10 ^ power`, in the context. -/
def scale (d : Decimal) (power : Int) : Except Fault Decimal :=
  if 2 * (maxExponent.toNat + precision) < power.natAbs then .error .invalidOperation
  else finish { d with exponent := d.exponent + power }

/-! ## 5. Integers -/

/-- The number is a whole one. -/
def isIntegral (d : Decimal) : Bool :=
  0 ≤ d.exponent || d.coefficient = 0 ||
    (let places := (-d.exponent).toNat
     places ≤ digitCount d.coefficient && d.coefficient % Nat.pow 10 places = 0)

/-- The number without its fraction. -/
def toInt (d : Decimal) : Int :=
  let n := if d.coefficient = 0 then 0
    else if 0 ≤ d.exponent then d.coefficient * Nat.pow 10 d.exponent.toNat
    else d.coefficient / Nat.pow 10 (-d.exponent).toNat
  if d.negative then -(n : Int) else n

/-- An integer as a decimal. -/
def ofInt (n : Int) : Decimal := ⟨n < 0, n.natAbs, 0⟩

/-! ## 6. Writing -/

/-- Digits with a point before the last `places`, padded with zeros on the left. -/
def withPoint (digits : List Char) (places : Nat) : List Char :=
  let padded := List.replicate (places + 1 - digits.length) '0' ++ digits
  if places = 0 then padded
  else padded.take (padded.length - places) ++ '.' :: padded.drop (padded.length - places)

/-- The number with exactly `places` digits after the point, rounded half to even. -/
def toFixed (d : Decimal) (places : Nat) : String :=
  let shift := d.exponent + places
  let n := if 0 ≤ shift then d.coefficient * Nat.pow 10 shift.toNat else roundedShift d.coefficient (-shift).toNat
  String.ofList ((if d.negative then ['-'] else []) ++ withPoint (Nat.toDigits 10 n) places)

/-- The number in full, keeping its exponent: positional when the exponent is not positive and the leading digit is no
further than six places after the point, scientific otherwise. -/
def toText (d : Decimal) : String :=
  let digits := Nat.toDigits 10 d.coefficient
  let body :=
    if d.exponent ≤ 0 ∧ -6 ≤ d.adjusted then withPoint digits (-d.exponent).toNat
    else
      let mantissa := if digits.length = 1 then digits else digits.take 1 ++ '.' :: digits.drop 1
      let e := d.adjusted
      mantissa ++ 'E' :: (if e < 0 then '-' else '+') :: Nat.toDigits 10 e.natAbs
  String.ofList ((if d.negative then ['-'] else []) ++ body)

end Decimal

end ContractShell
