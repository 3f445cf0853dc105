import ContractShell.Number.Integer

/-!
Binary floating-point numbers of 64 bits as mathematical values, read from and written as text.

A finite number is `±mantissa · 2 ^ exponent` with a mantissa below `2 ^ 53` and an exponent of at least `-1074`. Reading
rounds to the nearest number, half to even. Writing gives the fewest digits that read back as the same number, and of
those the ones nearest to it.
-/

namespace ContractShell

/-- A floating-point number: not a number, an infinity, or `±mantissa · 2 ^ exponent`. -/
inductive Binary64 where
  | nan
  | infinite (negative : Bool)
  | finite (negative : Bool) (mantissa : Nat) (exponent : Int)
  deriving DecidableEq, Repr

namespace Binary64

/-! ## 1. Rounding -/

/-- `n / d`, rounded half to even. -/
def roundDiv (n d : Nat) : Nat :=
  let q := n / d
  let twice := 2 * (n % d)
  if twice < d then q else if d < twice then q + 1 else if q % 2 = 0 then q else q + 1

/-- The least exponent of a mantissa's unit. -/
def minUnit : Int := -1074

/-- The greatest exponent of a mantissa's unit. -/
def maxUnit : Int := 971

/-- The number nearest to `±n / d`, half to even; too large a quotient is infinite. -/
def ofQuotient (negative : Bool) (n d : Nat) : Binary64 :=
  if n = 0 then .finite negative 0 0
  else
    let guess : Int := (n.log2 : Int) - d.log2
    let fits : Bool := if 0 ≤ guess then d * Nat.pow 2 guess.toNat ≤ n else d ≤ n * Nat.pow 2 (-guess).toNat
    let leading : Int := if fits then guess else guess - 1
    let unit : Int := max minUnit (leading - 52)
    let m := if 0 ≤ unit then roundDiv n (d * Nat.pow 2 unit.toNat) else roundDiv (n * Nat.pow 2 (-unit).toNat) d
    let (m, unit) := if m = 0x20000000000000 then (0x10000000000000, unit + 1) else (m, unit)
    if maxUnit < unit then .infinite negative else .finite negative m unit

/-- The number nearest to `±coefficient · 10 ^ exponent`. Powers far beyond the range are not computed. -/
def ofDecimal (negative : Bool) (coefficient : Nat) (exponent : Int) : Binary64 :=
  if coefficient = 0 then .finite negative 0 0
  else
    let leading : Int := exponent + (Nat.toDigits 10 coefficient).length
    if 400 < leading then .infinite negative
    else if leading < -400 then .finite negative 0 0
    else if 0 ≤ exponent then ofQuotient negative (coefficient * Nat.pow 10 exponent.toNat) 1
    else ofQuotient negative coefficient (Nat.pow 10 (-exponent).toNat)

/-- The number nearest to an integer, or `none` when the integer is too large. -/
def ofInt? (n : Int) : Option Binary64 :=
  match ofQuotient (n < 0) n.natAbs 1 with
  | .infinite _ => none
  | x => some x

/-- The number nearest to `±n · 2 ^ exponent`. -/
def ofScaled (negative : Bool) (n : Nat) (exponent : Int) : Binary64 :=
  if 0 ≤ exponent then ofQuotient negative (n * Nat.pow 2 exponent.toNat) 1
  else ofQuotient negative n (Nat.pow 2 (-exponent).toNat)

/-- A mantissa with its sign, in a unit so many binary places smaller. -/
def signedMantissa (negative : Bool) (mantissa places : Nat) : Int :=
  let n : Int := mantissa * Nat.pow 2 places
  if negative then -n else n

/-- The number nearest to a sum. Infinities of different signs have none; a sum of zero is negative only if both numbers
are. -/
def add : Binary64 → Binary64 → Binary64
  | .nan, _ | _, .nan => .nan
  | .infinite s, .infinite t => if s = t then .infinite s else .nan
  | .infinite s, .finite _ _ _ | .finite _ _ _, .infinite s => .infinite s
  | .finite s m e, .finite t n f =>
    let unit := min e f
    let total := signedMantissa s m (e - unit).toNat + signedMantissa t n (f - unit).toNat
    if total = 0 then .finite (s && t) 0 0 else ofScaled (total < 0) total.natAbs unit

/-- The number nearest to a product. An infinity and zero have none. -/
def mul : Binary64 → Binary64 → Binary64
  | .nan, _ | _, .nan => .nan
  | .infinite s, .infinite t => .infinite (s != t)
  | .infinite s, .finite t m _ | .finite s m _, .infinite t => if m = 0 then .nan else .infinite (s != t)
  | .finite s m e, .finite t n f => ofScaled (s != t) (m * n) (e + f)

/-- The number with the other sign. -/
def negate : Binary64 → Binary64
  | .nan => .nan
  | .infinite negative => .infinite !negative
  | .finite negative m e => .finite (!negative) m e

/-! ## 2. Order and integers -/

/-- The number is greater than zero or not a number. -/
def notAtMostZero : Binary64 → Bool
  | .nan => true
  | .infinite negative => !negative
  | .finite negative m _ => !negative && m != 0

/-- The number is zero, of either sign. -/
def isZero : Binary64 → Bool
  | .finite _ m _ => m == 0
  | _ => false

/-- A finite number without its fraction. -/
def truncate? : Binary64 → Option Int
  | .finite negative m e =>
    let n := if 0 ≤ e then m * Nat.pow 2 e.toNat else m / Nat.pow 2 (-e).toNat
    some (if negative then -(n : Int) else n)
  | _ => none

/-- The number equals an integer. -/
def equalsInt (x : Binary64) (n : Int) : Bool :=
  match x with
  | .finite negative m e =>
    let whole := if 0 ≤ e then true else m % Nat.pow 2 (-e).toNat == 0
    whole && (finite negative m e).truncate? == some n
  | _ => false

/-! ## 3. Reading -/

/-- Reads digits and underscores that stand between digits. The count and the number carry over. -/
def readDigits : List Char → Bool → Nat → Nat → Option (Nat × Nat × List Char)
  | [], afterMark, n, v => if afterMark then none else some (n, v, [])
  | c :: r, afterMark, n, v =>
    if c = '_' then if afterMark ∨ n = 0 then none else readDigits r true n v
    else match Text.decimal? c with
      | some d => readDigits r false (n + 1) (v * 10 + d)
      | none => if afterMark then none else some (n, v, c :: r)

/-- The exponent part: absent, or a mark, an optional sign and digits up to the end. -/
def readExponent? : List Char → Option Int
  | [] => some 0
  | c :: r =>
    if c = 'e' ∨ c = 'E' then
      let (negative, s) := Integer.readSign r
      match readDigits s false 0 0 with
      | some (n + 1, v, []) => let _ := n; some (if negative then -(v : Int) else v)
      | _ => none
    else none

/-- The number of an unsigned numeral with an optional point and exponent. -/
def readNumeral? (negative : Bool) (s : List Char) : Option Binary64 := do
  let (n, v, rest) ← readDigits s false 0 0
  match rest with
  | '.' :: r =>
    let (m, w, rest) ← readDigits r false 0 0
    if n + m = 0 then none
    else
      let e ← readExponent? rest
      some (ofDecimal negative (v * Nat.pow 10 m + w) (e - m))
  | rest =>
    if n = 0 then none
    else
      let e ← readExponent? rest
      some (ofDecimal negative v e)

/-- The number that a text denotes: a decimal numeral, an infinity or not-a-number, in any case, with blanks around. -/
def ofText? (text : String) : Option Binary64 :=
  let (negative, s) := Integer.readSign (Text.trimBy Integer.isEdge text.toList)
  let word := s.map Char.toLower
  if word = "inf".toList ∨ word = "infinity".toList then some (.infinite negative)
  else if word = "nan".toList then some .nan
  else readNumeral? negative s

/-! ## 4. Shortest digits -/

/-- The numerators of the ends of the interval of quotients that round to `m · 2 ^ e`, and of the number itself, over a
common denominator. -/
def interval (m : Nat) (e : Int) : Nat × Nat × Nat × Nat :=
  let lowGap : Nat := if m = 0x10000000000000 ∧ minUnit < e then 1 else 2
  -- in quarters of the mantissa's unit
  let (low, mid, high) := (4 * m - lowGap, 4 * m, 4 * m + 2)
  if 0 ≤ e then let u := Nat.pow 2 e.toNat; (low * u, mid * u, high * u, 4)
  else (low, mid, high, 4 * Nat.pow 2 (-e).toNat)

/-- The decimal `digits · 10 ^ power` with the fewest digits in the interval around the number, trying grids from coarse
to fine: on each, the neighbours below and above the number. -/
def shortestFrom (closed : Bool) (low mid high den : Nat) : Nat → Int → Nat × Int
  | 0, power => (mid / den, power)
  | fuel + 1, power =>
    -- `value / 10 ^ power` as a quotient
    let (scaleUp, scaleDown) := if 0 ≤ power then (1, Nat.pow 10 power.toNat) else (Nat.pow 10 (-power).toNat, 1)
    let unit := den * scaleDown
    let below := mid * scaleUp / unit
    let above := below + 1
    let within (k : Nat) : Bool :=
      let x := k * unit
      if closed then low * scaleUp ≤ x && x ≤ high * scaleUp else low * scaleUp < x && x < high * scaleUp
    let belowGap := mid * scaleUp - below * unit
    let aboveGap := above * unit - mid * scaleUp
    match within below && below != 0, within above with
    | true, true =>
      if belowGap < aboveGap ∨ (belowGap = aboveGap ∧ below % 2 = 0) then (below, power) else (above, power)
    | true, false => (below, power)
    | false, true => (above, power)
    | false, false => shortestFrom closed low mid high den fuel (power - 1)

/-- The shortest digits of a positive number `m · 2 ^ e`, without trailing zeros, and the power of ten of the last. -/
def shortest (m : Nat) (e : Int) : Nat × Int :=
  let (low, mid, high, den) := interval m e
  let start : Int := ((Nat.toDigits 10 (mid / den)).length : Int) + 1
  shortestFrom (m % 2 = 0) low mid high den 800 start

/-! ## 5. Writing -/

/-- Digits and the position of the point, counted from before the first digit: positional for positions from `-3` to
`16`, with at least one digit after the point; otherwise one digit, the rest after a point, and an exponent of at least
two digits. -/
def layout (digits : List Char) (point : Int) : List Char :=
  if -4 < point ∧ point ≤ 16 then
    if point ≤ 0 then '0' :: '.' :: List.replicate (-point).toNat '0' ++ digits
    else
      let n := point.toNat
      if digits.length ≤ n then digits ++ List.replicate (n - digits.length) '0' ++ ['.', '0']
      else digits.take n ++ '.' :: digits.drop n
  else
    let e := point - 1
    let mantissa := if digits.length ≤ 1 then digits else digits.take 1 ++ '.' :: digits.drop 1
    let power := Nat.toDigits 10 e.natAbs
    mantissa ++ 'e' :: (if e < 0 then '-' else '+') :: (if power.length < 2 then '0' :: power else power)

/-- The text of a number. -/
def toText : Binary64 → String
  | .nan => "nan"
  | .infinite negative => if negative then "-inf" else "inf"
  | .finite negative m e =>
    let body :=
      if m = 0 then ['0', '.', '0']
      else
        let (n, power) := shortest m e
        let digits := Nat.toDigits 10 n
        layout digits (digits.length + power)
    String.ofList (if negative then '-' :: body else body)

end Binary64

end ContractShell
