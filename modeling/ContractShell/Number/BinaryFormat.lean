import ContractShell.Text.Digit

/-!
Binary floating-point formats, and which numerals they have room for.

A numeral is decimal or hexadecimal, with a point, an exponent and a sign, or one of the names of infinity and of no
number. A format has room for a number that is not too large and that does not lose digits below the least normal number.
-/

namespace ContractShell

/-! ## 1. Numerals -/

/-- The magnitude of a numeral. -/
inductive Numeral where
  /-- An infinity, or no number. -/
  | special
  /-- `coefficient · base ^ exponent`. -/
  | scaled (coefficient base : Nat) (exponent : Int)
  deriving DecidableEq, Repr

namespace Numeral

/-- The number of a run of digits in a base, after what came before. -/
def ofDigits (base : Nat) (s : List Char) : Nat := s.foldl (fun n c => n * base + (Text.hexDigit? c).getD 0) 0

/-- The digits before a point and after it, the point included if there is one, and the rest. -/
def splitDigits (isDigit : Char → Bool) (s : List Char) : List Char × List Char × List Char :=
  match s.dropWhile isDigit with
  | '.' :: r => (s.takeWhile isDigit, r.takeWhile isDigit, r.dropWhile isDigit)
  | r => (s.takeWhile isDigit, [], r)

/-- The exponent that is the rest of a numeral: absent, or behind its mark, with an optional sign. -/
def exponent? (mark : Char) : List Char → Option Int
  | [] => some 0
  | c :: r =>
    if c.toLower != mark then none
    else
      let (negative, ds) := match r with
        | '-' :: t => (true, t)
        | '+' :: t => (false, t)
        | t => (false, t)
      if ds.isEmpty || !ds.all Text.isDigit then none
      else some (if negative then -(ofDigits 10 ds : Int) else ofDigits 10 ds)

/-- A numeral of digits in a base. A digit after the point counts as `scale` units of the exponent. -/
def scaled? (base exponentBase scale : Nat) (isDigit : Char → Bool) (mark : Char) (s : List Char) : Option Numeral := do
  let (whole, fraction, rest) := splitDigits isDigit s
  if whole.isEmpty && fraction.isEmpty then none
  else
    let e ← exponent? mark rest
    return .scaled (ofDigits base (whole ++ fraction)) exponentBase (e - scale * fraction.length)

/-- A name of infinity or of no number; the latter may be followed by letters, digits and underscores in parentheses. -/
def isSpecial (s : List Char) : Bool :=
  let lower := s.map Char.toLower
  lower == "inf".toList || lower == "infinity".toList || lower == "nan".toList ||
    (lower.take 4 == "nan(".toList && lower.getLast? == some ')' &&
      ((lower.drop 4).dropLast.all fun c => c == '_' || ('a' ≤ c && c ≤ 'z') || Text.isDigit c))

/-- The magnitude of a numeral without its sign. -/
def unsigned? (s : List Char) : Option Numeral :=
  if isSpecial s then some .special
  else
    match s with
    | '0' :: 'x' :: r => scaled? 16 2 4 Text.isHexDigit 'p' r
    | '0' :: 'X' :: r => scaled? 16 2 4 Text.isHexDigit 'p' r
    | r => scaled? 10 10 1 Text.isDigit 'e' r

/-- The magnitude of a numeral. -/
def ofText? : List Char → Option Numeral
  | '-' :: r => unsigned? r
  | '+' :: r => unsigned? r
  | r => unsigned? r

end Numeral

/-! ## 2. Formats -/

/-- A binary format: the digits of a normal number, and the exponents of the least and the greatest leading digit. -/
structure BinaryFormat where
  precision : Nat
  /-- The least exponent with its sign turned. -/
  lowest : Nat
  highest : Nat
  deriving DecidableEq, Repr

namespace BinaryFormat

/-- The format of thirty-two bits. -/
def single : BinaryFormat := ⟨24, 126, 127⟩

/-- The format of sixty-four bits. -/
def double : BinaryFormat := ⟨53, 1022, 1023⟩

/-- `n / d` rounds to more than the greatest number. -/
def isTooLarge (f : BinaryFormat) (n d : Nat) : Bool :=
  d * (Nat.pow 2 (f.highest + 1) - Nat.pow 2 (f.highest - f.precision)) ≤ n

/-- `n / d`, rounded to the digits of a normal number, is below the least normal number. -/
def isTiny (f : BinaryFormat) (n d : Nat) : Bool :=
  n * Nat.pow 2 (f.lowest + f.precision + 1) < d * (Nat.pow 2 (f.precision + 1) - 1)

/-- `n / d` is a multiple of the least number. -/
def isMultiple (f : BinaryFormat) (n d : Nat) : Bool := n * Nat.pow 2 (f.lowest + f.precision - 1) % d == 0

/-- Powers beyond this exponent leave every format. -/
def farExponent : Nat := 5000

/-- A format has room for a numeral: it is not too large, and it loses no digits below the least normal number. -/
def hasRoom (f : BinaryFormat) : Numeral → Bool
  | .special => true
  | .scaled c base e =>
    if c = 0 then true
    else if farExponent < e.natAbs then false
    else
      let (n, d) := if 0 ≤ e then (c * Nat.pow base e.toNat, 1) else (c, Nat.pow base (-e).toNat)
      !f.isTooLarge n d && (!f.isTiny n d || f.isMultiple n d)

end BinaryFormat

end ContractShell
