import ContractShell.Descriptor.Basic
import ContractShell.Number.BinaryFormat
import ContractShell.Text.Digit

/-!
Default values of fields, which are written as text.

Integers are decimal, octal after `0`, or hexadecimal after `0x`; bytes have escapes behind a backslash. Numbers of all
sorts end before the first zero byte, and the empty text is zero.
-/

namespace ContractShell.Descriptor

/-- The value that a field has when none is given. -/
inductive Default where
  /-- Zero, false, or nothing. -/
  | zero
  | number (value : Int)
  | flag (value : Bool)
  | bytes (value : Bytes)
  deriving DecidableEq, Repr

namespace Default

/-! ## 1. Integers -/

/-- A blank before a number. -/
def isGap (c : Char) : Bool := c = ' ' || (9 ≤ c.toNat && c.toNat ≤ 13)

/-- The number of a text that consists of digits of a base. -/
def digits? (base : Nat) (s : List Char) : Option Nat :=
  s.foldlM (fun n c => (Text.hexDigit? c).bind fun d => if d < base then some (n * base + d) else none) 0

/-- The number of a text after its sign. -/
def magnitude? : List Char → Option Nat
  | [] => none
  | '0' :: 'x' :: c :: r => digits? 16 (c :: r)
  | '0' :: 'X' :: c :: r => digits? 16 (c :: r)
  | '0' :: r => digits? 8 r
  | s => digits? 10 s

/-- The sign and the number of a text; the empty text is zero. -/
def integer? (s : List Char) : Option (Bool × Nat) :=
  if s.isEmpty then some (false, 0)
  else
    match s.dropWhile isGap with
    | '-' :: r => (magnitude? r).map (true, ·)
    | '+' :: r => (magnitude? r).map (false, ·)
    | r => (magnitude? r).map (false, ·)

/-- A signed integer of `bits` bits. -/
def signed? (bits : Nat) (s : List Char) : Option Int := do
  let (negative, n) ← integer? s
  if negative then if n ≤ Nat.pow 2 (bits - 1) then some (-(n : Int)) else none
  else if n < Nat.pow 2 (bits - 1) then some n else none

/-- An unsigned integer of `bits` bits. A negative number counts as its residue modulo `2 ^ 64`. -/
def unsigned? (bits : Nat) (s : List Char) : Option Int := do
  let (negative, n) ← integer? s
  if 0x10000000000000000 ≤ n then none
  else
    let v := if negative then (0x10000000000000000 - n) % 0x10000000000000000 else n
    if v < Nat.pow 2 bits then some v else none

/-- The most characters of a number, and one. -/
def numberLimit : Nat := 63

/-! ## 2. Bytes -/

/-- The characters that stand for a control character behind a backslash. -/
def controlEscapes : List (Char × Nat) := [
  ('a', 7), ('b', 8), ('f', 12), ('n', 10), ('r', 13), ('t', 9), ('v', 11), ('\\', 92), ('\'', 39), ('"', 34), ('?', 63)]

/-- A digit below eight. -/
def isOctal (c : Char) : Bool := 48 ≤ c.toNat && c.toNat ≤ 55

/-- An escape behind a backslash: its byte, and the rest. Hexadecimal digits count modulo `2 ^ 32`. -/
def escape? : List Char → Option (UInt8 × List Char)
  | [] => none
  | c :: r =>
    match controlEscapes.find? (·.1 == c) with
    | some (_, n) => some (UInt8.ofNat n, r)
    | none =>
      if c = 'x' ∨ c = 'X' then
        let ds := r.takeWhile Text.isHexDigit
        match ds, digits? 16 ds with
        | _ :: _, some n =>
          let low := n % 0x100000000
          if low < 256 then some (UInt8.ofNat low, r.dropWhile Text.isHexDigit) else none
        | _, _ => none
      else if isOctal c then
        let ds := ((c :: r).take 3).takeWhile isOctal
        (digits? 8 ds).map fun n => (UInt8.ofNat n, (c :: r).drop ds.length)
      else none

/-- The bytes of a text with escapes. Each step takes at least one character, so `fuel` need not exceed their number. -/
def unescape? : Nat → List Char → Option Bytes
  | _, [] => some []
  | 0, _ => none
  | fuel + 1, '\\' :: r => (escape? r).bind fun (b, t) => (unescape? fuel t).map (b :: ·)
  | fuel + 1, c :: r => (unescape? fuel r).map (UInt8.ofNat c.toNat :: ·)

/-! ## 3. Values -/

/-- A floating-point number that a format has room for. -/
def isFloat (format : BinaryFormat) (s : List Char) : Bool :=
  s.isEmpty || ((Numeral.ofText? (s.dropWhile isGap)).map format.hasRoom).getD false

/-- The default value of a type that a text stands for. Enumerations know their values by name. -/
def read? (type : FieldType) (values : List (String × Int)) (text : Bytes) : Option Default :=
  let chars := text.map fun b => Char.ofNat b.toNat
  let numeral := if chars.length < numberLimit then some (chars.takeWhile (·.toNat ≠ 0)) else none
  match type with
  | .int32 | .sint32 | .sfixed32 => (numeral.bind (signed? 32)).map .number
  | .int64 | .sint64 | .sfixed64 => (numeral.bind (signed? 64)).map .number
  | .uint32 | .fixed32 => (numeral.bind (unsigned? 32)).map .number
  | .uint64 | .fixed64 => (numeral.bind (unsigned? 64)).map .number
  | .float => if (numeral.map (isFloat .single)).getD false then some .zero else none
  | .double => if (numeral.map (isFloat .double)).getD false then some .zero else none
  | .bool =>
    if chars = "true".toList then some (.flag true) else if chars = "false".toList then some (.flag false) else none
  | .string => some (.bytes text)
  | .bytes => (unescape? chars.length chars).map .bytes
  | .enum => (values.find? (·.1.toList == chars)).map fun v => .number v.2
  | .message | .group => none

end Default

end ContractShell.Descriptor
