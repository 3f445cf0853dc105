import ContractShell.Bytes.Base64
import ContractShell.Text.Lower
import ContractShell.Text.Split
import ContractShell.Yaml.Value

/-!
The values that scalars stand for. Each tag has one reader.
-/

namespace ContractShell.Yaml.Value

/-! ## 1. Integers -/

/-- A number's text without underscores. -/
def figures (text : String) : List Char := text.toList.filter (· ≠ '_')

/-- The sign of a number, and what follows it. There must be a character. -/
def splitSign (s : List Char) : Except Fault (Bool × List Char) :=
  match s with
  | [] => .error .noDigits
  | '-' :: r => .ok (true, r)
  | '+' :: r => .ok (false, r)
  | s => .ok (false, s)

/-- An integer with a sign. -/
def signed (negative : Bool) (n : Int) : Int := if negative then -n else n

/-- The integer of digits of a base. -/
def digitsOf (base : Nat) (s : List Char) : Except Fault Int :=
  (Integer.read base (String.ofList s)).mapError .numeral

/-- The integer of a text: binary, hexadecimal or octal behind its mark, to the base sixty, or decimal. -/
def integerOf (text : String) : Except Fault Int := do
  let (negative, s) ← splitSign (figures text)
  let n ← match s with
    | [] => throw .noDigits
    | ['0'] => pure 0
    | '0' :: 'b' :: r => digitsOf 2 r
    | '0' :: 'x' :: r => digitsOf 16 r
    | '0' :: r => digitsOf 8 ('0' :: r)
    | s =>
      if s.contains ':' then (Text.split ':' s).foldlM (fun n part => return n * 60 + (← digitsOf 10 part)) 0
      else digitsOf 10 s
  return signed negative n

/-! ## 2. Floating-point numbers -/

/-- The floating-point number of a part of a text. -/
def floatPart (s : List Char) : Except Fault Binary64 :=
  match Binary64.ofText? (String.ofList s) with
  | some x => .ok x
  | none => .error (.notFloat (String.ofList s))

/-- The sum of parts, each sixty times the one before it, from a unit on. A unit can be too large. -/
def sexagesimal (unit : Nat) (sum : Binary64) : List Binary64 → Except Fault Binary64
  | [] => .ok sum
  | x :: r =>
    match Binary64.ofInt? unit with
    | some y => sexagesimal (unit * 60) (sum.add (x.mul y)) r
    | none => .error .tooLarge

/-- The floating-point number of a text: infinite, not a number, to the base sixty, or decimal. -/
def floatOf (text : String) : Except Fault Binary64 := do
  let (negative, s) ← splitSign (Text.lower (figures text))
  let x ←
    if s = ".inf".toList then pure (Binary64.infinite false)
    else if s = ".nan".toList then pure Binary64.nan
    else if s.contains ':' then do sexagesimal 1 (.finite false 0 0) (← (Text.split ':' s).mapM floatPart).reverse
    else floatPart s
  return if negative then x.negate else x

/-- A text that stands for what is not a number without an origin of its own. -/
def isPlainNan (text : String) : Bool :=
  let s := Text.lower (figures text)
  [".nan", "-.nan", "+.nan"].contains (String.ofList s)

/-! ## 3. Other values -/

/-- The truth value of a word, in any case. -/
def truthOf (text : String) : Except Fault Bool :=
  let word := String.ofList (Text.lower text.toList)
  if Tag.trueWords.contains word then .ok true
  else if Tag.falseWords.contains word then .ok false
  else .error (.notTruth word)

/-- The bytes of a base64 text. -/
def bytesOf (text : String) : Except Fault Bytes := (Base64.decode false text.toList).mapError fun _ => .malformed

/-- The date or the time of a timestamp. -/
def timeOf (text : String) : Except Fault Value :=
  match Tag.stampOf? (Tag.dropFinalBreak text.toList) with
  | none => .error .notTimestamp
  | some ⟨year, month, day, clock⟩ =>
    let y := numberOf year
    let m := numberOf month
    let d := numberOf day
    match clock with
    | none => ((Date.make y m d).map Value.date).mapError .date
    | some c => ((Instant.make y m d c).map Value.instant).mapError .date

/-- The value of a scalar, at the node of a number. All that is written as `.nan` is the same. -/
def ofScalar (number : Nat) (tag : Tag) (text : String) : Except Fault Value :=
  match tag with
  | .null => .ok .null
  | .bool => (truthOf text).map .bool
  | .int => (integerOf text).map .int
  | .float => (floatOf text).map fun x => .float x (if isPlainNan text then 0 else number + 1)
  | .binary => (bytesOf text).map .bytes
  | .timestamp => timeOf text
  | .text => .ok (.text text)
  | _ => .error .malformed

end ContractShell.Yaml.Value
