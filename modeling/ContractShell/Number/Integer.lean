import ContractShell.Text.Blank
import ContractShell.Text.Digit
import ContractShell.Text.Quoted

/-!
Integers as text.

An integer is an optional sign and digits of a base, with single underscores between digits and blanks around the whole.
A decimal numeral has at most `maxDigits` digits; one of a base that is a power of two may have any number, and may start
with the mark of its base, such as `0x`.

## Main statements

* `text?_of_isWritable`: an integer that is not too long has its decimal numeral.
-/

namespace ContractShell.Integer

/-- The most digits that a decimal numeral may have. -/
def maxDigits : Nat := 4300

/-- Why a text is not an integer. -/
inductive Fault where
  /-- The text is no numeral of the base. -/
  | malformed (base : Nat) (text : String)
  /-- The bytes are no decimal numeral. -/
  | malformedBytes (bytes : Bytes)
  /-- A decimal numeral of `digits` digits is too long to read. -/
  | tooLong (digits : Nat)
  deriving DecidableEq, Repr

/-- What is said of a quoted text that is no numeral of a base. A long one is cut after two hundred characters. -/
def malformedText (base : Nat) (quoted : List Char) : String :=
  s!"invalid literal for int() with base {base}: " ++ String.ofList (quoted.take 200)

/-- The wording of a fault. -/
def Fault.message : Fault → String
  | .malformed base text => malformedText base (Text.quoted text.toList)
  | .malformedBytes b => malformedText 10 (Text.quotedBytes b).toList
  | .tooLong digits =>
    s!"Exceeds the limit ({maxDigits} digits) for integer string conversion: value has {digits} digits; " ++
      "use sys.set_int_max_str_digits() to increase the limit"

/-- The blanks that may stand around a numeral: of the ASCII ones, only the space and the five from tab to carriage
return. -/
def isEdge (c : Char) : Bool := Text.isBlank c && !(28 ≤ c.toNat && c.toNat ≤ 31)

/-- Reads digits and single underscores between them: how many digits, the number, and the rest. Two underscores in a
row, or one at the end of the run, are refused. -/
def readDigits (base : Nat) : List Char → Bool → Nat → Nat → Option (Nat × Nat × List Char)
  | [], afterMark, n, v => if afterMark then none else some (n, v, [])
  | c :: r, afterMark, n, v =>
    if c = '_' then if afterMark then none else readDigits base r true n v
    else match Text.digitIn? base c with
      | some d => readDigits base r false (n + 1) (v * base + d)
      | none => if afterMark then none else some (n, v, c :: r)

/-- An optional sign: whether it is a minus, and the rest. -/
def readSign : List Char → Bool × List Char
  | '-' :: r => (true, r)
  | '+' :: r => (false, r)
  | r => (false, r)

/-- The letter in the mark of a base. -/
def markOf? (base : Nat) : Option Char :=
  if base = 16 then some 'x' else if base = 8 then some 'o' else if base = 2 then some 'b' else none

/-- The digits of a numeral after a zero and a letter in either case, which an underscore may follow. -/
def dropMark (letter : Char) : List Char → List Char
  | '0' :: x :: '_' :: r => if x = letter ∨ x = letter.toUpper then r else '0' :: x :: '_' :: r
  | '0' :: x :: r => if x = letter ∨ x = letter.toUpper then r else '0' :: x :: r
  | r => r

/-- The digits of a numeral after the mark of its base, if it has one. -/
def dropMarkOf (base : Nat) (s : List Char) : List Char :=
  match markOf? base with
  | some letter => dropMark letter s
  | none => s

/-- The integer that a text denotes in a base: two, eight, ten or sixteen. -/
def read (base : Nat) (text : String) : Except Fault Int :=
  let fault := Fault.malformed base text
  let (negative, s) := readSign (Text.trimBy isEdge text.toList)
  let digits := dropMarkOf base s
  if digits.head? = some '_' then .error fault
  else match readDigits base digits false 0 0 with
    | none => .error fault
    | some (count, value, rest) =>
      if base = 10 ∧ maxDigits < count then .error (.tooLong count)
      else if count = 0 ∨ rest ≠ [] then .error fault
      else .ok (if negative then -(value : Int) else value)

/-- The integer that bytes denote as a decimal numeral in ASCII. -/
def readBytes (b : Bytes) : Except Fault Int :=
  if b.all (·.toNat < 128) then
    match read 10 (String.ofList (b.map fun x => Char.ofNat x.toNat)) with
    | .error (.malformed _ _) => .error (.malformedBytes b)
    | r => r
  else .error (.malformedBytes b)

/-! ## Writing -/

/-- What is said of an integer that has too many digits to be written. -/
def tooLongToWrite : String :=
  s!"Exceeds the limit ({maxDigits} digits) for integer string conversion; " ++
    "use sys.set_int_max_str_digits() to increase the limit"

/-- The integer has at most `maxDigits` digits. -/
def isWritable (n : Int) : Bool := n.natAbs < Nat.pow 10 maxDigits

/-- The decimal numeral of an integer, unless it is too long. -/
def text? (n : Int) : Option String := if isWritable n then some (toString n) else none

/-- A decimal numeral of an integer that is not too long. -/
theorem text?_of_isWritable {n : Int} (h : isWritable n = true) : text? n = some (toString n) := by
  simp only [text?, h, if_true]

end ContractShell.Integer
