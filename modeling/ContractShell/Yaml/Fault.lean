import ContractShell.Number.Integer

/-!
What can go wrong when a YAML text is read.
-/

namespace ContractShell.Yaml

/-- Why digits are not a date or a time. -/
inductive DateFault where
  | year (year : Nat)
  | month
  | day
  | hour
  | minute
  | second
  /-- A zone differs from universal time by a day or more: so many minutes. -/
  | zone (minutes : Int)
  deriving DecidableEq, Repr

/-- Why a text is not a YAML document, or not a value. -/
inductive Fault where
  /-- The text breaks the rules of the language. -/
  | malformed
  /-- An escape stands for a number that no character has. -/
  | noCharacter (number : Nat)
  /-- A truth value is expected, and the word is none. -/
  | notTruth (word : String)
  /-- A number is expected, and there is no digit. -/
  | noDigits
  | numeral (fault : Integer.Fault)
  /-- A floating-point number is expected. -/
  | notFloat (text : String)
  /-- An integer is too large for a floating-point number. -/
  | tooLarge
  /-- A timestamp is expected. -/
  | notTimestamp
  /-- A timestamp is expected, and there is a mapping. -/
  | mappingForTimestamp
  | date (fault : DateFault)
  deriving DecidableEq, Repr

/-- A length of time, in days and seconds of a day. -/
def spanText (minutes : Int) : String :=
  let days := minutes.fdiv 1440
  let seconds := minutes.fmod 1440 * 60
  let parts := (if days = 0 then [] else ["days=" ++ toString days]) ++
    (if seconds = 0 then [] else ["seconds=" ++ toString seconds])
  "datetime.timedelta(" ++ (if parts.isEmpty then "0" else String.intercalate ", " parts) ++ ")"

/-- The wording of a date's fault. -/
def DateFault.message : DateFault → String
  | .year y => "year " ++ toString y ++ " is out of range"
  | .month => "month must be in 1..12"
  | .day => "day is out of range for month"
  | .hour => "hour must be in 0..23"
  | .minute => "minute must be in 0..59"
  | .second => "second must be in 0..59"
  | .zone minutes =>
    "offset must be a timedelta strictly between -timedelta(hours=24) and timedelta(hours=24), not " ++
      spanText minutes ++ "."

/-- The largest number that is looked up as a character at all. -/
def largestLookup : Nat := 0x7FFFFFFF

/-- The wording of a fault. -/
def Fault.message : Fault → String
  | .malformed => "..."
  | .noCharacter n =>
    if n ≤ largestLookup then "chr() arg not in range(0x110000)" else "Python int too large to convert to C int"
  | .notTruth word => Text.quotedString word
  | .noDigits => "string index out of range"
  | .numeral f => f.message
  | .notFloat text => "could not convert string to float: " ++ Text.quotedString text
  | .tooLarge => "int too large to convert to float"
  | .notTimestamp => "'NoneType' object has no attribute 'groupdict'"
  | .mappingForTimestamp => "expected string or bytes-like object, got 'list'"
  | .date f => f.message

end ContractShell.Yaml
