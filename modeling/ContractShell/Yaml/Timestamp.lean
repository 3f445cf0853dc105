import ContractShell.Yaml.Fault
import ContractShell.Yaml.Tag

/-!
Dates and times, from their digits, and as text.
-/

namespace ContractShell.Yaml

/-! ## 1. Dates -/

/-- A day of the calendar. -/
structure Date where
  year : Nat
  month : Nat
  day : Nat
  deriving DecidableEq, Repr

/-- A year with a leap day. -/
def isLeap (year : Nat) : Bool := year % 4 = 0 && (year % 100 ≠ 0 || year % 400 = 0)

/-- The days of a month. -/
def daysOf (year month : Nat) : Nat :=
  if month = 2 then if isLeap year then 29 else 28
  else if month = 4 ∨ month = 6 ∨ month = 9 ∨ month = 11 then 30
  else 31

/-- The date of three numbers. -/
def Date.make (year month day : Nat) : Except DateFault Date :=
  if year = 0 then .error (.year year)
  else if month = 0 ∨ 12 < month then .error .month
  else if day = 0 ∨ daysOf year month < day then .error .day
  else .ok ⟨year, month, day⟩

/-- A number with so many digits at least. -/
def padded (width n : Nat) : String :=
  let s := toString n
  String.ofList (List.replicate (width - s.length) '0') ++ s

/-- A date as text. -/
def Date.text (d : Date) : String := padded 4 d.year ++ "-" ++ padded 2 d.month ++ "-" ++ padded 2 d.day

/-! ## 2. Times -/

/-- A time of a day, with the difference from universal time in minutes if it is known. -/
structure Instant where
  date : Date
  hour : Nat
  minute : Nat
  second : Nat
  microsecond : Nat
  zone : Option Int
  deriving DecidableEq, Repr

/-- The number that digits stand for. -/
def numberOf (digits : List Char) : Nat := digits.foldl (fun n c => 10 * n + (c.toNat - 48)) 0

/-- The minutes of a zone's difference, less than a day either way. -/
def minutesOf (z : Tag.Zone) : Except DateFault Int :=
  let size : Int := numberOf z.hours * 60 + numberOf z.minutes
  let minutes := if z.negative then -size else size
  if size < 1440 then .ok minutes else .error (.zone minutes)

/-- The microseconds of a fraction's first six digits. -/
def microsecondsOf (digits : List Char) : Nat := numberOf ((digits ++ List.replicate 6 '0').take 6)

/-- The time of a date and the parts of a clock. -/
def Instant.make (year month day : Nat) (c : Tag.Clock) : Except DateFault Instant := do
  let zone ← match c.zone with
    | none => pure none
    | some z => some <$> minutesOf z
  let date ← Date.make year month day
  let hour := numberOf c.hour
  let minute := numberOf c.minute
  let second := numberOf c.second
  if 23 < hour then throw .hour
  if 59 < minute then throw .minute
  if 59 < second then throw .second
  return ⟨date, hour, minute, second, microsecondsOf c.fraction, zone⟩

/-- The days of the months before one in a year. -/
def daysBefore (year month : Nat) : Nat := (List.range (month - 1)).foldl (fun n m => n + daysOf year (m + 1)) 0

/-- The days from the start of the calendar. -/
def Date.ordinal (d : Date) : Nat :=
  let past := d.year - 1
  past * 365 + past / 4 - past / 100 + past / 400 + daysBefore d.year d.month + d.day

/-- The microseconds from the start of the calendar, where a time is. -/
def Instant.microseconds (t : Instant) : Int :=
  (((t.date.ordinal * 24 + t.hour) * 60 + t.minute) * 60 + t.second) * 1000000 + t.microsecond

/-- Two times are the same: at the same moment if both zones are known, and at the same reading of the clock if none
is. -/
def Instant.isSame (t u : Instant) : Bool :=
  match t.zone, u.zone with
  | none, none => t == u
  | some a, some b => t.microseconds - a * 60000000 == u.microseconds - b * 60000000
  | _, _ => false

/-- A difference from universal time, as text. -/
def zoneText (minutes : Int) : String :=
  (if minutes < 0 then "-" else "+") ++ padded 2 (minutes.natAbs / 60) ++ ":" ++ padded 2 (minutes.natAbs % 60)

/-- A time as text. -/
def Instant.text (t : Instant) : String :=
  t.date.text ++ " " ++ padded 2 t.hour ++ ":" ++ padded 2 t.minute ++ ":" ++ padded 2 t.second ++
    (if t.microsecond = 0 then "" else "." ++ padded 6 t.microsecond) ++ (t.zone.map zoneText).getD ""

/-! ## 3. Inside of other values -/

/-- A date as it is shown inside of another value. -/
def Date.shown (d : Date) : String :=
  "datetime.date(" ++ String.intercalate ", " [toString d.year, toString d.month, toString d.day] ++ ")"

/-- A zone as it is shown inside of another value. -/
def zoneShown (minutes : Int) : String :=
  if minutes = 0 then "datetime.timezone.utc" else "datetime.timezone(" ++ spanText minutes ++ ")"

/-- A time as it is shown inside of another value: without seconds and fractions that are zero. -/
def Instant.shown (t : Instant) : String :=
  let exact := if t.microsecond = 0 then [] else [t.second, t.microsecond]
  let rest := if t.microsecond = 0 ∧ t.second ≠ 0 then [t.second] else exact
  let numbers := [t.date.year, t.date.month, t.date.day, t.hour, t.minute] ++ rest
  let zone := (t.zone.map fun z => ["tzinfo=" ++ zoneShown z]).getD []
  "datetime.datetime(" ++ String.intercalate ", " (numbers.map toString ++ zone) ++ ")"

end ContractShell.Yaml
