import ContractShell.Yaml.Cursor

/-!
Tags, which say what a node stands for, and the tag that the form of a plain scalar implies.
-/

namespace ContractShell.Yaml

/-- What a node stands for. -/
inductive Tag where
  | null
  | bool
  | int
  | float
  | binary
  | timestamp
  | text
  | sequence
  | mapping
  | orderedMapping
  | pairs
  | set
  /-- The key of the mappings that a mapping takes over. -/
  | merge
  /-- The key of the value that a mapping stands for. -/
  | value
  | unknown
  deriving DecidableEq, Repr

namespace Tag

/-- The start of the tags that every document can use. -/
def common : String := "tag:yaml.org,2002:"

/-- The common tags that have a meaning here. -/
def named : List (String × Tag) := [
  ("null", .null), ("bool", .bool), ("int", .int), ("float", .float), ("binary", .binary), ("timestamp", .timestamp),
  ("str", .text), ("seq", .sequence), ("map", .mapping), ("omap", .orderedMapping), ("pairs", .pairs), ("set", .set),
  ("merge", .merge), ("value", .value)]

/-- The tag of its full text. -/
def ofText (text : String) : Tag := ((named.find? fun p => common ++ p.1 == text).map (·.2)).getD .unknown

/-! ## 1. Numbers -/

/-- A digit or an underscore. -/
def isFigure (c : Char) : Bool := Text.isDigit c || c = '_'

/-- A number without its sign. -/
def unsigned : List Char → List Char
  | '-' :: r => r
  | '+' :: r => r
  | s => s

/-- At least one character, and all of them of a class. -/
def allOf (p : Char → Bool) (s : List Char) : Bool := !s.isEmpty && s.all p

/-- A part of a number to the base sixty: one digit, or two of which the first is below six. -/
def isSixtieth : List Char → Bool
  | [a] => Text.isDigit a
  | [a, b] => '0' ≤ a && a ≤ '5' && Text.isDigit b
  | _ => false

/-- The parts of a number to the base sixty after the first one. -/
def sixtieths : List Char → Nat → Bool
  | [], _ => false
  | c :: r, fuel =>
    match fuel with
    | 0 => false
    | fuel + 1 =>
      if c = ':' then
        let part := r.takeWhile (· ≠ ':')
        let rest := r.dropWhile (· ≠ ':')
        isSixtieth part && (rest.isEmpty || sixtieths rest fuel)
      else false

/-- A number to the base sixty. -/
def isSexagesimal (isFirst : Char → Bool) (s : List Char) : Bool :=
  let first := s.takeWhile (· ≠ ':')
  let rest := s.dropWhile (· ≠ ':')
  match first with
  | [] => false
  | c :: r => isFirst c && r.all isFigure && sixtieths rest rest.length

/-- A digit other than zero. -/
def isPositiveDigit (c : Char) : Bool := '1' ≤ c && c ≤ '9'

/-- An integer: binary, octal, decimal, hexadecimal or to the base sixty. -/
def isInteger (s : List Char) : Bool :=
  match unsigned s with
  | ['0'] => true
  | '0' :: 'b' :: r => allOf (fun c => c = '0' || c = '1' || c = '_') r
  | '0' :: 'x' :: r => allOf (fun c => Text.isHexDigit c || c = '_') r
  | '0' :: r => allOf (fun c => ('0' ≤ c && c ≤ '7') || c = '_') r
  | c :: r => isPositiveDigit c && (r.all isFigure || isSexagesimal isPositiveDigit (c :: r))
  | [] => false

/-- Nothing, or an exponent with its sign. -/
def isExponent : List Char → Bool
  | [] => true
  | e :: sign :: r => (e = 'e' || e = 'E') && (sign = '-' || sign = '+') && allOf Text.isDigit r
  | _ => false

/-- A fraction's figures, and an exponent or none. -/
def isFraction (s : List Char) : Bool := isExponent (s.dropWhile isFigure)

/-- A number with a point in it. -/
def isPointed (s : List Char) : Bool :=
  let whole := s.takeWhile isFigure
  match whole, s.dropWhile isFigure with
  | c :: _, '.' :: r => Text.isDigit c && isFraction r
  | _, _ => false

/-- A number to the base sixty with a point after its last part. -/
def isPointedSexagesimal (s : List Char) : Bool :=
  let whole := s.takeWhile (· ≠ '.')
  match s.dropWhile (· ≠ '.') with
  | _ :: r => r.all isFigure && isSexagesimal Text.isDigit whole
  | [] => false

/-- A floating-point number: with a point, infinite, or not a number. -/
def isFloat (s : List Char) : Bool :=
  isPointed (unsigned s) || isPointedSexagesimal (unsigned s) ||
    [".inf", ".Inf", ".INF"].contains (String.ofList (unsigned s)) ||
    [".nan", ".NaN", ".NAN"].contains (String.ofList s) ||
    match s with
    | '.' :: c :: r => Text.isDigit c && isFraction r
    | _ => false

/-! ## 2. Dates -/

/-- One or two digits, and what follows them. -/
def oneOrTwo : List Char → Option (List Char × List Char)
  | a :: b :: r =>
    if Text.isDigit a then if Text.isDigit b then some ([a, b], r) else some ([a], b :: r) else none
  | [a] => if Text.isDigit a then some ([a], []) else none
  | [] => none

/-- So many digits, and what follows them. -/
def exactly (count : Nat) (s : List Char) : Option (List Char × List Char) :=
  if (s.take count).length = count && (s.take count).all Text.isDigit then some (s.take count, s.drop count) else none

/-- What follows a character. -/
def after (c : Char) : List Char → Option (List Char)
  | x :: r => if x = c then some r else none
  | [] => none

/-- A blank between the parts of a timestamp. -/
def isPad (c : Char) : Bool := c = ' ' || c = '\t'

/-- The difference of a zone from universal time. -/
structure Zone where
  negative : Bool
  hours : List Char
  minutes : List Char
  deriving DecidableEq, Repr

/-- The parts of a time of day, in digits. -/
structure Clock where
  hour : List Char
  minute : List Char
  second : List Char
  fraction : List Char
  zone : Option Zone
  deriving DecidableEq, Repr

/-- The parts of a timestamp, in digits. -/
structure Stamp where
  year : List Char
  month : List Char
  day : List Char
  clock : Option Clock
  deriving DecidableEq, Repr

/-- The difference of a zone. -/
def zoneOf? (s : List Char) : Option Zone :=
  match s with
  | ['Z'] => some ⟨false, ['0'], []⟩
  | c :: r =>
    if c = '-' || c = '+' then do
      let (hours, r) ← oneOrTwo r
      match r with
      | [] => return ⟨c = '-', hours, []⟩
      | r =>
        let (minutes, r) ← exactly 2 (← after ':' r)
        if r.isEmpty then return ⟨c = '-', hours, minutes⟩ else none
    else none
  | [] => none

/-- A time of day. -/
def clockOf? (s : List Char) : Option Clock := do
  let (hour, s) ← oneOrTwo s
  let (minute, s) ← exactly 2 (← after ':' s)
  let (second, s) ← exactly 2 (← after ':' s)
  let pointed := (after '.' s).isSome
  let fraction := if pointed then (s.drop 1).takeWhile Text.isDigit else []
  let rest := if pointed then (s.drop 1).dropWhile Text.isDigit else s
  if rest.isEmpty then return ⟨hour, minute, second, fraction, none⟩
  else return ⟨hour, minute, second, fraction, some (← zoneOf? (rest.dropWhile isPad))⟩

/-- The parts of a timestamp: a date, and a time of day after `T` or blanks. -/
def stampOf? (s : List Char) : Option Stamp := do
  let (year, s) ← exactly 4 s
  let (month, s) ← oneOrTwo (← after '-' s)
  let (day, s) ← oneOrTwo (← after '-' s)
  match s with
  | [] => return ⟨year, month, day, none⟩
  | 'T' :: r | 't' :: r => return ⟨year, month, day, some (← clockOf? r)⟩
  | c :: r => if isPad c then return ⟨year, month, day, some (← clockOf? (r.dropWhile isPad))⟩ else none

/-- A timestamp that a plain scalar can be: a date alone has two digits for the month and the day. -/
def isTimestamp (s : List Char) : Bool :=
  match stampOf? s with
  | some ⟨_, month, day, none⟩ => month.length = 2 && day.length = 2
  | some _ => true
  | none => false

/-! ## 3. Plain scalars -/

/-- The words for truth. -/
def trueWords : List String := ["yes", "Yes", "YES", "true", "True", "TRUE", "on", "On", "ON"]

/-- The words for falsehood. -/
def falseWords : List String := ["no", "No", "NO", "false", "False", "FALSE", "off", "Off", "OFF"]

/-- The words for nothing. -/
def nullWords : List String := ["", "~", "null", "Null", "NULL"]

/-- The scalars that are reserved. -/
def reservedWords : List String := ["!", "&", "*"]

/-- A text without one line feed at its end. -/
def dropFinalBreak (s : List Char) : List Char := if s.getLast? = some '\n' then s.dropLast else s

/-- The tag that the form of a scalar implies. A line feed at the end of one that is not empty does not count. -/
def implied (text : String) : Tag :=
  let s := dropFinalBreak text.toList
  let word := String.ofList s
  if s.isEmpty then if text.isEmpty then .null else .text
  else if trueWords.contains word || falseWords.contains word then .bool
  else if isFloat s then .float
  else if isInteger s then .int
  else if word = "<<" then .merge
  else if nullWords.contains word then .null
  else if isTimestamp s then .timestamp
  else if word = "=" then .value
  else if reservedWords.contains word then .unknown
  else .text

end Tag

end ContractShell.Yaml
