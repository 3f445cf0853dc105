import ContractShell.Json.Basic
import ContractShell.Text.Units

/-!
Reading JSON documents.

The reader takes the standard grammar, and `NaN`, `Infinity` and `-Infinity` as numbers. Of members with the same key the
last value counts, at the first one's place. A unit of a surrogate pair that stands alone is read as the character that
stands for it. An integer may have no more digits than `Integer.maxDigits`.
-/

namespace ContractShell.Json

/-! ## 1. Blanks and literals -/

/-- The four blanks of the grammar. -/
def isBlank (c : Char) : Bool := c = ' ' || c = '\t' || c = '\n' || c = '\r'

/-- The text after its leading blanks. -/
def skipBlank (s : List Char) : List Char := s.dropWhile isBlank

/-- The text after a literal that it starts with. -/
def dropLiteral? : List Char → List Char → Option (List Char)
  | [], s => some s
  | c :: w, d :: s => if c = d then dropLiteral? w s else none
  | _ :: _, [] => none

/-! ## 2. Strings -/

/-- The unit of four hexadecimal digits, and the rest. -/
def readUnit? : List Char → Option (Nat × List Char)
  | a :: b :: c :: d :: r => do
    let w ← Text.hexDigit? a
    let x ← Text.hexDigit? b
    let y ← Text.hexDigit? c
    let z ← Text.hexDigit? d
    some (((w * 16 + x) * 16 + y) * 16 + z, r)
  | _ => none

/-- The character of a unit and, after the first unit of a pair, of the escape that follows it; and the rest. -/
def readEscapedUnit? (s : List Char) : Option (Char × List Char) := do
  let (u, r) ← readUnit? s
  let alone := (Text.Units.single u, r)
  match r with
  | '\\' :: 'u' :: t =>
    if Text.Units.isFirst u then
      let (v, t') ← readUnit? t
      return if Text.Units.isSecond v then (Text.Units.joined u v, t') else alone
    else return alone
  | _ => return alone

/-- The character of an escape of one letter. -/
def shortEscape? (c : Char) : Option Char :=
  match c with
  | '"' => some '"'
  | '\\' => some '\\'
  | '/' => some '/'
  | 'b' => some (Char.ofNat 8)
  | 'f' => some (Char.ofNat 12)
  | 'n' => some '\n'
  | 'r' => some '\r'
  | 't' => some '\t'
  | _ => none

/-- The rest of a string after its opening quote: the characters, gathered in reverse, and the text after the closing
quote. Control characters are refused. `fuel` bounds the characters read. -/
def readStringFrom : Nat → List Char → List Char → Option (String × List Char)
  | 0, _, _ => none
  | fuel + 1, gathered, s =>
    match s with
    | [] => none
    | '"' :: r => some (String.ofList gathered.reverse, r)
    | '\\' :: 'u' :: r =>
      match readEscapedUnit? r with
      | none => none
      | some (c, t) => readStringFrom fuel (c :: gathered) t
    | '\\' :: e :: r =>
      match shortEscape? e with
      | none => none
      | some c => readStringFrom fuel (c :: gathered) r
    | c :: r => if c.toNat < 32 then none else if c = '\\' then none else readStringFrom fuel (c :: gathered) r

/-! ## 3. Numbers -/

/-- The longest run of digits, and the rest. -/
def spanDigits (s : List Char) : List Char × List Char := s.span Text.isDigit

/-- The number of a run of digits. -/
def digitsValue (ds : List Char) : Nat := ds.foldl (fun n c => n * 10 + (c.toNat - 48)) 0

/-- The fraction after a point, when a digit follows it: its digits, and the rest. -/
def readFraction (s : List Char) : List Char × List Char :=
  match s with
  | '.' :: r =>
    match spanDigits r with
    | ([], _) => ([], s)
    | (ds, t) => (ds, t)
  | _ => ([], s)

/-- The exponent, when digits follow its mark and sign; and the rest. -/
def readPower (s : List Char) : Option Int × List Char :=
  match s with
  | c :: r =>
    if c = 'e' ∨ c = 'E' then
      let (negative, t) := Integer.readSign r
      match spanDigits t with
      | ([], _) => (none, s)
      | (ds, u) => (some (if negative then -(digitsValue ds : Int) else digitsValue ds), u)
    else (none, s)
  | [] => (none, s)

/-- The longest number at the start of a text without sign: a single zero, or digits that start with none; then the
fraction and the exponent. -/
def readUnsigned? (negative : Bool) (s : List Char) : Option (Json × List Char) :=
  let whole : Option (List Char × List Char) :=
    match s with
    | '0' :: r => some (['0'], r)
    | _ =>
      match spanDigits s with
      | ([], _) => none
      | (ds, r) => some (ds, r)
  match whole with
  | none => none
  | some (ds, r) =>
    let (fraction, t) := readFraction r
    let (power, u) := readPower t
    if fraction.isEmpty && power.isNone then
      if Integer.maxDigits < ds.length then none
      else
        let n := digitsValue ds
        some (.int (if negative then -(n : Int) else n), u)
    else
      some (.float (.ofDecimal negative (digitsValue (ds ++ fraction)) (power.getD 0 - fraction.length)), u)

/-- A number at the start of a text, and the rest. -/
def readNumber? : List Char → Option (Json × List Char)
  | '-' :: r =>
    match dropLiteral? "Infinity".toList r with
    | some t => some (.float (.infinite true), t)
    | none => readUnsigned? true r
  | s => readUnsigned? false s

/-! ## 4. Documents -/

mutual

/-- A value at the start of a text, and the rest. `fuel` bounds the values and separators read. -/
def readValue? : Nat → List Char → Option (Json × List Char)
  | 0, _ => none
  | fuel + 1, s =>
    match s with
    | '"' :: r => (readStringFrom (fuel + 1) [] r).map fun (t, u) => (.str t, u)
    | '[' :: r =>
      match skipBlank r with
      | ']' :: t => some (.arr [], t)
      | t => (readItems? fuel [] t).map fun (items, u) => (.arr items, u)
    | '\x7b' :: r =>
      match skipBlank r with
      | '\x7d' :: t => some (.obj [], t)
      | t => (readMembers? fuel [] t).map fun (m, u) => (.obj m, u)
    | _ =>
      match dropLiteral? "null".toList s, dropLiteral? "true".toList s, dropLiteral? "false".toList s with
      | some t, _, _ => some (.null, t)
      | _, some t, _ => some (.bool true, t)
      | _, _, some t => some (.bool false, t)
      | none, none, none =>
        match dropLiteral? "NaN".toList s, dropLiteral? "Infinity".toList s with
        | some t, _ => some (.float .nan, t)
        | _, some t => some (.float (.infinite false), t)
        | none, none => readNumber? s

/-- The items of a list up to its end; those read so far are in reverse. -/
def readItems? : Nat → List Json → List Char → Option (List Json × List Char)
  | 0, _, _ => none
  | fuel + 1, done, s =>
    match readValue? fuel s with
    | none => none
    | some (v, r) =>
      match skipBlank r with
      | ',' :: t => readItems? fuel (v :: done) (skipBlank t)
      | ']' :: t => some ((v :: done).reverse, t)
      | _ => none

/-- The members of an object up to its end. -/
def readMembers? : Nat → List (String × Json) → List Char → Option (List (String × Json) × List Char)
  | 0, _, _ => none
  | fuel + 1, done, s =>
    match s with
    | '"' :: r =>
      match readStringFrom (fuel + 1) [] r with
      | none => none
      | some (key, t) =>
        match skipBlank t with
        | ':' :: u =>
          match readValue? fuel (skipBlank u) with
          | none => none
          | some (v, w) =>
            match skipBlank w with
            | ',' :: x => readMembers? fuel (set key v done) (skipBlank x)
            | '\x7d' :: x => some (set key v done, x)
            | _ => none
        | _ => none
    | _ => none

end

/-- The document that a text is, with blanks around it. -/
def read? (text : String) : Option Json :=
  let s := skipBlank text.toList
  match readValue? (2 * s.length + 2) s with
  | some (v, r) => if (skipBlank r).isEmpty then some v else none
  | none => none

end ContractShell.Json
