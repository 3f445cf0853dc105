import ContractShell.Text.Blank
import ContractShell.Text.Digit
import ContractShell.Bytes.Base58

/-!
The tokens of a command line: names, arguments of each kind, and what separates commands.

A token is read from the start of the remaining text. The reader of each kind takes the longest token of the kind's
language, except for the kinds written as strings, which have one rule for quoted and one for plain text.

## Main statements

* `Quoted.read?_length_lt`: reading a quoted string leaves less text than there was.
* `Kind.read_length_lt`: reading an argument leaves less text than there was.
-/

namespace ContractShell.Command

/-! ## 1. Kinds and separators -/

/-- What follows a command: nothing yet, the end of the line, or a separator. -/
inductive Termination where
  | none
  | endOfInput
  | separator
  deriving DecidableEq, Repr

/-- The name of a termination. -/
def Termination.name : Termination → String
  | .none => "none"
  | .endOfInput => "end-of-input"
  | .separator => "separator"

/-- The kinds of arguments. -/
inductive Kind where
  | address
  | string
  | commandName
  | amount
  | int
  | uint
  | bool
  | hexBytes
  | base58Bytes
  | file
  deriving DecidableEq, Repr

/-- The name of a kind, as usages show it. -/
def Kind.name : Kind → String
  | .address => "address"
  | .string => "string"
  | .commandName => "command"
  | .amount => "amount"
  | .int => "int"
  | .uint => "uint"
  | .bool => "bool"
  | .hexBytes => "hex"
  | .base58Bytes => "base58"
  | .file => "file"

/-- All kinds. -/
def Kind.all : List Kind :=
  [.address, .string, .commandName, .amount, .int, .uint, .bool, .hexBytes, .base58Bytes, .file]

/-- The kind of a name. -/
def Kind.ofName? (name : String) : Option Kind := Kind.all.find? (·.name == name)

/-- What stands at the start of the remaining text, and the text after a separator. -/
def terminator : List Char → Termination × List Char
  | [] => (.endOfInput, [])
  | c :: r => if c = ';' then (.separator, r) else (.none, c :: r)

theorem terminator_length_le (s : List Char) : (terminator s).2.length ≤ s.length := by
  cases s with
  | nil => simp [terminator]
  | cons c r => simp only [terminator]; split <;> simp

/-! ## 2. Runs of characters -/

/-- The longest prefix of characters of a class, and the rest. -/
def spanOf (p : Char → Bool) (s : List Char) : List Char × List Char := (s.takeWhile p, s.dropWhile p)

theorem spanOf_append (p : Char → Bool) (s : List Char) : (spanOf p s).1 ++ (spanOf p s).2 = s :=
  List.takeWhile_append_dropWhile

theorem spanOf_length_le (p : Char → Bool) (s : List Char) : (spanOf p s).2.length ≤ s.length := by
  have h := congrArg List.length (spanOf_append p s)
  simp only [List.length_append] at h
  omega

/-- A run of at least one character of a class, and the rest. -/
def run? (p : Char → Bool) (s : List Char) : Option (List Char × List Char) :=
  match spanOf p s with
  | ([], _) => none
  | (w, r) => some (w, r)

theorem run?_append {p : Char → Bool} {s w r : List Char} (h : run? p s = some (w, r)) : w ++ r = s := by
  have ha := spanOf_append p s
  simp only [run?] at h
  split at h
  · cases h
  · rename_i hs
    cases h
    rw [hs] at ha
    exact ha

theorem run?_ne_nil {p : Char → Bool} {s w r : List Char} (h : run? p s = some (w, r)) : w ≠ [] := by
  simp only [run?] at h
  split at h
  · cases h
  · rename_i hs
    cases h
    assumption

/-! ## 3. Names -/

/-- A letter, a figure or an underscore. -/
def isWordChar (c : Char) : Bool :=
  let n := c.toNat
  (97 ≤ n && n ≤ 122) || (65 ≤ n && n ≤ 90) || (48 ≤ n && n ≤ 57) || n == 95

/-- A command name at the start of a text: a word, or two words with a point between them; and the rest. -/
def name? (s : List Char) : Option (List Char × List Char) :=
  match run? isWordChar s with
  | none => none
  | some (w, '.' :: r) =>
    match run? isWordChar r with
    | some (v, t) => some (w ++ '.' :: v, t)
    | none => some (w, '.' :: r)
  | some (w, r) => some (w, r)

theorem name?_append {s w r : List Char} (h : name? s = some (w, r)) : w ++ r = s := by
  simp only [name?] at h
  split at h
  · cases h
  · rename_i w' r' hw
    have ha := run?_append hw
    split at h
    · rename_i v t hv
      have hb := run?_append hv
      cases h
      rw [← ha, ← hb]
      simp
    · cases h
      exact ha
  · rename_i hw
    cases h
    exact run?_append hw

theorem name?_ne_nil {s w r : List Char} (h : name? s = some (w, r)) : w ≠ [] := by
  simp only [name?] at h
  split at h
  · cases h
  · rename_i hw
    split at h
    · cases h; simp
    · cases h; exact run?_ne_nil hw
  · rename_i hw
    cases h
    exact run?_ne_nil hw

theorem name?_length_lt {s w r : List Char} (h : name? s = some (w, r)) : r.length < s.length := by
  have ha := congrArg List.length (name?_append h)
  have hn : 0 < w.length := List.length_pos_iff.mpr (name?_ne_nil h)
  simp only [List.length_append] at ha
  omega

/-! ## 4. Plain arguments -/

/-- Digits of any script, with a point and more digits if they follow, or a point and at least one digit. -/
def amount? (s : List Char) : Option (List Char × List Char) :=
  match run? Text.isDecimal s, s with
  | some (w, '.' :: r), _ => let (v, t) := spanOf Text.isDecimal r; some (w ++ '.' :: v, t)
  | some (w, r), _ => some (w, r)
  | none, '.' :: r => (run? Text.isDecimal r).map fun (v, t) => ('.' :: v, t)
  | none, _ => none

/-- Figures after an optional plus and, where `signed`, an optional minus. -/
def integer? (signed : Bool) (s : List Char) : Option (List Char × List Char) :=
  match s with
  | c :: r =>
    if c = '+' ∨ (c = '-' ∧ signed = true) then (run? Text.isDigit r).map fun (v, t) => (c :: v, t)
    else run? Text.isDigit s
  | [] => none

/-- Hexadecimal digits, after `0x` if digits follow it. -/
def hex? (s : List Char) : Option (List Char × List Char) :=
  match s with
  | '0' :: 'x' :: r =>
    match run? Text.isHexDigit r with
    | some (v, t) => some ('0' :: 'x' :: v, t)
    | none => run? Text.isHexDigit s
  | _ => run? Text.isHexDigit s

/-- A character of a plain string: neither blank, nor a quote, nor a separator. -/
def isPlain (c : Char) : Bool := !Text.isBlank c && c != '"' && c != '\'' && c != ';'

/-- A letter regardless of case; the long s counts as an s. -/
def foldCase (c : Char) : Char := if c.toNat = 0x17F then 's' else c.toLower

/-- The rest of a text that starts with a word in any case. -/
def dropWord? : List Char → List Char → Option (List Char)
  | [], s => some s
  | c :: w, d :: s => if foldCase d = c then dropWord? w s else none
  | _ :: _, [] => none

/-- A truth value, as a word in any case or as a figure; and the rest. -/
def bool? (s : List Char) : Option (Bool × List Char) :=
  match dropWord? "false".toList s, dropWord? "true".toList s, s with
  | some r, _, _ => some (false, r)
  | none, some r, _ => some (true, r)
  | none, none, '0' :: r => some (false, r)
  | none, none, '1' :: r => some (true, r)
  | none, none, _ => none

/-! ## 5. Quoted strings -/

namespace Quoted

/-- A character that a backslash stands before to mean itself. -/
def isEscapable (c : Char) : Bool := c = '\\' || c = '"' || c = '\''

/-- The rest of a string after its opening quote: its value, and the text after its closing quote. `escaped` says that a
backslash was just read; before another character than a backslash or a quote mark it stands for itself. -/
def readRest? (quote : Char) : Bool → List Char → Option (List Char × List Char)
  | _, [] => none
  | true, c :: r =>
    if isEscapable c then (readRest? quote false r).map fun (v, t) => (c :: v, t)
    else if c = quote then some (['\\'], r)
    else (readRest? quote false r).map fun (v, t) => ('\\' :: c :: v, t)
  | false, c :: r =>
    if c = '\\' then readRest? quote true r
    else if c = quote then some ([], r)
    else (readRest? quote false r).map fun (v, t) => (c :: v, t)

theorem readRest?_length_lt {quote : Char} {s v r : List Char} {escaped : Bool}
    (h : readRest? quote escaped s = some (v, r)) : r.length < s.length := by
  induction s generalizing v escaped with
  | nil => cases escaped <;> cases h
  | cons c t ih =>
    simp only [List.length_cons]
    cases escaped
    all_goals
      simp only [readRest?] at h
      repeat' split at h
    all_goals
      first
        | (cases h; omega)
        | exact Nat.lt_succ_of_lt (ih h)
        | (obtain ⟨⟨v', w⟩, h1, h2⟩ := Option.map_eq_some_iff.mp h
           cases h2
           have := ih h1
           omega)

/-- A quoted string at the start of a text: its value, and the rest. -/
def read? : List Char → Option (List Char × List Char)
  | [] => none
  | quote :: r => readRest? quote false r

theorem read?_length_lt {s v r : List Char} (h : read? s = some (v, r)) : r.length < s.length := by
  cases s with
  | nil => cases h
  | cons q t => have := readRest?_length_lt h; simp only [List.length_cons]; omega

end Quoted

/-! ## 6. Arguments -/

/-- Why an argument cannot be read. -/
inductive TokenFault where
  /-- No token of the kind stands there. -/
  | invalid
  /-- A quoted string has no closing quote. -/
  | unterminated
  deriving DecidableEq, Repr

/-- A string: quoted if it starts with a quote, plain otherwise. -/
def string? (s : List Char) : Except TokenFault (List Char × List Char) :=
  match s with
  | [] => .error .invalid
  | c :: _ =>
    if c = '"' ∨ c = '\'' then
      match Quoted.read? s with
      | some x => .ok x
      | none => .error .unterminated
    else match run? isPlain s with
      | some x => .ok x
      | none => .error .invalid

/-- An optional token as a token or a fault. -/
def orInvalid {α : Type} : Option α → Except TokenFault α
  | some x => .ok x
  | none => .error .invalid

/-- An argument of a kind at the start of a text: its value, and the rest. The value of a truth value is the word in
lower case, that of a quoted string its content, and that of the others the token itself. -/
def Kind.read (kind : Kind) (s : List Char) : Except TokenFault (List Char × List Char) :=
  match kind with
  | .address | .base58Bytes => orInvalid (run? Base58.isDigit s)
  | .string | .commandName | .file => string? s
  | .amount => orInvalid (amount? s)
  | .int => orInvalid (integer? true s)
  | .uint => orInvalid (integer? false s)
  | .bool => orInvalid ((bool? s).map fun (b, r) => ((if b then "true" else "false").toList, r))
  | .hexBytes => orInvalid (hex? s)

theorem run?_length_lt {p : Char → Bool} {s w r : List Char} (h : run? p s = some (w, r)) : r.length < s.length := by
  have ha := congrArg List.length (run?_append h)
  have hn : 0 < w.length := List.length_pos_iff.mpr (run?_ne_nil h)
  simp only [List.length_append] at ha
  omega

theorem amount?_length_lt {s w r : List Char} (h : amount? s = some (w, r)) : r.length < s.length := by
  simp only [amount?] at h
  split at h
  · rename_i hw
    have := run?_length_lt hw
    cases h
    have := spanOf_length_le Text.isDecimal ‹List Char›
    simp only [List.length_cons] at *
    omega
  · rename_i hw
    cases h
    exact run?_length_lt hw
  · obtain ⟨⟨v, t⟩, h1, h2⟩ := Option.map_eq_some_iff.mp h
    cases h2
    have := run?_length_lt h1
    simp only [List.length_cons]
    omega
  · cases h

theorem integer?_length_lt {signed : Bool} {s w r : List Char} (h : integer? signed s = some (w, r)) :
    r.length < s.length := by
  cases s with
  | nil => cases h
  | cons c t =>
    simp only [integer?] at h
    split at h
    · obtain ⟨⟨v, u⟩, h1, h2⟩ := Option.map_eq_some_iff.mp h
      cases h2
      have := run?_length_lt h1
      simp only [List.length_cons]
      omega
    · exact run?_length_lt h

theorem hex?_length_lt {s w r : List Char} (h : hex? s = some (w, r)) : r.length < s.length := by
  simp only [hex?] at h
  split at h
  · split at h
    · rename_i hv
      have := run?_length_lt hv
      cases h
      simp only [List.length_cons]
      omega
    · exact run?_length_lt h
  · exact run?_length_lt h

theorem dropWord?_length {w s r : List Char} (h : dropWord? w s = some r) : w.length + r.length = s.length := by
  induction w generalizing s with
  | nil => cases h; simp
  | cons c w ih =>
    cases s with
    | nil => cases h
    | cons d s =>
      simp only [dropWord?] at h
      split at h
      · have := ih h
        simp only [List.length_cons]
        omega
      · cases h

theorem bool?_length_lt {s r : List Char} {b : Bool} (h : bool? s = some (b, r)) : r.length < s.length := by
  simp only [bool?] at h
  split at h
  · rename_i hw
    have := dropWord?_length hw
    cases h
    simp at this
    omega
  · rename_i hw
    have := dropWord?_length hw
    cases h
    simp at this
    omega
  · cases h; simp
  · cases h; simp
  · cases h

theorem string?_length_lt {s w r : List Char} (h : string? s = .ok (w, r)) : r.length < s.length := by
  simp only [string?] at h
  split at h
  · cases h
  · split at h
    · split at h
      · rename_i hq
        cases h
        exact Quoted.read?_length_lt hq
      · cases h
    · split at h
      · rename_i hr
        cases h
        exact run?_length_lt hr
      · cases h

theorem orInvalid_eq_ok {α : Type} {o : Option α} {x : α} (h : orInvalid o = .ok x) : o = some x := by
  cases o <;> cases h
  rfl

/-- Reading an argument leaves less text than there was. -/
theorem Kind.read_length_lt {kind : Kind} {s w r : List Char} (h : kind.read s = .ok (w, r)) :
    r.length < s.length := by
  cases kind <;> simp only [Kind.read] at h
  case address | base58Bytes => exact run?_length_lt (orInvalid_eq_ok h)
  case string | commandName | file => exact string?_length_lt h
  case amount => exact amount?_length_lt (orInvalid_eq_ok h)
  case int | uint => exact integer?_length_lt (orInvalid_eq_ok h)
  case hexBytes => exact hex?_length_lt (orInvalid_eq_ok h)
  case bool =>
    obtain ⟨⟨b, t⟩, h1, h2⟩ := Option.map_eq_some_iff.mp (orInvalid_eq_ok h)
    cases h2
    exact bool?_length_lt h1

end ContractShell.Command
