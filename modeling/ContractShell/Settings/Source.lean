import ContractShell.Url.Basic
import ContractShell.Files.Disk
import ContractShell.Yaml.Document

/-!
Where settings come from: values that are given for this start, variables of the environment, and a file.

A source that gives nothing for a setting leaves it to the next one.

## Main statements

* `firstOf_cons_some`: what the highest source gives wins.
-/

namespace ContractShell.Settings

/-! ## 1. Faults -/

/-- Why settings cannot be loaded. -/
inductive Fault where
  | url (fault : Url.Fault)
  | home (fault : Path.NoHome)
  /-- The file that was asked for is not there. -/
  | missingFile (path : String)
  /-- The file cannot be looked up or read. -/
  | file (path : String) (fault : Disk.Fault)
  | encoding (fault : Text.Utf8.Fault)
  /-- The file is not a document. -/
  | document (path : String) (fault : Yaml.Fault)
  | notMapping (path : String)
  | sectionNotMapping (name path : String)
  | notInteger (source raw : String)
  | integerTooSmall (source : String) (minimum : Int) (raw : String)
  | notNumber (source raw : String)
  | numberNotPositive (source raw : String)
  /-- An infinite number stands for an integer. -/
  | infinite
  /-- An integer is too large for a floating-point number. -/
  | tooLarge
  /-- An integer is too long to be shown. -/
  | tooLong
  | rcFilesNotList (path : String)
  deriving DecidableEq, Repr

/-- The wording of a fault. -/
def Fault.message : Fault → String
  | .url f => f.message
  | .home f => f.message
  | .missingFile path => "Config file not found: " ++ path
  | .file _ .impossibleName => Disk.Fault.impossibleName.message
  | .file path f => f.message ++ ": " ++ path
  | .encoding f => f.message
  | .document path .malformed => "Invalid YAML in config file " ++ path ++ ": " ++ Yaml.Fault.malformed.message
  | .document _ f => f.message
  | .notMapping path => "Expected " ++ path ++ " to contain a YAML mapping"
  | .sectionNotMapping name path => "Expected '" ++ name ++ "' to be a mapping in " ++ path
  | .notInteger source raw => "Invalid integer in " ++ source ++ ": " ++ raw
  | .integerTooSmall source minimum raw =>
    "Value in " ++ source ++ " must be at least " ++ toString minimum ++ ": " ++ raw
  | .notNumber source raw => "Invalid number in " ++ source ++ ": " ++ raw
  | .numberNotPositive source raw => "Value in " ++ source ++ " must be positive: " ++ raw
  | .infinite => "cannot convert float infinity to integer"
  | .tooLarge => "int too large to convert to float"
  | .tooLong => Integer.tooLongToWrite
  | .rcFilesNotList path => "Expected 'shell.rc_files' to be a list in " ++ path

/-- A fault of the settings themselves, not of the way to them. -/
def Fault.isExpected : Fault → Bool
  | .url (.notEndpoint _) => true
  | .url _ | .home _ | .file _ _ | .encoding _ | .infinite | .tooLarge | .tooLong => false
  | .document _ f => f == .malformed
  | _ => true

/-! ## 2. Choosing -/

/-- What the highest source gives that gives something. -/
def firstOf {α : Type} (values : List (Option α)) : Option α := values.findSome? id

/-- What the highest source gives wins. -/
theorem firstOf_cons_some {α : Type} (x : α) (values : List (Option α)) : firstOf (some x :: values) = some x := rfl

/-- A value that is not null. -/
def given (v : Option Yaml.Document) : Option Yaml.Document := v.filter fun d => d.root != .null

/-- A fault about a value, with the value as it is shown. -/
def about (fault : String → Fault) (v : Yaml.Document) : Fault := (v.shown?.map fault).getD .tooLong

/-! ## 3. Numbers -/

/-- Bytes as text, if they are ASCII. -/
def asciiText? (b : Bytes) : Option String :=
  if b.all fun x => x.toNat < 128 then some (String.ofList (b.map fun x => Char.ofNat x.toNat)) else none

/-- The integer of a text. -/
def integerOfText (fault : Fault) (text : Option String) : Except Fault Int :=
  match text with
  | none => .error fault
  | some t => (Integer.read 10 t).mapError fun _ => fault

/-- The integer that a value stands for. A floating-point number loses its fraction. -/
def integerOf (source : String) (v : Yaml.Document) : Except Fault Int :=
  let fault := about (.notInteger source) v
  match v.root with
  | .bool b => .ok (if b then 1 else 0)
  | .int n => .ok n
  | .float (.infinite _) _ => .error .infinite
  | .float x _ =>
    match x.truncate? with
    | some n => .ok n
    | none => .error fault
  | .text s => integerOfText fault (some s)
  | .bytes b => integerOfText fault (asciiText? b)
  | _ => .error fault

/-- The integer that a source gives, at least a minimum. -/
def integer (source : String) (minimum : Int) (v : Option Yaml.Document) : Except Fault (Option Int) :=
  match given v with
  | none => .ok none
  | some v =>
    match integerOf source v with
    | .error f => .error f
    | .ok n => if n < minimum then .error (about (.integerTooSmall source minimum) v) else .ok (some n)

/-- The floating-point number that a value stands for. -/
def numberOf (source : String) (v : Yaml.Document) : Except Fault Binary64 :=
  let fault := about (.notNumber source) v
  let read (text : Option String) : Except Fault Binary64 :=
    match text.bind Binary64.ofText? with
    | some x => .ok x
    | none => .error fault
  let ofInteger (n : Int) : Except Fault Binary64 :=
    match Binary64.ofInt? n with
    | some x => .ok x
    | none => .error .tooLarge
  match v.root with
  | .bool b => ofInteger (if b then 1 else 0)
  | .int n => ofInteger n
  | .float x _ => .ok x
  | .text s => read (some s)
  | .bytes b => read (asciiText? b)
  | _ => .error fault

/-- The number that a source gives. One that is zero or less is refused. -/
def number (source : String) (v : Option Yaml.Document) : Except Fault (Option Binary64) :=
  match given v with
  | none => .ok none
  | some v =>
    match numberOf source v with
    | .error f => .error f
    | .ok x => if x.notAtMostZero then .ok (some x) else .error (about (.numberNotPositive source) v)

end ContractShell.Settings
