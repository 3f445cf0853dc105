import ContractShell.Text.Digit
import ContractShell.Text.Quoted

/-!
The arguments that the program is started with.

An option has a name of one letter, or a long name, or both. A long name can be cut short as long as it stays clear which
one is meant. The value of an option follows it as an argument of its own, or in the same argument: behind `=`, or behind
the letter.
-/

namespace ContractShell

/-- What the program is asked to do. -/
structure Options where
  url : Option String
  lines : List String
  files : List String
  interactive : Bool
  version : Bool
  config : Option String
  logLevel : String
  deriving DecidableEq, Repr

namespace Options

/-! ## 1. The options -/

/-- An option. -/
inductive Key where
  | help
  | rpc
  | execute
  | file
  | forceInteractive
  | version
  | config
  | logLevel
  deriving DecidableEq, Repr

/-- The options with their names. -/
def table : List (Key × List String) := [
  (.help, ["-h", "--help"]),
  (.rpc, ["-r", "--rpc"]),
  (.execute, ["-x", "--execute"]),
  (.file, ["-f", "--file"]),
  (.forceInteractive, ["-i", "--force-interactive"]),
  (.version, ["-v", "--version"]),
  (.config, ["--config"]),
  (.logLevel, ["--log-level"])]

/-- All names, with the options that they stand for. -/
def names : List (String × Key) := table.flatMap fun (k, ns) => ns.map fun n => (n, k)

/-- The option of a name. -/
def named? (name : String) : Option Key := (names.find? (·.1 == name)).map (·.2)

/-- The names of an option, as messages show them. -/
def Key.shown (k : Key) : String :=
  String.intercalate "/" (((table.find? (·.1 == k)).map (·.2)).getD [])

/-- An option has a value. -/
def Key.takesValue : Key → Bool
  | .help | .forceInteractive | .version => false
  | _ => true

/-! ## 2. Faults -/

/-- Why arguments are refused. -/
inductive Fault where
  /-- A name is cut so short that it could be any of some names. -/
  | ambiguous (arg : String) (names : List String)
  | lacksValue (key : Key)
  /-- An option that has no value is given one. -/
  | extraValue (key : Key) (value : String)
  | unrecognized (args : List String)
  deriving DecidableEq, Repr

/-- The wording of a fault. -/
def Fault.message : Fault → String
  | .ambiguous arg names => "ambiguous option: " ++ arg ++ " could match " ++ String.intercalate ", " names
  | .lacksValue key => "argument " ++ key.shown ++ ": expected one argument"
  | .extraValue key value =>
    "argument " ++ key.shown ++ ": ignored explicit argument " ++ Text.quotedString value
  | .unrecognized args => "unrecognized arguments: " ++ String.intercalate " " args

/-! ## 3. Single arguments -/

/-- An argument by itself. -/
inductive Word where
  /-- A value, or an argument that belongs to nothing. -/
  | plain
  /-- What looks like an option and is none. -/
  | unknown
  /-- Everything behind this argument is plain. -/
  | separator
  /-- An option, whether it is given by its letter, and the value in the same argument. -/
  | option (key : Key) (short : Bool) (attached : Option (List Char))
  deriving DecidableEq, Repr

/-- A name of one letter. -/
def isShort (name : String) : Bool := (name.toList.drop 1).head? != some '-'

/-- An option without a value in the same argument. -/
def Word.bare (name : String) (k : Key) : Word := .option k (isShort name) none

/-- The argument up to an equals sign, and the value behind it. -/
def splitValue (arg : List Char) : List Char × Option (List Char) :=
  match arg.dropWhile (· ≠ '=') with
  | [] => (arg, none)
  | _ :: value => (arg.takeWhile (· ≠ '='), some value)

/-- What an argument with two dashes in front may stand for: the names that start with it, up to an equals sign. -/
def longMatches (arg : List Char) : List (String × Word) :=
  let (name, attached) := splitValue arg
  (names.filter fun n => name.isPrefixOf n.1.toList).map fun (n, k) => (n, .option k (isShort n) attached)

/-- What an argument with one dash in front may stand for: a letter with its value, or the names that start with it. -/
def shortMatches (arg : List Char) : List (String × Word) :=
  names.filterMap fun (n, k) =>
    if n.toList = arg.take 2 then some (n, .option k true (some (arg.drop 2)))
    else if arg.isPrefixOf n.toList then some (n, Word.bare n k)
    else none

/-- A number with a minus in front, with or without a point. -/
def isNegativeNumber (arg : List Char) : Bool :=
  match arg with
  | '-' :: r =>
    let s := if r.getLast? = some '\n' then r.dropLast else r
    match s.dropWhile Text.isDecimal with
    | [] => !s.isEmpty
    | '.' :: fraction => !fraction.isEmpty && fraction.all Text.isDecimal
    | _ => false
  | _ => false

/-- What an argument is by itself. -/
def wordOf (arg : String) : Except Fault Word :=
  match arg.toList with
  | '-' :: c :: r =>
    let whole := '-' :: c :: r
    match named? arg with
    | some k => .ok (.bare arg k)
    | none =>
      let (name, attached) := splitValue whole
      match attached, named? (String.ofList name) with
      | some a, some k => .ok (.option k (isShort (String.ofList name)) (some a))
      | _, _ =>
        match if c = '-' then longMatches whole else shortMatches whole with
        | [(_, w)] => .ok w
        | [] => .ok (if isNegativeNumber whole || whole.contains ' ' then .plain else .unknown)
        | several => .error (.ambiguous arg (several.map (·.1)))
  | _ => .ok .plain

/-- What each argument is by itself. All are plain behind two dashes. -/
def wordsOf : List String → Except Fault (List (String × Word))
  | [] => .ok []
  | "--" :: r => .ok (("--", .separator) :: r.map fun a => (a, .plain))
  | a :: r => do
    let w ← wordOf a
    return (a, w) :: (← wordsOf r)

/-! ## 4. Options -/

/-- The options so far, and the arguments that belong to nothing. -/
structure Progress where
  options : Options
  extras : List String
  /-- Help is asked for. What comes after that is not read. -/
  help : Bool

/-- Sets an option. -/
def set (k : Key) (value : String) (p : Progress) : Progress :=
  if p.help then p
  else
    let o := p.options
    match k with
    | .help => { p with help := true }
    | .rpc => { p with options := { o with url := some value } }
    | .execute => { p with options := { o with lines := o.lines ++ [value] } }
    | .file => { p with options := { o with files := o.files ++ [value] } }
    | .forceInteractive => { p with options := { o with interactive := true } }
    | .version => { p with options := { o with version := true } }
    | .config => { p with options := { o with config := some value } }
    | .logLevel => { p with options := { o with logLevel := value } }

/-- What one argument says: options that are set, and one that still needs its value. -/
structure Reading where
  done : List (Key × String)
  waiting : Option Key

/-- Options given by their letters in one argument, each but the last without a value. A value that is attached to an
option without one is more letters. -/
def readLetters (key : Key) (short : Bool) : List Char → List (Key × String) → Except Fault Reading
  | [], done => if key.takesValue then .ok ⟨done ++ [(key, "")], none⟩ else .error (.extraValue key "")
  | c :: r, done =>
    if key.takesValue then .ok ⟨done ++ [(key, String.ofList (c :: r))], none⟩
    else
      match if short then named? (String.ofList ['-', c]) else none, r with
      | none, _ => .error (.extraValue key (String.ofList (c :: r)))
      | some k, [] =>
        .ok (if k.takesValue then ⟨done ++ [(key, "")], some k⟩ else ⟨done ++ [(key, ""), (k, "")], none⟩)
      | some k, x :: rest => readLetters k true (x :: rest) (done ++ [(key, "")])

/-- What an option says. -/
def readOption (key : Key) (short : Bool) (attached : Option (List Char)) : Except Fault Reading :=
  match attached with
  | none => .ok (if key.takesValue then ⟨[], some key⟩ else ⟨[(key, "")], none⟩)
  | some text => readLetters key short text []

/-- Sets options in order. -/
def setAll (done : List (Key × String)) (p : Progress) : Progress := done.foldl (fun p (k, v) => set k v p) p

/-- Reads arguments on. -/
def readWords : List (String × Word) → Progress → Except Fault Progress
  | [], p => .ok p
  | (_, .option key short attached) :: rest, p =>
    match readOption key short attached with
    | .error f => if p.help then .ok p else .error f
    | .ok ⟨done, none⟩ => readWords rest (setAll done p)
    | .ok ⟨done, some k⟩ =>
      match rest with
      | (value, .plain) :: rest => readWords rest (set k value (setAll done p))
      | _ => if p.help then .ok p else .error (.lacksValue k)
  | (arg, _) :: rest, p => readWords rest { p with extras := p.extras ++ [arg] }

/-- The options without arguments. -/
def default (logLevel : String) : Options := ⟨none, [], [], false, false, none, logLevel⟩

/-- What the arguments ask for: help, or what the options say. -/
def read (logLevel : String) (args : List String) : Except Fault (Option Options) := do
  let p ← readWords (← wordsOf args) ⟨default logLevel, [], false⟩
  if p.help then return none
  if p.extras.isEmpty then return some p.options else throw (.unrecognized p.extras)

/-! ## 5. Log levels -/

/-- The levels of a log. -/
def logLevels : List String := ["CRITICAL", "FATAL", "ERROR", "WARNING", "WARN", "INFO", "DEBUG", "NOTSET"]

/-- A character in upper case, as far as the names of the levels go: a dotless i and a long s count as I and S. -/
def upper (c : Char) : Char := if c.toNat = 0x131 then 'I' else if c.toNat = 0x17F then 'S' else c.toUpper

/-- A level is known. -/
def isLogLevel (name : String) : Bool := logLevels.contains (String.ofList (name.toList.map upper))

end Options

end ContractShell
