import ContractShell.Settings.Source
import ContractShell.Yaml.Construction

/-!
The settings of a shell, from the values given for this start, the environment, and a YAML file.

For each setting the values given come first, then the variable of the environment if it is not empty, then the file, then
a default. All sources are checked, also those that do not count.
-/

namespace ContractShell

/-- The settings of a shell. -/
structure Settings where
  url : Option String
  timeout : Binary64
  rcLimit : Int
  historyPath : Path
  historySize : Int
  rcFiles : List Path

namespace Settings

/-! ## 1. Defaults -/

/-- A file in the home directory of the user. -/
def inHome (homes : Path.Homes) (name : String) : Path :=
  match homes.find? (·.1 == "") with
  | some (_, home) => (Path.ofText home).append (Path.ofText name)
  | none => Path.ofText name

/-- The file that settings are read from when none is asked for. -/
def defaultFile (homes : Path.Homes) : Path := inHome homes ".chainshell.yaml"

/-- The file that the history is kept in by default. -/
def defaultHistory (homes : Path.Homes) : Path := inHome homes ".chainshell_history"

/-- The files of commands that are run at the start by default. -/
def defaultRcFiles (homes : Path.Homes) : List Path := [inHome homes ".chainshellrc", Path.ofText ".chainshellrc"]

/-- How many seconds to wait for an answer by default. -/
def defaultTimeout : Binary64 := .ofQuotient false 30 1

/-- The limit on a transaction's costs by default. -/
def defaultRcLimit : Int := 10000000

/-- How many lines the history keeps by default. -/
def defaultHistorySize : Int := 256

/-- The variable of the environment that holds the endpoint. -/
def urlVariable : String := "CHAINSHELL_RPC_URL"

/-- The variable of the environment that holds the file of the history. -/
def historyVariable : String := "CHAINSHELL_HISTORY"

/-- The variable of the environment that holds how many lines the history keeps. -/
def historySizeVariable : String := "CHAINSHELL_HISTORY_SIZE"

/-! ## 2. The file -/

/-- A path in which `~` stands for a home directory. -/
def expand (d : Disk) (text : String) : Except Fault Path := ((Path.ofText text).expandHome d.homes).mapError .home

/-- The document in a file. One that is vacant counts as a mapping without members. -/
def readFile (d : Disk) (p : Path) : Except Fault Yaml.Document :=
  match d.readText p with
  | .error (.file f) => .error (.file p.toText f)
  | .error (.encoding f) => .error (.encoding f)
  | .ok text =>
    match Yaml.Document.ofText text with
    | .error f => .error (.document p.toText f)
    | .ok v => .ok (if v.isVacant then .blank else v)

/-- The mapping in a file. If the file is not required it may be missing. -/
def loadFile (d : Disk) (p : Path) (isRequired : Bool) : Except Fault Yaml.Document :=
  match d.contains p with
  | .error f => .error (.file p.toText f)
  | .ok false => if isRequired then .error (.missingFile p.toText) else .ok .blank
  | .ok true =>
    match readFile d p with
    | .error f => .error f
    | .ok v => if v.isMapping then .ok v else .error (.notMapping p.toText)

/-- A section of the file. One that is vacant counts as a mapping without members. -/
def sectionOf (file : Yaml.Document) (name : String) (p : Path) : Except Fault Yaml.Document :=
  match (file.member? name).filter fun v => !v.isVacant with
  | none => .ok .blank
  | some v => if v.isMapping then .ok v else .error (.sectionNotMapping name p.toText)

/-! ## 3. Sources -/

/-- The sources of settings: values given for this start, variables of the environment, the file that was asked for, and
the one that takes the place of the default. -/
structure Sources where
  overrides : List (String × Yaml.Document)
  environment : List (String × String)
  file : Option String
  fallback : Option String

namespace Sources

/-- The value given for this start. -/
def override? (s : Sources) (name : String) : Option Yaml.Document :=
  given ((s.overrides.find? (·.1 == name)).map (·.2))

/-- The value of a variable that is not empty. -/
def environmentValue (s : Sources) (name : String) : Option Yaml.Document :=
  ((s.environment.find? (·.1 == name)).map (·.2)).bind fun v => if v.isEmpty then none else some (.ofString v)

/-- The path of the file, and whether it was asked for. An empty text asks for nothing as a fallback. -/
def path (s : Sources) (d : Disk) : Except Fault (Path × Bool) := do
  let fallback ← match s.fallback with
    | none | some "" => pure none
    | some text => some <$> expand d text
  match s.file, fallback with
  | some text, _ => return (← expand d text, true)
  | none, some p => return (p, true)
  | none, none => return (defaultFile d.homes, false)

end Sources

/-! ## 4. Settings -/

/-- A value as it is shown. -/
def shownText (v : Yaml.Document) : Except Fault String :=
  match v.shown? with
  | some t => .ok t
  | none => .error .tooLong

/-- The endpoint to connect to at the start, if one is given. -/
def endpointOf (v : Option Yaml.Document) : Except Fault (Option String) := do
  match v with
  | none => return none
  | some v => return some (← (Url.endpoint (← shownText v)).mapError .url)

/-- A path that is given. -/
def pathOf (d : Disk) (default : Path) (v : Option Yaml.Document) : Except Fault Path := do
  match v with
  | none => return default
  | some v => expand d (← shownText v)

/-- The files of commands of a list of paths. -/
def rcFilesOf (d : Disk) (p : Path) (v : Option Yaml.Document) : Except Fault (List Path) :=
  match v with
  | none => .ok (defaultRcFiles d.homes)
  | some v =>
    match v.shownItems? with
    | none => .error (.rcFilesNotList p.toText)
    | some items => items.mapM fun text =>
      match text with
      | some t => expand d t
      | none => .error .tooLong

/-- Loads settings from their sources. -/
def load (s : Sources) (d : Disk) : Except Fault Settings := do
  let (p, isRequired) ← s.path d
  let file ← loadFile d p isRequired
  let rpc ← sectionOf file "rpc" p
  let shell ← sectionOf file "shell" p
  let inFile (part : Yaml.Document) (name : String) : Option Yaml.Document := given (part.member? name)
  let url ← endpointOf
    (firstOf [s.override? "rpc_url", s.environmentValue urlVariable, inFile rpc "url"])
  let timeout ← number "overrides" (s.override? "rpc_timeout")
  let timeoutInFile ← number (p.toText ++ " rpc.timeout") (inFile rpc "timeout")
  let rcLimit ← integer "overrides" 0 (s.override? "rc_limit")
  let rcLimitInFile ← integer (p.toText ++ " rpc.rc_limit") 0 (inFile rpc "rc_limit")
  let history := firstOf [s.override? "history_path", s.environmentValue historyVariable, inFile shell "history"]
  let size ← integer "overrides" 1 (s.override? "history_size")
  let sizeInEnvironment ← integer "environment" 1 (s.environmentValue historySizeVariable)
  let sizeInFile ← integer (p.toText ++ " shell.history_size") 1 (inFile shell "history_size")
  let rcFiles ← rcFilesOf d p (firstOf [s.override? "rc_files", inFile shell "rc_files"])
  let historyPath ← pathOf d (defaultHistory d.homes) history
  return {
    url
    timeout := (firstOf [timeout, timeoutInFile]).getD defaultTimeout
    rcLimit := (firstOf [rcLimit, rcLimitInFile]).getD defaultRcLimit
    historyPath
    historySize := (firstOf [size, sizeInEnvironment, sizeInFile]).getD defaultHistorySize
    rcFiles }

end Settings

end ContractShell
