import ContractShell.Command.Standard
import ContractShell.Console
import ContractShell.Json.Encoding
import ContractShell.Program.Options
import ContractShell.Settings.Basic

/-!
A run of the program: settings are loaded, the files of commands and the command lines that were asked for are run, and
then the console, unless there was something to run.

However a run ends, its session is ended too, so that no connection stays open.
-/

namespace ContractShell.Program

/-! ## 1. Faults -/

/-- Why a run ends early. -/
inductive Fault where
  | settings (fault : Settings.Fault)
  /-- A file of commands that was asked for is not there. -/
  | missingFile (path : String)
  | unreadableFile (path : String) (fault : Disk.Fault)
  | encoding (fault : Text.Utf8.Fault)
  | home (fault : Path.NoHome)
  | history (fault : History.Fault)
  deriving DecidableEq, Repr

/-- The wording of a fault. -/
def Fault.message : Fault → String
  | .settings f => f.message
  | .missingFile path => "file not found: " ++ path
  | .unreadableFile _ .impossibleName => Disk.Fault.impossibleName.message
  | .unreadableFile path f => "cannot read " ++ path ++ ": " ++ f.message
  | .encoding f => f.message
  | .home f => f.message
  | .history f => f.message

/-- A fault that the program expects: it is told in one line. -/
def Fault.isExpected : Fault → Bool
  | .settings f => f.isExpected
  | .missingFile _ => true
  | .unreadableFile _ f => f != .impossibleName
  | .encoding _ | .home _ | .history _ => false

/-! ## 2. Starting -/

/-- What a run starts from. -/
structure Setup where
  disk : Disk
  environment : List (String × String)
  world : World

/-- A shell while it runs, and the lines that were printed. -/
structure Running where
  shell : Shell
  output : List String

/-- Steps of a run, which can end it. -/
abbrev Steps := ExceptT Fault (StateM Running)

/-- The sources of the settings of a run. -/
def sourcesOf (o : Options) (environment : List (String × String)) : Settings.Sources :=
  let overrides := match o.url with
    | none | some "" => []
    | some url => [("rpc_url", Yaml.Document.ofString url)]
  ⟨overrides, environment, none, o.config⟩

/-- The shell of settings: it is connected if they name an endpoint. -/
def shellOf (c : Settings) (s : Setup) : Shell :=
  let session := Session.start Command.Registry.standard s.disk s.environment ⟨.float c.timeout, c.rcLimit, Json.readBytes?⟩
  match c.url with
  | none => ⟨session, s.world⟩
  | some url =>
    let (session, world) := session.connect url s.world
    ⟨session, world⟩

/-! ## 3. Lines and files -/

/-- Runs lines. -/
def runLines (lines : List String) : Steps Unit := fun r =>
  let (printed, shell) := r.shell.printLines lines
  (.ok (), ⟨shell, r.output ++ printed⟩)

/-- Runs the lines of a file. One that is not required may be missing. -/
def runFile (isRequired : Bool) (p : Path) : Steps Unit := do
  match (← get).shell.session.disk.readText p with
  | .ok text => runLines (Text.lines text)
  | .error (.encoding f) => throw (.encoding f)
  | .error (.file .notFound) => if isRequired then throw (.missingFile p.toText)
  | .error (.file f) => throw (.unreadableFile p.toText f)

/-- Runs a file that was asked for. -/
def runNamed (name : String) : Steps Unit := do
  match (Path.ofText name).expandHome (← get).shell.session.disk.homes with
  | .ok p => runFile true p
  | .error f => throw (.home f)

/-- The console is wanted: it was asked for, or there was nothing else to run. -/
def wantsConsole (o : Options) (s : Session) : Bool :=
  !s.exiting && (o.interactive || (o.lines.isEmpty && o.files.isEmpty))

/-- Runs what was asked for, and gives the history for the console if it is wanted. -/
def runAll (o : Options) (c : Settings) : Steps (Option History) := do
  c.rcFiles.forM (runFile false)
  runLines o.lines
  o.files.forM runNamed
  let session := (← get).shell.session
  if wantsConsole o session then
    match History.read session.disk (some c.historyPath) c.historySize with
    | .ok h => return some h
    | .error f => throw (.history f)
  else return none

/-! ## 4. Ending -/

/-- How a run ends. -/
inductive Ending where
  | normal
  /-- With a code, and a line that tells why. -/
  | refused (code : Nat) (line : String)
  /-- With a fault that the program does not expect. -/
  | failed (fault : Fault)

/-- The code of a run that ends with an expected fault. -/
def faultCode : Nat := 1

/-- The code of a run whose arguments are refused. -/
def usageCode : Nat := 2

/-- The ending that a fault stands for. -/
def Fault.ending (f : Fault) : Ending :=
  if f.isExpected then .refused faultCode ("error: " ++ f.message) else .failed f

/-- What is left of a run. -/
structure Report where
  output : List String
  prompts : List String
  ending : Ending
  disk : Disk
  world : World

/-- The end of a run's session. -/
def close (sh : Shell) : Shell := sh.finish.2

/-- What is left of a run after its lines and its console. -/
def reportOf (prompts : List String) (output : List String) (ending : Ending) (sh : Shell) : Report :=
  let sh := close sh
  ⟨output, prompts, ending, sh.session.disk, sh.world⟩

/-! ## 5. Runs -/

/-- How far a run gets before a line is asked for. -/
inductive Start where
  | ended (report : Report)
  /-- The console is next. The lines were printed before it. -/
  | console (output : List String) (state : Console.State)

/-- The ending of a run whose console has come to its end. -/
def endingOf (s : Console.State) : Ending :=
  match s.fault with
  | none => .normal
  | some f => (Fault.history (.letters f)).ending

/-- The rest of a run. -/
def Start.run (events : List Console.Event) : Start → Report
  | .ended r => r
  | .console output state =>
    let (t, state) := Console.run events state
    reportOf t.prompts (output ++ t.output) (endingOf state) state.shell

/-- A run that ends before its session starts. -/
def endEarly (output : List String) (ending : Ending) (s : Setup) : Start :=
  .ended ⟨output, [], ending, s.disk, s.world⟩

/-- The start of a run after the settings are loaded. -/
def startWith (o : Options) (c : Settings) (s : Setup) : Start :=
  match runAll o c ⟨shellOf c s, []⟩ with
  | (.error f, r) => .ended (reportOf [] r.output f.ending r.shell)
  | (.ok none, r) => .ended (reportOf [] r.output .normal r.shell)
  | (.ok (some h), r) => .console r.output ⟨r.shell, some h, none⟩

/-- The version of the program. -/
def version : String := "0.4.0"

/-- The start of a run with options. -/
def startOptions (o : Options) (s : Setup) : Start :=
  if o.version then endEarly [version] .normal s
  else if !Options.isLogLevel o.logLevel then
    endEarly [] (.refused usageCode ("error: unknown log level " ++ o.logLevel)) s
  else
    match Settings.load (sourcesOf o s.environment) s.disk with
    | .error f => endEarly [] (Fault.settings f).ending s
    | .ok c => startWith o c s

/-- The variable of the environment that holds the level of the log. -/
def levelVariable : String := "CHAINSHELL_LOG"

/-- The level of the log when none is given. -/
def defaultLevel (environment : List (String × String)) : String :=
  ((environment.find? (·.1 == levelVariable)).map (·.2)).getD "WARNING"

/-- The name of the program. -/
def name : String := "chainshell"

/-- The start of a run with arguments. When help is asked for nothing is run. -/
def start (args : List String) (s : Setup) : Start :=
  match Options.read (defaultLevel s.environment) args with
  | .error f => endEarly [] (.refused usageCode (name ++ ": error: " ++ f.message)) s
  | .ok none => endEarly [] (.refused 0 "") s
  | .ok (some o) => startOptions o s

/-- A run with arguments, with what comes of asking for lines. -/
def run (args : List String) (s : Setup) (events : List Console.Event) : Report := (start args s).run events

end ContractShell.Program
