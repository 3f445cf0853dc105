import ContractShell.Program.Sight
import ContractShell.Session.World

/-!
The command line. Files are read before they are looked at and written after they have changed, and lines are read one by
one.

There is no transport for requests: no node can be reached.
-/

namespace ContractShell.Main

/-! ## 1. Files -/

/-- The text of a place. -/
def placeText (place : Place) : String := "/" ++ String.intercalate "/" place

/-- What stands at a place. -/
def entryAt (place : Place) : IO (Option Entry) := do
  match ← (IO.FS.readBinFile (placeText place)).toBaseIO with
  | .ok b => return some (.file b.toList)
  | .error (.inappropriateType ..) => return some .directory
  | .error _ => return none

/-- Adds what stands at a place, if it is not known. -/
def see (place : Place) (d : Disk) : IO Disk := do
  if (d.find? place).isSome then return d
  match ← entryAt place with
  | some e => return d.add place e
  | none => return d

/-- Adds what stands on the way of names from a place. -/
def seeAll (d : Disk) : Place → List String → IO Disk
  | place, [] => see place d
  | place, name :: rest => do
    let d ← see place d
    if d.find? place != some .directory then return d
    seeAll d (if name = ".." then place.dropLast else place ++ [name]) rest

/-- Adds what stands on the ways of paths. -/
def seePaths (paths : List Path) (d : Disk) : IO Disk :=
  paths.foldlM (fun d p => seeAll d (if p.isAbsolute then [] else d.here) p.names) d

/-- Writes what has changed. What cannot be written is told. -/
def putBack (before after : Disk) : IO Unit := do
  for (place, e) in Disk.changes before after do
    let path := placeText place
    let written ← match e with
      | .directory => (IO.FS.createDir path).toBaseIO
      | .file b => (IO.FS.writeBinFile path ⟨b.toArray⟩).toBaseIO
    match written with
    | .ok () => pure ()
    | .error e => IO.eprintln s!"error: cannot write {path}: {e}"

/-! ## 2. The surroundings -/

/-- The names of the directory that a variable of the environment holds. -/
def directoryIn (name : String) : IO Path := return Path.ofText ((← IO.getEnv name).getD "/")

/-- A disk that shows nothing but the working directory. -/
def bareDisk : IO Disk := do
  let here ← directoryIn "PWD"
  let home ← directoryIn "HOME"
  seeAll ⟨[], here.names, [("", home.toText)]⟩ [] here.names

/-- The variables of the environment that a run looks at. -/
def environment : IO (List (String × String)) :=
  Program.variableNames.filterMapM fun name => return (← IO.getEnv name).map (name, ·)

/-- How many bytes a seed has. -/
def seedSize : Nat := 32

/-- A fresh seed. -/
def freshSeed : IO Bytes := return (← IO.getRandomBytes (USize.ofNat seedSize)).toList

/-- A world with fresh sources of chance. -/
def freshWorld : IO World := return ⟨.fresh [], .bytesOf (← freshSeed), .keysOf (← freshSeed), .always .whole⟩

/-- The disk that a run with options starts from. -/
def diskFor (o : Options) (environment : List (String × String)) (world : World) : IO Disk := do
  let mut d ← bareDisk
  for _ in [0:Program.depth] do
    d ← seePaths (Program.paths o ⟨d, environment, world⟩) d
  return d

/-! ## 3. The console -/

/-- A state whose disk shows what a line looks at, as it stands now. -/
def refresh (line : String) (state : Console.State) : IO Console.State := do
  let s := state.shell.session
  let kept := (state.history.bind (·.path)).toList
  let disk ← seePaths (kept ++ Program.linePaths s.commands s.disk.homes line) (← bareDisk)
  return { state with shell := { state.shell with session := { s with disk } } }

/-- Asks for lines and runs them. -/
partial def converse (input : IO.FS.Stream) (state : Console.State) : IO Console.State := do
  if state.isOver then return state
  IO.print state.shell.session.prompt
  (← IO.getStdout).flush
  let line ← input.getLine
  if line.isEmpty then
    IO.println ""
    return state
  let state ← refresh line state
  let (output, after) := state.take (.ofString (String.ofList (line.toList.filter (· != '\n'))))
  output.forM IO.println
  putBack state.shell.session.disk after.shell.session.disk
  converse input after

/-! ## 4. The end -/

/-- Tells how a run ended, and gives its code. -/
def leave : Program.Ending → IO UInt32
  | .normal => return 0
  | .refused code line => do
    if !line.isEmpty then IO.eprintln line
    return UInt32.ofNat code
  | .failed fault => do
    IO.eprintln ("error: " ++ fault.message)
    return UInt32.ofNat Program.faultCode

/-- Runs the program up to its end. -/
def run (args : List String) : IO UInt32 := do
  let environment ← environment
  let world ← freshWorld
  let disk ← match Options.read (Program.defaultLevel environment) args with
    | .ok (some o) => diskFor o environment world
    | _ => bareDisk
  match Program.start args ⟨disk, environment, world⟩ with
  | .ended report =>
    report.output.forM IO.println
    putBack disk report.disk
    leave report.ending
  | .console output state =>
    output.forM IO.println
    putBack disk state.shell.session.disk
    let state ← converse (← IO.getStdin) state
    leave (Program.reportOf [] [] (Program.endingOf state) state.shell).ending

end ContractShell.Main

def main (args : List String) : IO UInt32 := ContractShell.Main.run args
