import ContractShell.Program.Run

/-!
What a run looks at outside of itself: variables of the environment, and files.

Which files a run looks at depends on what stands in others: the settings name files of commands, and the lines in these
name files of their own. So the files are told as far as the disk shows them, and telling them again after they were added
to it shows more.
-/

namespace ContractShell.Program

/-- The variables of the environment that a run looks at. -/
def variableNames : List String :=
  [levelVariable, Settings.urlVariable, Settings.historyVariable, Settings.historySizeVariable,
    Session.Fault.passwordVariable]

/-- The names of files among the arguments of a command. -/
def filenames (i : Command.Invocation) : List String :=
  match i.declaration with
  | none => []
  | some d => (d.args.filter (·.kind = .file)).filterMap fun a => i.args.find? a.name

/-- The paths that a line looks at. -/
def linePaths (commands : Command.Registry) (homes : Path.Homes) (text : String) : List Path :=
  let names := (Command.Line.ofText commands text).completed.flatMap filenames
  names.filterMap fun n => ((Path.ofText n).expandHome homes).toOption

/-- The lines of a file of commands, as far as it can be read. -/
def fileLines (d : Disk) (p : Path) : List String :=
  match d.readText p with
  | .ok text => Text.lines text
  | .error _ => []

/-- The paths that a run looks at, as far as the disk shows them. -/
def paths (o : Options) (s : Setup) : List Path :=
  if o.version then []
  else
    let sources := sourcesOf o s.environment
    let file := ((sources.path s.disk).toOption.map (·.1)).toList
    match Settings.load sources s.disk with
    | .error _ => file
    | .ok c =>
      let named := o.files.filterMap fun n => ((Path.ofText n).expandHome s.disk.homes).toOption
      let sources := c.rcFiles ++ named
      let lines := o.lines ++ sources.flatMap (fileLines s.disk)
      file ++ sources ++ [c.historyPath] ++ lines.flatMap (linePaths Command.Registry.standard s.disk.homes)

/-- How often files have to be added before all are shown: the settings, the files of commands, and those that they
name. -/
def depth : Nat := 3

end ContractShell.Program
