import ContractShell.Interface.EntryPoint
import ContractShell.Session.Basic
import ContractShell.Session.Fault

/-!
What commands take from their arguments: addresses, entry points, bytes, passwords and paths.
-/

namespace ContractShell.Session

/-- The bytes of an address. -/
def address (text : String) : Except Fault Bytes :=
  match Base58.decode text.toList with
  | .ok [] => .error (.address text)
  | .ok b => .ok b
  | .error _ => .error (.address text)

/-- The entry point that a text denotes. -/
def entryPoint (text : String) : Except Fault Nat :=
  (EntryPoint.read (some (.str text))).mapError fun _ => .entryPoint text

/-- The bytes of arguments that are given as base64. -/
def rawArguments (text : String) : Except Fault Bytes :=
  (Base64.decodeUnpadded text).mapError fun _ => .arguments

/-- The password that was given, or else the one of the environment. It is more than blanks. -/
def password (s : Session) (given : String) : Except Fault String :=
  let chosen := if given.isEmpty then (s.environmentValue Fault.passwordVariable).getD "" else given
  if (Text.trimString chosen).isEmpty then .error .noPassword else .ok chosen

/-- The path of a file name, in which `~` stands for a home directory. -/
def pathOf (s : Session) (filename : String) : Except Fault Path :=
  ((Path.ofText filename).expandHome s.disk.homes).mapError .home

/-- The value of an argument that a command needs. -/
def needed (args : Command.Values) (name : String) : Except Fault String :=
  match args.find? name with
  | some v => .ok v
  | none => .error (.missingArgument name)

/-- The value of an argument that can be left out. -/
def given (args : Command.Values) (name : String) : String := (args.find? name).getD ""

/-- The key of the open wallet. -/
def key (s : Session) (action : String) : Except Fault Key :=
  match s.wallet with
  | some w => .ok w.key
  | none => .error (.noWallet action)

/-- The client of the connection. -/
def client (s : Session) (action : String) : Except Fault Node.Client :=
  match s.connection with
  | some c => .ok c.client
  | none => .error (.offline action)

/-- The text of an interface document's file. -/
def documentText (s : Session) (p : Path) : Except Fault String :=
  match s.disk.readText p with
  | .ok text => .ok text
  | .error (.file f) => .error (.documentFile p.toText f)
  | .error (.encoding f) => .error (.encoding f)

/-- The interface document of a text. -/
def documentOf (text : String) : Except Fault Interface.Document := (Interface.Document.ofText text).mapError .document

end ContractShell.Session
