import ContractShell.Files.Disk
import ContractShell.Json.Reader
import ContractShell.Wallet.Sealed

/-!
Wallet files: one record, as an indented object.

A wallet file is only ever created, never written over. A file whose writing breaks off is left as far as it was written.
-/

namespace ContractShell.Wallet

/-- Why a wallet file cannot be created or opened. Paths are given as texts. -/
inductive Fault where
  /-- There is something at the path already. -/
  | exists (path : String)
  | cannotWrite (path : String) (fault : Disk.Fault)
  | missing (path : String)
  | cannotRead (path : String) (fault : Disk.Fault)
  /-- The file is not a record, or the record's bytes are spoiled. -/
  | notWallet (path : String)
  /-- The record is of a version that is not known. -/
  | version (shown : String)
  /-- The path itself cannot be looked up. -/
  | path (path : String) (fault : Disk.Fault)
  | record (fault : OpenFault)
  deriving DecidableEq, Repr

/-- The wording of a fault. -/
def Fault.message : Fault → String
  | .exists p => Text.withContext "wallet already exists" p
  | .cannotWrite p f => s!"wallet error: cannot write {p} ({f.message})"
  | .missing p => s!"wallet error: file {p} does not exist"
  | .cannotRead p f => s!"wallet error: cannot read {p} ({f.message})"
  | .notWallet p => s!"wallet error: {p} is not a wallet file"
  | .version v => s!"wallet error: unsupported wallet version {v}"
  | .path _ .impossibleName => Disk.Fault.impossibleName.message
  | .path p f => s!"{f.message}: {p}"
  | .record f => f.message

/-! ## 1. Creating -/

/-- The text of a record's file. -/
def fileText (r : Record) : String := Json.indented r.members

/-- The fault of a file that could not be created. -/
def Fault.ofCreation (path : String) : Disk.Fault → Fault
  | .exists => .exists path
  | .impossibleName => .path path .impossibleName
  | f => .cannotWrite path f

/-- Creates the file of a secret sealed under a passphrase: the tree afterwards, and the fault if it failed. -/
def create (d : Disk) (p : Path) (passphrase : String) (salt nonce secret : Bytes) (w : Disk.Writing) :
    Disk × Option Fault :=
  match d.contains p with
  | .error f => (d, some (.path p.toText f))
  | .ok true => (d, some (.exists p.toText))
  | .ok false =>
    match seal? passphrase salt nonce secret with
    | none => (d, some (.record .emptyPassphrase))
    | some r =>
      let (d, fault) := d.createNew p (Text.Utf8.ofString (fileText r)) w
      (d, fault.map (.ofCreation p.toText))

/-! ## 2. Opening -/

/-- A version is the current one; a number with a point, or a truth value, counts as its number. -/
def isCurrent : Json → Bool
  | .int n => n == currentVersion
  | .float x => x.equalsInt currentVersion
  | .bool b => b
  | _ => false

/-- The record of a file's text. -/
def recordOf? (text : String) : Option Record := (Json.read? text).bind Record.ofJson?

/-- The fault of a file whose record cannot be opened: spoiled bytes make it no wallet file. -/
def Fault.ofRecord (path : String) : OpenFault → Fault
  | .notAscii _ _ _ => .notWallet path
  | .notBase64 _ => .notWallet path
  | .nonceSize => .notWallet path
  | f => .record f

/-- The secret in a wallet file. -/
def openFile (d : Disk) (p : Path) (passphrase : String) : Except Fault Bytes :=
  match d.readText p with
  | .error (.file .notFound) => .error (.missing p.toText)
  | .error (.file .impossibleName) => .error (.notWallet p.toText)
  | .error (.file f) => .error (.cannotRead p.toText f)
  | .error (.encoding _) => .error (.notWallet p.toText)
  | .ok text =>
    match recordOf? text with
    | none => .error (.notWallet p.toText)
    | some r =>
      if isCurrent r.version then (openSealed r passphrase).mapError (Fault.ofRecord p.toText)
      else .error (.version r.version.shown)

end ContractShell.Wallet
