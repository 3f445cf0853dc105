import ContractShell.Contract.Registration
import ContractShell.Key
import ContractShell.Node.Fault
import ContractShell.Token.Amount
import ContractShell.Url.Basic
import ContractShell.Value.Binding
import ContractShell.Value.Decoding
import ContractShell.Value.Encoding
import ContractShell.Wallet.File

/-!
Why commands fail, and what the shell says then.

A fault that commands expect is told by its own message. Any other fault is told as an unexpected error.
-/

namespace ContractShell.Session

/-- Why a command fails. -/
inductive Fault where
  /-- An argument that the command needs was not read. -/
  | missingArgument (name : String)
  | unknownCommand (name : String)
  /-- The session is not connected. -/
  | offline (action : String)
  /-- No wallet is open. -/
  | noWallet (action : String)
  | walletExists (path : String)
  | noPassword
  | address (text : String)
  | entryPoint (text : String)
  | arguments
  | url (fault : Url.Fault)
  | amount (fault : Amount.Fault)
  | units (fault : Amount.ShowFault)
  | home (fault : Path.NoHome)
  /-- A file cannot be used. -/
  | file (path : String) (fault : Disk.Fault)
  /-- A file that should be text is not. -/
  | encoding (fault : Text.Utf8.Fault)
  /-- The file of an interface document cannot be read. -/
  | documentFile (path : String) (fault : Disk.Fault)
  | document (fault : Interface.Fault)
  | registration (fault : Registration.Fault)
  | contract (fault : Contract.Fault)
  | wallet (fault : Wallet.Fault)
  | key (fault : Key.Fault)
  | schema (fault : SchemaFault)
  | bind (fault : BindFault)
  | encode (fault : EncodeFault)
  | decode (fault : DecodeFault)
  | display (fault : Misfit)
  | node (fault : Node.Fault)
  /-- A transaction that was announced could not be submitted, and what it was for. -/
  | submission (announcement purpose : String) (fault : Node.Fault)
  /-- The receipt of a transaction is not an object. -/
  | receipt (kind : String)

namespace Fault

/-- The variable of the environment that holds the password of wallet files. -/
def passwordVariable : String := "WALLET_PASS"

/-- What a fault says. -/
def detail : Fault → String
  | .missingArgument name => Text.quotedString name
  | .unknownCommand name => Text.withContext "unknown command" name
  | .offline action => Text.withContext "wallet is offline" action
  | .noWallet action => Text.withContext "no open wallet" action
  | .walletExists path => Text.withContext "wallet already exists" path
  | .noPassword => Text.withContext "passphrase cannot be empty" ("give a password or set " ++ passwordVariable)
  | .address text => Text.withContext "contract error" ("invalid address " ++ text)
  | .entryPoint text => Text.withContext "contract error" ("invalid entry point " ++ text)
  | .arguments => Text.withContext "contract error" "arguments must be base64 encoded"
  | .url f => f.message
  | .amount f => f.message
  | .units f => f.message
  | .home f => f.message
  | .file _ .impossibleName => Disk.Fault.impossibleName.message
  | .file path f => f.message ++ ": " ++ path
  | .encoding f => f.message
  | .documentFile _ .impossibleName => Disk.Fault.impossibleName.message
  | .documentFile path f => Text.withContext "invalid ABI" ("cannot read " ++ path ++ " (" ++ f.message ++ ")")
  | .document f => f.message
  | .registration f => f.message
  | .contract f => f.message
  | .wallet f => f.message
  | .key f => f.message
  | .schema f => f.message
  | .bind f => f.message
  | .encode f => f.message
  | .decode f => f.message
  | .display f => f.message
  | .node f => f.message
  | .submission _ purpose f => purpose ++ ", " ++ f.message
  | .receipt kind => (Node.Misfit.notAnObject kind).message

/-- A fault that commands expect. -/
def isExpected : Fault → Bool
  | .missingArgument _ | .home _ | .encoding _ | .display _ | .receipt _ => false
  | .url (.notEndpoint _) => true
  | .url _ => false
  | .amount (.arithmetic _) => false
  | .units _ => false
  | .file _ f => f != .impossibleName
  | .documentFile _ f => f != .impossibleName
  | .document (.compoundName _) => false
  | .wallet (.path _ f) => f != .impossibleName
  | .wallet (.record f) => f == .emptyPassphrase || f == .wrongPassphrase
  | .registration (.types (.incomplete _)) => false
  | .bind (.numeral _) | .bind .noSchema | .bind (.misfit _) => false
  | .encode (.lacking _) | .encode (.noField _ _) | .encode (.unassignable _) | .encode (.noMessage _) => false
  | .encode (.misused _) => false
  | .decode (.misused _) => false
  | .node f => f.isExpected
  | _ => true

/-- The wording of a fault. -/
def message (f : Fault) : String := if f.isExpected then f.detail else "unexpected error: " ++ f.detail

/-- What was announced before the fault arose. -/
def announced : Fault → List String
  | .submission announcement _ _ => [announcement]
  | _ => []

end Fault

end ContractShell.Session
