import ContractShell.Command.Standard
import ContractShell.Session.Input
import ContractShell.Token.Contract

/-!
What commands do: the built-in ones, and those of contract methods.

A command takes the session and gives the session after it, with the lines that it prints. One that fails before it changes
anything gives a fault instead, so the session is then as it was before; only the world around it may have changed. One that
fails while it writes a file gives the fault along with what it has written.

The arguments of a method's command become a message, and the message goes to the contract. A method that only reads is
asked, and its answer is shown field by field. Any other method is called in a transaction.
-/

namespace ContractShell.Session

/-! ## 1. Attempts -/

/-- Steps that act on the world and can fail. -/
abbrev Attempt := ExceptT Fault (StateM World)

/-- The session after a command, and the lines that it prints, or the fault if it came to a change and then failed. -/
structure Step where
  session : Session
  result : Except Fault (List String)

/-- Steps that cannot fail. -/
def doing {α : Type} (x : StateM World α) : Attempt α := ExceptT.lift x

/-- A result that may be a fault. -/
def settle {α : Type} (r : Except Fault α) : Attempt α := fun w => (r, w)

/-- Talks to the node. -/
def talk {α : Type} (d : Node.Dialogue α) : StateM World (Except Node.Fault α) := fun w =>
  let (r, network) := d w.network
  (r, { w with network })

/-- Asks the node for something. -/
def ask {α : Type} (d : Node.Dialogue α) : Attempt α := do
  match ← doing (talk d) with
  | .ok x => return x
  | .error f => throw (.node f)

/-- The line that tells of a transaction's receipt. -/
def receiptLine (receipt : Json) : Except Fault String :=
  match receipt with
  | .obj m => .ok ("Transaction submitted: " ++ ((Json.find? "id" m).getD (.str "unknown id")).shown)
  | v => .error (.receipt v.kindName)

/-- The fault of a submission: an answer of an unexpected form is told without the announcement. -/
def submissionFault (announcement purpose : String) (f : Node.Fault) : Fault :=
  if f.isExpected then .submission announcement purpose f else .node f

/-- Submits a transaction, and tells what was announced and what came of it. -/
def submit (announcement purpose : String) (d : Node.Dialogue Json) : Attempt (List String) := do
  match ← doing (talk d) with
  | .error f => throw (submissionFault announcement purpose f)
  | .ok receipt => return [announcement, ← settle (receiptLine receipt)]

/-! ## 2. The wallet -/

/-- Shows the address of the open wallet. -/
def showAddress (s : Session) : Attempt Step := do
  let key ← settle (s.key "cannot show address")
  return ⟨s, .ok ["Wallet address: " ++ key.address]⟩

/-- Shows the private key of the open wallet. -/
def showPrivate (s : Session) : Attempt Step := do
  let key ← settle (s.key "cannot show private key")
  return ⟨s, .ok ["Private key: " ++ key.wif]⟩

/-- Shows the public key of the open wallet. -/
def showPublic (s : Session) : Attempt Step := do
  let key ← settle (s.key "cannot show public key")
  return ⟨s, .ok ["Public key: " ++ key.publicText]⟩

/-- Shows a new key. It is kept nowhere. -/
def generate (s : Session) : Attempt Step := do
  let key ← doing World.takeKey
  return ⟨s, .ok [
    "New key generated",
    "This is only shown once, make sure to record this information",
    "---",
    "Address: " ++ key.address,
    "Public : " ++ key.publicText,
    "Private: " ++ key.wif]⟩

/-- Closes the open wallet. -/
def lock (s : Session) : Attempt Step := do
  let _ ← settle (s.key "cannot close")
  return ⟨s.closeWallet, .ok ["Wallet closed"]⟩

/-- The path of a new wallet file, at which there is nothing yet. -/
def newPath (s : Session) (filename : String) : Except Fault Path := do
  let path ← s.pathOf filename
  match s.disk.contains path with
  | .error f => .error (.file path.toText f)
  | .ok true => .error (.walletExists filename)
  | .ok false => .ok path

/-- Creates the file of a key and opens it. -/
def keep (s : Session) (filename : String) (path : Path) (password : String) (key : Key) : Attempt Step := do
  let salt ← doing (World.takeBytes Wallet.saltSize)
  let nonce ← doing (World.takeBytes Wallet.nonceSize)
  let writing ← doing World.takeWriting
  match Wallet.create s.disk path password salt nonce key.secret writing with
  | (disk, some f) => return ⟨{ s with disk }, .error (.wallet f)⟩
  | (disk, none) =>
    return ⟨{ s with disk }.openWallet key (some path),
      .ok ["Created and opened new wallet: " ++ filename, "Address: " ++ key.address]⟩

/-- Creates a wallet file for a new key and opens it. -/
def create (args : Command.Values) (s : Session) : Attempt Step := do
  let filename ← settle (needed args "filename")
  let path ← settle (s.newPath filename)
  let password ← settle (s.password (given args "password"))
  let key ← doing World.takeKey
  s.keep filename path password key

/-- Creates a wallet file for a key that is given, and opens it. -/
def importKey (args : Command.Values) (s : Session) : Attempt Step := do
  let text ← settle (needed args "private-key")
  let filename ← settle (needed args "filename")
  let path ← settle (s.newPath filename)
  let password ← settle (s.password (given args "password"))
  let key ← settle ((Key.ofWif text).mapError .key)
  s.keep filename path password key

/-- Opens a wallet file. -/
def unlock (args : Command.Values) (s : Session) : Attempt Step := do
  let filename ← settle (needed args "filename")
  let path ← settle (s.pathOf filename)
  let password ← settle (s.password (given args "password"))
  let secret ← settle ((Wallet.openFile s.disk path password).mapError .wallet)
  let key ← settle ((Key.ofBytes secret).mapError .key)
  return ⟨s.openWallet key (some path), .ok ["Opened wallet: " ++ filename]⟩

/-! ## 3. The connection -/

/-- Connects to an endpoint. -/
def connectTo (args : Command.Values) (s : Session) : Attempt Step := do
  let text ← settle (needed args "url")
  let url ← settle ((Url.endpoint text).mapError .url)
  let s ← doing (s.connect url)
  return ⟨s, .ok ["Connected to endpoint " ++ text]⟩

/-- Closes the connection. -/
def hangUp (s : Session) : Attempt Step := do
  let _ ← settle (s.client "cannot disconnect")
  let s ← doing s.disconnect
  return ⟨s, .ok ["Disconnected"]⟩

/-! ## 4. Contracts -/

/-- The contract, the entry point and the arguments of a raw call or read. -/
structure RawCall where
  contract : String
  entryPoint : String
  arguments : String

/-- The raw call that arguments describe. -/
def RawCall.ofValues (args : Command.Values) : Except Fault RawCall :=
  return ⟨← needed args "contract-id", ← needed args "entry-point", ← needed args "arguments"⟩

/-- Reads from a contract. -/
def readRaw (args : Command.Values) (s : Session) : Attempt Step := do
  let raw ← settle (RawCall.ofValues args)
  let client ← settle (s.client "cannot read contract")
  let contract ← settle (address raw.contract)
  let entry ← settle (entryPoint raw.entryPoint)
  let arguments ← settle (rawArguments raw.arguments)
  let data ← ask (client.readContract arguments contract entry)
  return ⟨s, .ok ["Result: " ++ Base64.encodeUrl data]⟩

/-- Calls a contract in a transaction. -/
def callRaw (args : Command.Values) (s : Session) : Attempt Step := do
  let raw ← settle (RawCall.ofValues args)
  let key ← settle (s.key "cannot call contract")
  let client ← settle (s.client "cannot call contract")
  let contract ← settle (address raw.contract)
  let entry ← settle (entryPoint raw.entryPoint)
  let arguments ← settle (rawArguments raw.arguments)
  let announcement := "Calling contract " ++ raw.contract ++ " at entry point " ++ raw.entryPoint ++
    " with arguments " ++ raw.arguments
  return ⟨s, .ok (← submit announcement "cannot call contract" (client.writeContract arguments contract entry key))⟩

/-- Registers a contract and the commands for its methods. -/
def register (args : Command.Values) (s : Session) : Attempt Step := do
  let name ← settle (needed args "name")
  let address ← settle (needed args "address")
  let filename ← settle (needed args "abi-filename")
  let path ← settle (s.pathOf filename)
  let text ← settle (s.documentText path)
  let document ← settle (documentOf text)
  let (registered, after) := s.enroll name address document
  let _ ← settle (registered.mapError .registration)
  return ⟨after, .ok ["Contract '" ++ name ++ "' at address " ++ address ++ " registered"]⟩

/-- The flags of an upload that were given. -/
def overridesOf (args : Command.Values) : List (String × Json) :=
  Command.overrideFlags.filterMap fun (arg, member) =>
    let v := given args arg
    if v.isEmpty then none else some (member, .bool (v == "true"))

/-- The text of the interface document that goes with an upload, empty without one. It must be one. -/
def uploadDocument (s : Session) (filename : String) : Except Fault String := do
  if filename.isEmpty then return ""
  let path ← s.pathOf filename
  let text ← s.documentText path
  let _ ← documentOf text
  return text

/-- Uploads a contract to the address of the open wallet. -/
def upload (args : Command.Values) (s : Session) : Attempt Step := do
  let filename ← settle (needed args "filename")
  let key ← settle (s.key "cannot upload contract")
  let client ← settle (s.client "cannot upload contract")
  let path ← settle (s.pathOf filename)
  let bytecode ← settle ((s.disk.read path).mapError (.file path.toText))
  let document ← settle (s.uploadDocument (given args "abi-filename"))
  let announcement := "Uploading contract to address " ++ key.address
  return ⟨s, .ok (← submit announcement "cannot upload contract"
    (client.uploadContract bytecode key document (overridesOf args)))⟩

/-! ## 5. Tokens -/

/-- The account that a balance is asked for: the one that is given, or else that of the open wallet. -/
def ownerOf (s : Session) (text : String) : Except Fault (String × Bytes) :=
  if text.isEmpty then do
    let key ← s.key "must give an address"
    return (key.address, key.addressBytes)
  else (address text).map fun b => (text, b)

/-- The bytes of a message of the token contract. -/
def tokenMessage (type : String) (members : List (String × Value)) : Except Fault Bytes := do
  let schema ← (Token.library.schema type).mapError .schema
  (Token.library.encode schema (.message members)).mapError .encode

/-- The amount in an answer of the token contract. -/
def amountIn (data : Bytes) : Except Fault Int := do
  let schema ← (Token.library.schema Token.balanceResult).mapError .schema
  let v ← (Token.library.decode schema data).mapError .decode
  match Value.member? "value" v.members with
  | some (.int n) => return n
  | _ => return 0

/-- Base units as an amount of the token. -/
def amountText (units : Int) : Except Fault String := (Amount.text units Amount.places).mapError .units

/-- Shows the balance of an account. -/
def balance (args : Command.Values) (s : Session) : Attempt Step := do
  let client ← settle (s.client "cannot check balance")
  let (shown, owner) ← settle (s.ownerOf (given args "address"))
  let message ← settle (tokenMessage Token.balanceArguments [("owner", .bytes owner)])
  let data ← ask (client.readContract message Token.contractId Token.balanceEntryPoint)
  let units ← settle (amountIn data)
  return ⟨s, .ok [shown ++ ": " ++ (← settle (amountText units))]⟩

/-- Transfers tokens from the open wallet. -/
def transfer (args : Command.Values) (s : Session) : Attempt Step := do
  let amount ← settle (needed args "amount")
  let recipient ← settle (needed args "address")
  let key ← settle (s.key "cannot transfer")
  let client ← settle (s.client "cannot transfer")
  let units ← settle ((Amount.toUnits amount Amount.places).mapError .amount)
  let receiver ← settle (address recipient)
  let message ← settle (tokenMessage Token.transferArguments
    [("from", .bytes key.addressBytes), ("to", .bytes receiver), ("value", .int units)])
  let announcement := "Transferring " ++ (← settle (amountText units)) ++ " to " ++ recipient
  return ⟨s, .ok (← submit announcement ("cannot transfer " ++ Amount.symbol)
    (client.writeContract message Token.contractId Token.transferEntryPoint key))⟩

/-! ## 6. The shell itself -/

/-- Tells what a command is for and how it is used. -/
def help (args : Command.Values) (s : Session) : Attempt Step := do
  let name ← settle (needed args "command")
  match s.commands.find? name with
  | none => throw (.unknownCommand name)
  | some d => return ⟨s, .ok [d.description, "Usage: " ++ d.usage]⟩

/-- Lists the commands. -/
def list (s : Session) : Attempt Step := return ⟨s, .ok s.commands.listing⟩

/-- Asks for the end of the session. -/
def leave (s : Session) : Attempt Step := return ⟨{ s with exiting := true }, .ok []⟩

/-! ## 7. Methods of contracts -/

/-- The message for a method that the arguments of a line stand for, and its bytes. -/
def messageFor (contract : Contract) (method : Method) (args : Command.Values) : Except Fault (Value × Bytes) := do
  let value ← (method.arguments.bind args).mapError .bind
  let bytes ← (contract.library.encode method.arguments value).mapError .encode
  return (value, bytes)

/-- The contract of a name. -/
def contractNamed (s : Session) (name : String) : Except Fault Contract := (s.contracts.get name).mapError .contract

/-- The lines that show an answer of a method. -/
def answerLines (contract : Contract) (method : Method) (data : Bytes) : Except Fault (List String) := do
  let answer ← (contract.library.decode method.result data).mapError .decode
  (method.result.display displayIndent answer).mapError .display

/-- What is said before a method is called in a transaction. -/
def callAnnouncement (command : String) (method : Method) (value : Value) : Except Fault String := do
  let lines ← (method.arguments.display "" value).mapError .display
  return "Calling " ++ command ++ " with arguments '" ++ String.intercalate ", " lines ++ "'"

/-- Asks a method that only reads. -/
def readMethod (contract : String) (method : Method) (args : Command.Values) (s : Session) : Attempt Step := do
  let client ← settle (s.client "cannot execute method")
  let contract ← settle (s.contractNamed contract)
  let (_, message) ← settle (messageFor contract method args)
  let data ← ask (client.readContract message contract.address method.entryPoint)
  return ⟨s, .ok (← settle (answerLines contract method data))⟩

/-- Calls a method in a transaction. -/
def writeMethod (command contract : String) (method : Method) (args : Command.Values) (s : Session) : Attempt Step := do
  let key ← settle (s.key "cannot execute method")
  let client ← settle (s.client "cannot execute method")
  let contract ← settle (s.contractNamed contract)
  let (value, message) ← settle (messageFor contract method args)
  let announcement ← settle (callAnnouncement command method value)
  return ⟨s, .ok (← submit announcement "cannot make call"
    (client.writeContract message contract.address method.entryPoint key))⟩

/-- What the command of a method does. -/
def callMethod (command contract : String) (method : Method) (args : Command.Values) : Session → Attempt Step :=
  if method.readOnly then readMethod contract method args else writeMethod command contract method args

end Session

/-- What a built-in command does. -/
def Command.Builtin.run : Command.Builtin → Command.Values → Session → Session.Attempt Session.Step
  | .address, _ => Session.showAddress
  | .balance, args => Session.balance args
  | .call, args => Session.callRaw args
  | .close, _ => Session.lock
  | .connect, args => Session.connectTo args
  | .create, args => Session.create args
  | .disconnect, _ => Session.hangUp
  | .exit, _ => Session.leave
  | .generate, _ => Session.generate
  | .help, args => Session.help args
  | .importKey, args => Session.importKey args
  | .list, _ => Session.list
  | .openWallet, args => Session.unlock args
  | .showPrivate, _ => Session.showPrivate
  | .showPublic, _ => Session.showPublic
  | .read, args => Session.readRaw args
  | .register, args => Session.register args
  | .transfer, args => Session.transfer args
  | .upload, args => Session.upload args

end ContractShell
