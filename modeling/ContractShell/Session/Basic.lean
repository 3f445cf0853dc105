import ContractShell.Contract.Registration
import ContractShell.Files.Disk
import ContractShell.Node.Client
import ContractShell.Session.World

/-!
Sessions: what a shell remembers between two commands.

A session that is connected has a client, and the client's URL is the one that it is connected to; a session whose wallet
is open has a key.

## Main statements

* `disconnect_of_offline`: a session that is not connected closes nothing.
* `called_callAll`, `failed_callAll`: every callback is called, whichever of them fail.
-/

namespace ContractShell

/-! ## 1. Parts -/

/-- A connection to a node, with its number. -/
structure Connection where
  number : Nat
  client : Node.Client

/-- A wallet that is open, and the file that it came from, if it came from one. -/
structure OpenWallet where
  key : Key
  path : Option Path

/-- What clients are made with: the longest wait for an answer, in seconds, the limit on a transaction's costs, and how
answers are read. -/
structure Terms where
  timeout : Json
  rcLimit : Int
  reader : Node.Reader

/-- Something to be done when the session ends. It can fail. -/
structure Callback where
  name : String
  fails : Bool
  deriving DecidableEq, Repr

/-- What came of callbacks: the names of those that were called, in order, and of those among them that failed. -/
structure Calls where
  called : List String
  failed : List String
  deriving DecidableEq, Repr

/-- A session. -/
structure Session where
  commands : Command.Registry
  contracts : Contracts
  connection : Option Connection
  wallet : Option OpenWallet
  exiting : Bool
  disk : Disk
  environment : List (String × String)
  terms : Terms
  callbacks : List Callback

namespace Session

/-- A session at its start: no contracts, not connected, no open wallet. -/
def start (commands : Command.Registry) (disk : Disk) (environment : List (String × String)) (terms : Terms) : Session :=
  { commands, disk, environment, terms
    contracts := Contracts.empty
    connection := none
    wallet := none
    exiting := false
    callbacks := [] }

/-- The URL that a session is connected to. -/
def url (s : Session) : Option String := s.connection.map (·.client.url)

/-- The value of a variable of the environment. -/
def environmentValue (s : Session) (name : String) : Option String := (s.environment.find? (·.1 == name)).map (·.2)

/-! ## 2. The connection -/

/-- Closes the connection, if there is one. -/
def disconnect (s : Session) : StateM World Session := do
  match s.connection with
  | none => return s
  | some c =>
    World.closeConnection c.number
    return { s with connection := none }

/-- Connects to a URL, after closing the connection before. -/
def connect (s : Session) (url : String) : StateM World Session := do
  let s ← s.disconnect
  let number ← World.openConnection
  return { s with connection := some ⟨number, ⟨url, s.terms.timeout, s.terms.rcLimit, s.terms.reader⟩⟩ }

/-- A session that is not connected closes nothing. -/
theorem disconnect_of_offline {s : Session} (h : s.connection = none) (w : World) : s.disconnect w = (s, w) := by
  simp [disconnect, h]
  rfl

/-! ## 3. The wallet -/

/-- Opens a wallet. -/
def openWallet (s : Session) (key : Key) (path : Option Path) : Session := { s with wallet := some ⟨key, path⟩ }

/-- Closes the wallet. -/
def closeWallet (s : Session) : Session := { s with wallet := none }

/-! ## 4. Contracts -/

/-- Registers a contract: it is added together with its commands, or the session stays as it is. -/
def enroll (s : Session) (name address : String) (d : Interface.Document) :
    Except Registration.Fault Contract × Session :=
  match Registration.register s.contracts s.commands name address d with
  | .error f => (.error f, s)
  | .ok (c, contracts, commands) => (.ok c, { s with contracts, commands })

/-! ## 5. The end -/

/-- Adds something to be done at the end. -/
def addCallback (s : Session) (c : Callback) : Session := { s with callbacks := s.callbacks ++ [c] }

/-- Calls callbacks one after the other. When one fails that is noted, and the next one is called all the same. -/
def callAll : List Callback → Calls
  | [] => ⟨[], []⟩
  | c :: rest =>
    let calls := callAll rest
    ⟨c.name :: calls.called, if c.fails then c.name :: calls.failed else calls.failed⟩

/-- Every callback is called, whichever of them fail. -/
@[simp] theorem called_callAll (cs : List Callback) : (callAll cs).called = cs.map (·.name) := by
  induction cs with
  | nil => rfl
  | cons c cs ih => simp [callAll, ih]

theorem failed_callAll (cs : List Callback) : (callAll cs).failed = (cs.filter (·.fails)).map (·.name) := by
  induction cs with
  | nil => rfl
  | cons c cs ih => by_cases h : c.fails <;> simp [callAll, ih, h]

/-- Ends a session: its callbacks are called, the last one first, and the connection is closed. -/
def finish (s : Session) : StateM World (Calls × Session) := do
  let calls := callAll s.callbacks.reverse
  let s ← disconnect { s with callbacks := [] }
  return (calls, s)

/-- What the prompt shows: whether the session is connected, and whether its wallet is open. -/
def prompt (s : Session) : String :=
  let online := if s.connection.isSome then "online" else "offline"
  let lock := if s.wallet.isSome then "unlocked" else "locked"
  "(" ++ online ++ ") (" ++ lock ++ ") > "

end Session

end ContractShell
