import ContractShell.Node.Fault
import ContractShell.Node.Network

/-!
Calls to a node, and what the shell does with them: reading contracts, and submitting transactions.

Submitting an operation takes three calls: for the chain's name, for the payer's nonce, and for the transaction itself.
The first that fails ends it.
-/

namespace ContractShell.Node

/-! ## 1. Clients and dialogues -/

/-- How the body of an answer is read as a document; `none` if it is none. -/
abbrev Reader := Bytes → Option Json

/-- A connection to a node. -/
structure Client where
  url : String
  timeout : Json
  rcLimit : Int
  reader : Reader

/-- Steps that make requests and can fail. Requests stay made when a later step fails. -/
abbrev Dialogue := ExceptT Fault (StateM Network)

/-! ## 2. Calls -/

/-- The items of a node's log: nothing, a list, the characters of a text, or the names of an object's members. -/
def logItems (v : Json) : Except Misfit (List Json) :=
  if v.isVacant then .ok []
  else
    match v with
    | .arr items => .ok items
    | .str s => .ok (s.toList.map fun c => .str (String.singleton c))
    | .obj m => .ok (m.map fun p => .str p.1)
    | v => .error (.notAList v.kindName)

/-- The fault that an error member stands for. -/
def faultOf (error : Json) : Fault :=
  match error with
  | .obj m =>
    let logs := ((Json.find? "data" m).bind (Json.member? "logs")).getD .null
    match logItems logs with
    | .ok items =>
      .refused ((Json.find? "code" m).getD (.int (-1))) ((Json.find? "message" m).getD (.str "unknown")) items
    | .error misfit => .misfit misfit
  | v => .misfit (.notAnObject v.kindName)

/-- The error that an answer holds, if it holds one. -/
def errorIn? (v : Json) : Option Json := (v.member? "error").filter fun e => !e.isVacant

/-- A status stands for a failure. -/
def isFailure (status : Nat) : Bool := 400 ≤ status && status < 600

/-- The result of a proper answer. -/
def resultOf (v : Json) : Except Fault Json :=
  match v with
  | .obj m =>
    match errorIn? v with
    | some e => .error (faultOf e)
    | none => .ok ((Json.find? "result" m).getD .null)
  | _ => .error .notObject

/-- What an outcome means. An answer with a status that stands for a failure can still hold an error of the node. -/
def Client.resultIn (c : Client) : Outcome → Except Fault Json
  | .unreachable => .error (.unreachable c.url)
  | .response status body =>
    match c.reader body with
    | none => .error (if isFailure status then .httpStatus status else .malformed)
    | some v =>
      if isFailure status && (errorIn? v).isNone then .error (.httpStatus status) else resultOf v

/-- The request of a call. Parameters that are vacant count as none. -/
def Client.request (c : Client) (method : String) (params : Json) (transaction : Option Transaction) : Request :=
  ⟨c.url, method, if params.isVacant then .obj [] else params, c.timeout, transaction⟩

/-- Calls a method of a node, with a transaction in the parameters or none. -/
def Client.callWith (c : Client) (method : String) (params : Json) (transaction : Option Transaction) : Dialogue Json :=
  fun n =>
    let (o, n') := n.post (c.request method params transaction)
    (c.resultIn o, n')

/-- Calls a method of a node. -/
def Client.call (c : Client) (method : String) (params : Json) : Dialogue Json := c.callWith method params none

/-! ## 3. Values in answers -/

/-- The bytes of a base64 text in an answer. -/
def bytesIn (v : Json) : Except Misfit Bytes :=
  match v with
  | .str s => (Base64.decodeUnpadded s).mapError .base64
  | .arr _ => .error .listForText
  | .obj _ => .error .objectForText
  | v => .error (.noLength v.kindName)

/-- The member of a value that should have members. -/
def memberIn (key : String) (v : Json) : Except Misfit Json :=
  match v with
  | .obj m =>
    match Json.find? key m with
    | some x => .ok x
    | none => .error (.lacking key)
  | .arr _ => .error .listIndex
  | .str _ => .error .textIndex
  | v => .error (.noMembers v.kindName)

/-- The integer that a value stands for. A vacant value is zero; a floating-point number loses its fraction. -/
def integerIn (v : Json) : Except Misfit Int :=
  if v.isVacant then .ok 0
  else
    match v with
    | .int n => .ok n
    | .bool _ => .ok 1
    | .str s => (Integer.read 10 s).mapError .numeral
    | .float x =>
      match x.truncate? with
      | some n => .ok n
      | none => .error (if x = .nan then .nan else .infinite)
    | v => .error (.notANumber v.kindName)

/-- A value that an answer has to hold. -/
def expect {α : Type} (r : Except Misfit α) : Dialogue α :=
  match r with
  | .ok x => pure x
  | .error m => throw (.misfit m)

/-! ## 4. Reading -/

/-- Calls a method of a contract that only reads. -/
def Client.readContract (c : Client) (args contractId : Bytes) (entryPoint : Nat) : Dialogue Bytes := do
  let result ← c.call "chain.read_contract" (.obj [
    ("contract_id", .str (Base58.toString contractId)),
    ("entry_point", .int entryPoint),
    ("args", .str (Base64.encodeUrl args))])
  match result with
  | .obj m => expect (bytesIn ((Json.find? "result" m).getD (.str "")))
  | _ => throw .noResult

/-- The name of the chain. -/
def Client.chainId (c : Client) : Dialogue Bytes := do
  let result ← c.call "chain.get_chain_id" (.obj [])
  let text ← expect (memberIn "chain_id" result)
  expect (bytesIn text)

/-- The nonce of an account: how many transactions it has paid for. -/
def Client.accountNonce (c : Client) (address : Bytes) : Dialogue Int := do
  let result ← c.call "chain.get_account_nonce" (.obj [("account", .str (Base58.toString address))])
  match result with
  | .obj m => expect (integerIn ((Json.find? "nonce" m).getD .null))
  | v => throw (.misfit (.notAnObject v.kindName))

/-! ## 5. Submitting -/

/-- The method that takes transactions. -/
def submitMethod : String := "chain.submit_transaction"

/-- Submits a transaction. Its receipt is what the node says, or else the transaction's name. -/
def Client.submit (c : Client) (t : Transaction) : Dialogue Json := do
  let result ← c.callWith submitMethod (.obj [("transaction", t.toJson), ("broadcast", .bool true)]) (some t)
  let receipt := (result.member? "receipt").getD .null
  return if receipt.isVacant then .obj [("id", .str t.id)] else receipt

/-- Signs and submits a transaction that holds one operation, paid for by the signer. -/
def Client.submitOperation (c : Client) (operation : Json) (k : Key) : Dialogue Json := do
  let address := k.addressBytes
  let chainId ← c.chainId
  let nonce ← c.accountNonce address
  if Transaction.isWritable [operation] (nonce + 1) c.rcLimit then
    c.submit ((Transaction.build [operation] chainId (nonce + 1) c.rcLimit address).sign k)
  else throw (.misfit .tooLong)

/-- Calls a method of a contract in a transaction. -/
def Client.writeContract (c : Client) (args contractId : Bytes) (entryPoint : Nat) (k : Key) : Dialogue Json :=
  c.submitOperation (Operation.call contractId entryPoint args) k

/-- Uploads a contract to the signer's address. -/
def Client.uploadContract (c : Client) (bytecode : Bytes) (k : Key) (document : String)
    (overrides : List (String × Json)) : Dialogue Json :=
  c.submitOperation (Operation.upload k.address bytecode document overrides) k

end ContractShell.Node
