import ContractShell.Proofs.Session.Effect

/-!
Commands that act on a shell in place.

A command is run here step by step: each change is made to the shell at once, in the order in which the command makes it,
and nothing is taken back when a later step fails. That comes to the same as running the command on a session that is only
kept if it succeeds, since every command makes all its checks before its first change. The one exception is the file of a
key: when its device gives out, the file stays as it is then, and the command fails.

## Main statements

* `Shell.perform_eq_execute`: a command comes to the same in place.
* `Shell.perform_failing`: what a command that fails has changed, as its changes are made in place.
-/

namespace ContractShell

open Command (Declaration Registry Values)

/-! ## 1. Steps in place -/

/-- Steps that act on a shell and can fail. What was changed before a step that fails stays changed. -/
abbrev InPlace := ExceptT Session.Fault (StateM Shell)

namespace InPlace

open Session

/-- Steps that look at the session and act on the world alone. -/
def attempt {α : Type} (x : Session → Attempt α) : InPlace α := fun sh =>
  let (r, world) := x sh.session sh.world
  (r, { sh with world })

/-- Something that the session settles. -/
def look {α : Type} (r : Session → Except Fault α) : InPlace α := attempt fun s => Session.settle (r s)

/-- Steps that act on the world and cannot fail. -/
def outside {α : Type} (x : StateM World α) : InPlace α := attempt fun _ => doing x

/-- A change of the session. -/
def change (f : Session → Session) : InPlace Unit := fun sh => (.ok (), { sh with session := f sh.session })

/-! ## 2. Commands in place -/

/-- Closes the open wallet. -/
def lock : InPlace (List String) := do
  let _ ← look fun s => s.key "cannot close"
  change Session.closeWallet
  return ["Wallet closed"]

/-- Creates the file of a key, and then opens it. What was written stays, whether or not the writing was broken off. -/
def keep (filename : String) (path : Path) (password : String) (key : Key) : InPlace (List String) := do
  let salt ← outside (World.takeBytes Wallet.saltSize)
  let nonce ← outside (World.takeBytes Wallet.nonceSize)
  let writing ← outside World.takeWriting
  let (disk, fault) ← look fun s => .ok (Wallet.create s.disk path password salt nonce key.secret writing)
  change fun s => { s with disk }
  match fault with
  | some f => throw (.wallet f)
  | none => change fun s => s.openWallet key (some path)
  return ["Created and opened new wallet: " ++ filename, "Address: " ++ key.address]

/-- Creates a wallet file for a new key and opens it. -/
def create (args : Values) : InPlace (List String) := do
  let filename ← look fun _ => needed args "filename"
  let path ← look fun s => s.newPath filename
  let password ← look fun s => s.password (given args "password")
  let key ← outside World.takeKey
  keep filename path password key

/-- Creates a wallet file for a key that is given, and opens it. -/
def importKey (args : Values) : InPlace (List String) := do
  let text ← look fun _ => needed args "private-key"
  let filename ← look fun _ => needed args "filename"
  let path ← look fun s => s.newPath filename
  let password ← look fun s => s.password (given args "password")
  let key ← look fun _ => (Key.ofWif text).mapError .key
  keep filename path password key

/-- Opens a wallet file. -/
def unlock (args : Values) : InPlace (List String) := do
  let filename ← look fun _ => needed args "filename"
  let path ← look fun s => s.pathOf filename
  let password ← look fun s => s.password (given args "password")
  let secret ← look fun s => (Wallet.openFile s.disk path password).mapError .wallet
  let key ← look fun _ => (Key.ofBytes secret).mapError .key
  change fun s => s.openWallet key (some path)
  return ["Opened wallet: " ++ filename]

/-- Closes the connection, if there is one, and then forgets it. -/
def disconnect : InPlace Unit := do
  match ← look fun s => .ok s.connection with
  | none => return
  | some c =>
    outside (World.closeConnection c.number)
    change fun s => { s with connection := none }

/-- Connects to a URL, after closing the connection before. -/
def connect (url : String) : InPlace Unit := do
  disconnect
  let number ← outside World.openConnection
  change fun s => { s with connection := some ⟨number, ⟨url, s.terms.timeout, s.terms.rcLimit, s.terms.reader⟩⟩ }

/-- Connects to an endpoint. -/
def connectTo (args : Values) : InPlace (List String) := do
  let text ← look fun _ => needed args "url"
  let url ← look fun _ => (Url.endpoint text).mapError .url
  connect url
  return ["Connected to endpoint " ++ text]

/-- Closes the connection. -/
def hangUp : InPlace (List String) := do
  let _ ← look fun s => s.client "cannot disconnect"
  disconnect
  return ["Disconnected"]

/-- Adds commands, one after the other. -/
def addCommands : List Declaration → InPlace Unit
  | [] => return
  | d :: ds => do
    change fun s => { s with commands := s.commands.add d }
    addCommands ds

/-- Registers a contract: it is prepared with all its commands, then it is added, and then they are. -/
def enroll (name address : String) (document : Interface.Document) : InPlace Unit := do
  let (contract, declarations) ← look fun s =>
    (Registration.prepare s.contracts s.commands name address document).mapError .registration
  let contracts ← look fun s =>
    (s.contracts.insert contract).mapError fun _ => .registration (.exists contract.name)
  change fun s => { s with contracts }
  addCommands declarations

/-- Registers a contract and the commands for its methods. -/
def register (args : Values) : InPlace (List String) := do
  let name ← look fun _ => needed args "name"
  let address ← look fun _ => needed args "address"
  let filename ← look fun _ => needed args "abi-filename"
  let path ← look fun s => s.pathOf filename
  let text ← look fun s => s.documentText path
  let document ← look fun _ => documentOf text
  enroll name address document
  return ["Contract '" ++ name ++ "' at address " ++ address ++ " registered"]

/-- Asks for the end of the session. -/
def leave : InPlace (List String) := do
  change fun s => { s with exiting := true }
  return []

/-- A command that makes no change to the session. -/
def report (x : Session → Attempt Step) : InPlace (List String) := attempt fun s => do
  let step ← x s
  Session.settle step.result

end InPlace

/-- What a built-in command does in place. -/
def Command.Builtin.perform (args : Values) : Command.Builtin → InPlace (List String)
  | .close => InPlace.lock
  | .connect => InPlace.connectTo args
  | .create => InPlace.create args
  | .disconnect => InPlace.hangUp
  | .exit => InPlace.leave
  | .importKey => InPlace.importKey args
  | .openWallet => InPlace.unlock args
  | .register => InPlace.register args
  | b => InPlace.report (b.run args)

/-- What a command that was read does in place. -/
def Command.Invocation.perform (i : Command.Invocation) : InPlace (List String) :=
  match i.declaration with
  | none => throw (.unknownCommand i.name)
  | some d =>
    match d.action with
    | .none => throw (.unknownCommand i.name)
    | .builtin b => b.perform i.args
    | .method contract m => InPlace.report (Session.callMethod i.name contract m i.args)

/-- Runs a command in place. -/
def Shell.perform (i : Command.Invocation) (sh : Shell) : Outcome × Shell :=
  let (result, sh) := i.perform sh
  (.ofResult result, sh)

/-! ## 3. The same in place -/

namespace InPlace

open Session Attempt

/-- Steps in place come to the same as a command that gives the session after it: if that one fails instead, the session is
as it was before. -/
def Follows (x : InPlace (List String)) (y : Session → Attempt Step) : Prop :=
  ∀ sh : Shell, x sh = match y sh.session sh.world with
    | (.ok step, world) => (step.result, ⟨step.session, world⟩)
    | (.error f, world) => (.error f, ⟨sh.session, world⟩)

section

variable {α : Type}

/-- What comes after a step that leaves the session alone comes to the same in place. -/
theorem follows_attempt {z : Session → Attempt α} {f : α → InPlace (List String)} {g : α → Session → Attempt Step}
    (h : ∀ a, Follows (f a) (g a)) : Follows (attempt z >>= f) fun s => z s >>= fun a => g a s := by
  intro sh
  beta_reduce
  rw [steps_bind_apply, steps_bind_apply]
  unfold attempt
  cases hz : z sh.session sh.world with
  | mk r world =>
    cases r with
    | error fault => rfl
    | ok a => exact h a ⟨sh.session, world⟩

/-- The rest may use that the session is the one that was looked at, until it is changed. -/
theorem follows_look {r : Session → Except Fault α} {f : α → InPlace (List String)} {g : α → Session → Attempt Step}
    (h : ∀ a, Follows (f a) (g a)) : Follows (look r >>= f) fun s => Session.settle (r s) >>= fun a => g a s := follows_attempt h

theorem follows_outside {x : StateM World α} {f : α → InPlace (List String)} {g : α → Session → Attempt Step}
    (h : ∀ a, Follows (f a) (g a)) : Follows (outside x >>= f) fun s => doing x >>= fun a => g a s := follows_attempt h

theorem look_ok_bind {r : Session → Except Fault α} {a : α} {β : Type} {sh : Shell} (h : r sh.session = .ok a)
    (f : α → InPlace β) : (look r >>= f) sh = f a sh := by
  have hlook : look r sh = (.ok a, sh) := by
    rw [← h]
    rfl
  rw [steps_bind_apply, hlook]

theorem look_error_bind {r : Session → Except Fault α} {fault : Fault} {β : Type} {sh : Shell}
    (h : r sh.session = .error fault) (f : α → InPlace β) : (look r >>= f) sh = (.error fault, sh) := by
  have hlook : look r sh = (.error fault, sh) := by
    rw [← h]
    rfl
  rw [steps_bind_apply, hlook]

/-- A command that ends in the session that it was given needs no change in place. -/
theorem follows_report {y : Session → Attempt Step} (h : ∀ s, Gives (y s) (Step.IsReport s)) :
    Follows (report y) y := by
  intro sh
  unfold report attempt
  beta_reduce
  rw [steps_bind_apply]
  cases hy : y sh.session sh.world with
  | mk r world =>
    cases r with
    | error fault => rfl
    | ok step =>
      have hsession : step.session = sh.session := (h sh.session sh.world step world hy).session
      show (step.result, (⟨sh.session, world⟩ : Shell)) = (step.result, ⟨step.session, world⟩)
      rw [hsession]

end

/-! ## 4. Each command -/

theorem follows_keep (filename : String) (path : Path) (password : String) (key : Key) :
    Follows (keep filename path password key) fun s => s.keep filename path password key := by
  refine follows_outside fun salt => follows_outside fun nonce => follows_outside fun writing sh => ?_
  rw [look_ok_bind (a := Wallet.create sh.session.disk path password salt nonce key.secret writing) rfl]
  cases Wallet.create sh.session.disk path password salt nonce key.secret writing with
  | mk disk fault => cases fault <;> rfl

theorem disconnect_apply (sh : Shell) :
    disconnect sh = (.ok (), ⟨(sh.session.disconnect sh.world).1, (sh.session.disconnect sh.world).2⟩) := by
  unfold disconnect
  rw [look_ok_bind (a := sh.session.connection) rfl]
  cases hconnection : sh.session.connection with
  | none =>
    rw [Session.disconnect_of_offline hconnection]
    rfl
  | some c =>
    unfold Session.disconnect
    simp only [hconnection]
    rfl

theorem connect_apply (url : String) (sh : Shell) :
    connect url sh = (.ok (), ⟨(sh.session.connect url sh.world).1, (sh.session.connect url sh.world).2⟩) := by
  unfold connect
  rw [steps_bind_apply, disconnect_apply]
  rfl

theorem addCommands_apply (ds : List Declaration) (sh : Shell) : addCommands ds sh =
    (.ok (), { sh with session := { sh.session with commands := ds.foldl Registry.add sh.session.commands } }) := by
  induction ds generalizing sh with
  | nil => rfl
  | cons d ds ih =>
    have hadd : change (fun s => { s with commands := s.commands.add d }) sh =
      (.ok (), { sh with session := { sh.session with commands := sh.session.commands.add d } }) := rfl
    rw [addCommands, steps_bind_apply, hadd]
    exact ih _

theorem enroll_of_error {name address : String} {document : Interface.Document} {sh : Shell} {f : Registration.Fault}
    (h : Registration.prepare sh.session.contracts sh.session.commands name address document = .error f) :
    enroll name address document sh = (.error (.registration f), sh) := by
  unfold enroll
  exact look_error_bind (by rw [h]; rfl) _

/-- What was prepared can be added, so the changes are reached and none of them fails. -/
theorem enroll_of_ok {name address : String} {document : Interface.Document} {sh : Shell} {c : Contract}
    {ds : List Declaration}
    (h : Registration.prepare sh.session.contracts sh.session.commands name address document = .ok (c, ds)) :
    enroll name address document sh = (.ok (), { sh with session := { sh.session with
      contracts := sh.session.contracts.add c, commands := ds.foldl Registry.add sh.session.commands } }) := by
  obtain ⟨-, hfree, hname, -⟩ := Registration.prepare_eq_ok_iff.mp h
  have hinsert : sh.session.contracts.insert c = .ok (sh.session.contracts.add c) := by
    unfold Contracts.insert
    rw [hname, hfree]
    rfl
  unfold enroll
  rw [look_ok_bind (a := (c, ds)) (by rw [h]; rfl)]
  simp only
  rw [look_ok_bind (a := sh.session.contracts.add c) (by rw [hinsert]; rfl)]
  exact addCommands_apply ds _

theorem follows_register (args : Values) : Follows (register args) (Session.register args) := by
  refine follows_look fun name => follows_look fun address => follows_look fun filename => ?_
  refine follows_look fun path => follows_look fun text => follows_look fun document sh => ?_
  cases h : Registration.prepare sh.session.contracts sh.session.commands name address document with
  | error f =>
    have henroll : sh.session.enroll name address document = (.error f, sh.session) := by
      unfold Session.enroll Registration.register
      rw [h]
    rw [steps_bind_apply, enroll_of_error h]
    simp only [henroll]
    rfl
  | ok p =>
    obtain ⟨c, ds⟩ := p
    rw [steps_bind_apply, enroll_of_ok h]
    simp only [enroll_of_prepare h]
    rfl

/-- Connecting in place, with what is said afterwards. -/
theorem follows_connectTo (args : Values) : Follows (connectTo args) (Session.connectTo args) := by
  refine follows_look fun text => follows_look fun url sh => ?_
  rw [steps_bind_apply, connect_apply]
  rfl

theorem follows_hangUp : Follows hangUp Session.hangUp := by
  refine follows_look fun client sh => ?_
  rw [steps_bind_apply, disconnect_apply]
  rfl

theorem follows_builtin (args : Values) (b : Command.Builtin) : Follows (b.perform args) (b.run args) := by
  by_cases hreports : b.reports = true
  · have hperform : b.perform args = report (b.run args) := by
      cases b <;> first | rfl | cases hreports
    rw [hperform]
    exact follows_report fun s => isReport_of_reports hreports args s
  · cases b with
    | close => exact follows_look fun key sh => rfl
    | connect => exact follows_connectTo args
    | create =>
      refine follows_look fun filename => follows_look fun path => follows_look fun password => ?_
      exact follows_outside fun key => follows_keep filename path password key
    | disconnect => exact follows_hangUp
    | exit => exact fun sh => rfl
    | importKey =>
      refine follows_look fun text => follows_look fun filename => follows_look fun path => ?_
      exact follows_look fun password => follows_look fun key => follows_keep filename path password key
    | openWallet =>
      refine follows_look fun filename => follows_look fun path => follows_look fun password => ?_
      exact follows_look fun secret => follows_look fun key sh => rfl
    | register => exact follows_register args
    | _ => exact absurd rfl hreports

theorem follows_perform (i : Command.Invocation) : Follows i.perform i.run := by
  unfold Command.Invocation.perform Command.Invocation.run
  cases i.declaration with
  | none => exact fun sh => rfl
  | some d =>
    simp only
    cases d.action with
    | none => exact fun sh => rfl
    | builtin b => exact follows_builtin i.args b
    | method contract m => exact follows_report (isReport_callMethod i.name contract m i.args)

end InPlace

/-! ## 5. Commands that fail -/

/-- A command comes to the same in place. -/
theorem Shell.perform_eq_execute (i : Command.Invocation) (sh : Shell) : sh.perform i = sh.execute i := by
  have hfollows := InPlace.follows_perform i sh
  unfold Shell.perform Shell.execute
  rw [hfollows]
  cases i.run sh.session sh.world with
  | mk r world => cases r <;> rfl

/-- A command that fails leaves the session as it was, though it makes its changes in place: the commands and contracts, the
open wallet, the connection, the flag for the end and the files. The one exception is a command that breaks off while it
writes a wallet file: then there is one file more, at a place that was free, with the first bytes of a wallet file, and all
else is as it was. No connection was opened or closed, either; all that the network can have seen are requests. -/
theorem Shell.perform_failing {i : Command.Invocation} {sh : Shell} (h : (sh.execute i).1.isOk = false) :
    sh.perform i = sh.execute i ∧
      (∃ rs, (sh.perform i).2.world.network = sh.world.network.asked rs) ∧
      ((sh.perform i).2.session = sh.session ↔ Turn.abandons ⟨sh, i⟩ = false) ∧
      (Turn.abandons ⟨sh, i⟩ = true → ∃ place r part, sh.session.disk.find? place = none ∧
        part <+: Text.Utf8.ofString (Wallet.fileText r) ∧
        (sh.perform i).2.session = { sh.session with disk := sh.session.disk.add place (.file part) }) := by
  rw [Shell.perform_eq_execute]
  refine ⟨rfl, ?_⟩
  rw [Turn.isOk_execute ⟨sh, i⟩] at h
  cases Turn.ends ⟨sh, i⟩ with
  | done hfault =>
    rw [hfault] at h
    cases h
  | failed _ hfinished hsession hnetwork =>
    rw [hfinished]
    exact ⟨hnetwork, iff_of_true hsession rfl, fun hunfinished => Bool.noConfusion hunfinished⟩
  | abandoned _ hunfinished _ _ habandons hnetwork =>
    obtain ⟨place, r, part, -, hfree, hpart, hdisk⟩ := habandons.exists_place
    have hafter := habandons.after
    rw [hdisk] at hafter
    rw [hunfinished]
    refine ⟨hnetwork, iff_of_false ?_ Bool.noConfusion, fun _ => ⟨place, r, part, hfree, hpart, hafter⟩⟩
    -- the tree with the file is another one
    intro hsame
    have hfile := Disk.find?_add_self sh.session.disk (.file part) (Disk.ne_nil_of_find?_eq_none hfree)
    rw [← hdisk, show (Turn.after ⟨sh, i⟩).session = sh.session from hsame, hfree] at hfile
    cases hfile

/-- The command that creates a wallet file fails on a full device, and has left a file that was not there before. -/
theorem Shell.perform_onFullDevice :
    let i : Command.Invocation :=
      ⟨"create", [("filename", "w"), ("password", "p")], Registry.standard.find? "create", 1, .endOfInput, true⟩
    Shell.onFullDevice.Reachable ∧ (Shell.onFullDevice.execute i).1.isOk = false ∧
      Shell.onFullDevice.session.disk.entries = [] ∧
      (Shell.onFullDevice.perform i).2.session.disk.entries = [(["w"], .file [])] := by
  intro i
  have hb : i.builtin? = some .create := rfl
  have hargs : i.args = [("filename", "w"), ("password", "p")] := rfl
  clear_value i
  obtain ⟨habandons, hdisk⟩ := Turn.abandons_onFullDevice hb hargs
  obtain ⟨f, hfault⟩ := Turn.exists_fault_of_abandons habandons
  have hfails : (Shell.onFullDevice.execute i).1.isOk = false := by
    rw [Turn.isOk_execute ⟨.onFullDevice, i⟩, hfault]
    rfl
  rw [Shell.perform_eq_execute]
  exact ⟨.start _ _ _ _ _, hfails, rfl, hdisk⟩

/-- The command that connects to a URL. -/
def Command.Invocation.ofConnect (url : String) : Command.Invocation where
  name := "connect"
  args := [("url", url)]
  declaration := Registry.standard.find? "connect"
  currentArg := 0
  termination := .endOfInput
  complete := true

/-- A shell that is online stays connected as it is when it is told to connect to something that is not an endpoint. -/
theorem Shell.perform_failing_ofConnect :
    ((Shell.ofNumber "A" plainTypes).execute (.ofConnect "ftp://x")).1.isOk = false ∧
      ((Shell.ofNumber "A" plainTypes).perform (.ofConnect "ftp://x")).2.session.connection.isSome = true ∧
      ((Shell.ofNumber "A" plainTypes).perform (.ofConnect "ftp://x")).2.world.network.closed =
        (Shell.ofNumber "A" plainTypes).world.network.closed := by
  have hurl : Url.endpoint "ftp://x" = .error (.notEndpoint "ftp://x") := rfl
  have hrun : ∀ s w, (Command.Invocation.ofConnect "ftp://x").run s w = (.error (.url (.notEndpoint "ftp://x")), w) := by
    intro s w
    have hneeded : Session.needed [("url", "ftp://x")] "url" = .ok "ftp://x" := rfl
    show Session.connectTo [("url", "ftp://x")] s w = _
    unfold Session.connectTo
    rw [Session.settle_ok_bind hneeded]
    exact Session.settle_error_bind (by rw [hurl]; rfl) _ _
  have hfails : ((Shell.ofNumber "A" plainTypes).execute (.ofConnect "ftp://x")).1.isOk = false := by
    unfold Shell.execute
    rw [hrun]
    rfl
  have hfinished : Turn.abandons ⟨Shell.ofNumber "A" plainTypes, .ofConnect "ftp://x"⟩ = false := by
    unfold Turn.abandons
    rw [hrun]
  obtain ⟨-, ⟨rs, hnetwork⟩, hsession, -⟩ := Shell.perform_failing hfails
  refine ⟨hfails, ?_, ?_⟩
  · rw [hsession.mpr hfinished]
    exact Shell.online_ofNumber "A" plainTypes
  · rw [hnetwork]
    rfl

end ContractShell
