import ContractShell.Proofs.Session.LineRun
import ContractShell.Proofs.Session.Submission
import ContractShell.Proofs.Wallet.RoundTrip

/-!
What one command can do to a session and to the network.

Everything that holds throughout a session is carried from command to command, so it is said once here what a command that
succeeds can have done. One that fails has left the session as it was, unless the device of a wallet file gave out: then the
file stays as far as it was written.

## Main statements

* `Session.ends_run`: what a command that comes to an end of its own has done.
* `Turn.ends`: a turn fails and changes no session, does one of the things that commands do, or leaves a file unfinished.
-/

namespace ContractShell

open Command (Values)

/-- The built-in command that a command is. -/
def Command.Invocation.builtin? (i : Command.Invocation) : Option Command.Builtin :=
  i.declaration.bind fun d =>
    match d.action with
    | .builtin b => some b
    | _ => none

theorem Command.Invocation.run_of_builtin? {i : Command.Invocation} {b : Command.Builtin} (h : i.builtin? = some b) :
    i.run = b.run i.args := by
  obtain ⟨d, hd, haction⟩ := Option.bind_eq_some_iff.mp h
  funext s
  unfold Command.Invocation.run
  rw [hd]
  cases hb : d.action with
  | builtin b' =>
    rw [hb] at haction
    cases haction
    simp only [hb]
  | none | method =>
    rw [hb] at haction
    cases haction

/-- A built-in command that creates a wallet file. -/
def Command.Builtin.creates : Command.Builtin → Bool
  | .create | .importKey => true
  | _ => false

namespace Session

/-! ## 1. What is stored -/

/-- Arguments name a path and a password in a session. -/
structure Names (s : Session) (args : Values) (path : Path) (password : String) : Prop where
  path : ∃ filename, needed args "filename" = .ok filename ∧ s.pathOf filename = .ok path
  password : s.password (given args "password") = .ok password

/-- The key that a command creates a file for: the next new one, or the one that is given. -/
inductive Brings (args : Values) (w : World) (key : Key) : Command.Builtin → Prop where
  | new (h : w.keys.next.1 = key) : Brings args w key .create
  | given {text : String} (htext : needed args "private-key" = .ok text) (hkey : Key.ofWif text = .ok key) :
      Brings args w key .importKey

/-- A key is stored: a file is created for it at the path that the arguments name, under the password that they name, and
the key is the one of the open wallet. -/
structure Stores (s : Session) (args : Values) (key : Key) (path : Path) (password : String) (s' : Session) : Prop where
  names : s.Names args path password
  created : ∃ salt nonce writing, Gcm.isNonce nonce = true ∧
    Wallet.create s.disk path password salt nonce key.secret writing = (s'.disk, none)
  after : s' = { s with disk := s'.disk }.openWallet key (some path)

/-- The storing of a key is broken off, because the device of its file gives out: the file stays as it is then, and the
session has changed in nothing else. -/
structure Abandons (s : Session) (args : Values) (key : Key) (path : Path) (password : String) (f : Wallet.Fault)
    (s' : Session) : Prop where
  names : s.Names args path password
  broken : ∃ salt nonce writing,
    Wallet.create s.disk path password salt nonce key.secret writing = (s'.disk, some f)
  device : f.isDevice = true
  after : s' = { s with disk := s'.disk }

/-- A device has given out while a wallet file was written. -/
def Fault.isDevice : Fault → Bool
  | .wallet f => f.isDevice
  | _ => false

namespace Abandons

variable {s s' : Session} {args : Values} {key : Key} {path : Path} {password : String} {f : Wallet.Fault}

/-- An unfinished file is at a place that was free, and holds the first bytes of a wallet file. -/
theorem exists_place (h : s.Abandons args key path password f s') : ∃ place r part,
    s.disk.placeOf path = .ok place ∧ s.disk.find? place = none ∧ part <+: Text.Utf8.ofString (Wallet.fileText r) ∧
      s'.disk = s.disk.add place (.file part) := by
  obtain ⟨salt, nonce, writing, hcreate⟩ := h.broken
  have hcreation := Wallet.creation_create s.disk path password salt nonce key.secret writing
  rw [hcreate] at hcreation
  generalize hmade : (s'.disk, some f) = made at hcreation
  cases hcreation with
  | refused hf =>
    obtain rfl := Option.some.inj (Prod.mk.inj hmade).2
    rw [h.device] at hf
    cases hf
  | made hplace hfree hseal =>
    exact ⟨_, _, _, hplace, hfree, Disk.written_prefix writing _, congrArg Prod.fst hmade⟩

end Abandons

/-! ## 2. What a command does -/

/-- What a command that succeeds has done to a session and to the network. -/
inductive Does (i : Command.Invocation) (s : Session) (w : World) : Session → World → Prop where
  | report {w' : World} (h : ∀ b, i.builtin? = some b → b.reports = true)
      (hnetwork : ∃ rs, w'.network = w.network.asked rs) : Does i s w s w'
  | leave {w' : World} (h : i.builtin? = some .exit) (hnetwork : ∃ rs, w'.network = w.network.asked rs) :
      Does i s w { s with exiting := true } w'
  | lock {w' : World} (h : i.builtin? = some .close) (hnetwork : ∃ rs, w'.network = w.network.asked rs) :
      Does i s w s.closeWallet w'
  | unlock {w' : World} (h : i.builtin? = some .openWallet) (key : Key) (path : Path)
      (hnetwork : ∃ rs, w'.network = w.network.asked rs) : Does i s w (s.openWallet key (some path)) w'
  | register {w' : World} (h : i.builtin? = some .register) (name address : String) (d : Interface.Document)
      (hnetwork : ∃ rs, w'.network = w.network.asked rs) : Does i s w (s.enroll name address d).2 w'
  | store {s' : Session} {w' : World} {b : Command.Builtin} {key : Key} {path : Path} {password : String}
      (h : i.builtin? = some b) (hbrings : Brings i.args w key b) (hstores : s.Stores i.args key path password s')
      (hnetwork : ∃ rs, w'.network = w.network.asked rs) : Does i s w s' w'
  | connect (h : i.builtin? = some .connect) (url : String) : Does i s w (s.connect url w).1 (s.connect url w).2
  | disconnect (h : i.builtin? = some .disconnect) : Does i s w (s.disconnect w).1 (s.disconnect w).2

/-- The ends that a command comes to of its own: it has succeeded, or it was refused the file that it was to write and
changed nothing, or it has left a file unfinished. -/
inductive Ends (i : Command.Invocation) (s : Session) (w : World) (step : Step) (w' : World) : Prop where
  | done {lines : List String} (hresult : step.result = .ok lines) (h : Does i s w step.session w')
  | refused {f : Fault} (hresult : step.result = .error f) (hdevice : f.isDevice = false) (hsession : step.session = s)
  | abandoned {f : Wallet.Fault} {b : Command.Builtin} {key : Key} {path : Path} {password : String}
      (hresult : step.result = .error (.wallet f)) (hb : i.builtin? = some b) (hbrings : Brings i.args w key b)
      (h : s.Abandons i.args key path password f step.session)

section

variable {α : Type} {s : Session} {args : Values} {w w' : World} {step : Step}

theorem of_settle_bind {r : Except Fault α} {f : α → Attempt Step} (h : (settle r >>= f) w = (.ok step, w')) :
    ∃ a, r = .ok a ∧ f a w = (.ok step, w') := by
  cases hr : r with
  | error fault =>
    rw [settle_error_bind hr] at h
    cases h
  | ok a =>
    rw [settle_ok_bind hr] at h
    exact ⟨a, rfl, h⟩

theorem of_mapError_eq_ok {ε φ : Type} {r : Except ε α} {f : ε → φ} {a : α} (h : r.mapError f = .ok a) : r = .ok a := by
  cases r with
  | error e => cases h
  | ok b =>
    cases h
    rfl

theorem pathOf_of_newPath {filename : String} {path : Path} (h : s.newPath filename = .ok path) :
    s.pathOf filename = .ok path := by
  obtain ⟨p, hp, hrest⟩ := of_bind_eq_ok h
  split at hrest
  · cases hrest
  · cases hrest
  · cases hrest
    exact hp

theorem doing_bind (x : StateM World α) (f : α → Attempt Step) (w : World) :
    (doing x >>= f) w = f (x w).1 (x w).2 := by
  have hdoing : doing x w = (.ok (x w).1, (x w).2) := rfl
  rw [steps_bind_apply, hdoing]

theorem of_doing_bind {x : StateM World α} {f : α → Attempt Step} (h : (doing x >>= f) w = (.ok step, w')) :
    f (x w).1 (x w).2 = (.ok step, w') := by
  rw [doing_bind] at h
  exact h

/-- What comes of a key that a command brings to be kept. -/
theorem ends_of_keep {i : Command.Invocation} {b : Command.Builtin} {filename : String} {path : Path} {password : String}
    {key : Key} {w₀ : World} (hb : i.builtin? = some b) (hbrings : Brings i.args w₀ key b)
    (hnames : s.Names i.args path password) (h : s.keep filename path password key w = (.ok step, w'))
    (hnetwork : ∃ rs, w'.network = w₀.network.asked rs) : Ends i s w₀ step w' := by
  -- The salt and the nonce are taken from the supply of bytes, and then it is known how the file is written.
  have hkept := of_doing_bind h
  have hchosen := of_doing_bind hkept
  have hstep := of_doing_bind hchosen
  generalize hsalt : (World.takeBytes Wallet.saltSize w).1 = salt at hstep
  generalize hnonce : (World.takeBytes Wallet.nonceSize (World.takeBytes Wallet.saltSize w).2).1 = nonce at hstep
  have hisNonce : Gcm.isNonce nonce = true := by
    rw [← hnonce]
    exact Wallet.isNonce_of_length (Supply.length_take _ _)
  generalize (World.takeWriting _).1 = writing at hstep
  have hcreation := Wallet.creation_create s.disk path password salt nonce key.secret writing
  cases hcreate : Wallet.create s.disk path password salt nonce key.secret writing with
  | mk disk fault =>
    rw [hcreate] at hstep hcreation
    cases fault with
    | none =>
      cases hstep
      exact .done rfl (.store hb hbrings ⟨hnames, ⟨salt, nonce, writing, hisNonce, hcreate⟩, rfl⟩ hnetwork)
    | some f =>
      cases hstep
      cases hdevice : f.isDevice with
      | true => exact .abandoned rfl hb hbrings ⟨hnames, ⟨salt, nonce, writing, hcreate⟩, hdevice, rfl⟩
      | false =>
        refine .refused rfl hdevice ?_
        have hdisk : disk = s.disk := by
          generalize hmade : (disk, some f) = made at hcreation
          cases hcreation with
          | refused => exact congrArg Prod.fst hmade
          | made _ _ _ =>
            -- a file that is made ends with no fault but the device's
            cases writing with
            | whole => cases hmade
            | broken kept reason =>
              obtain ⟨-, rfl⟩ := Prod.mk.inj hmade |>.imp id Option.some.inj
              cases hdevice
        rw [hdisk]

/-- A password that was chosen is not empty. -/
theorem isEmpty_of_password {s : Session} {given password : String} (h : s.password given = .ok password) :
    password.isEmpty = false := by
  have hblank : (Text.trimString "").isEmpty = true := by decide
  unfold Session.password at h
  generalize (if given.isEmpty then (s.environmentValue Fault.passwordVariable).getD "" else given) = chosen at h
  by_cases hchosen : (Text.trimString chosen).isEmpty = true
  · rw [if_pos hchosen] at h
    cases h
  · rw [if_neg hchosen] at h
    cases h
    rw [Bool.eq_false_iff]
    intro hempty
    rw [String.isEmpty_iff.mp hempty] at hchosen
    exact hchosen hblank

/-- How a key is kept at a free place, under a password that is not empty. -/
theorem keep_of_free {path : Path} {password : String} {place : Place} (hplace : s.disk.placeOf path = .ok place)
    (hfree : s.disk.find? place = none) (hpassword : password.isEmpty = false) (filename : String) (key : Key) (w : World) :
    ∃ content lines w', s.keep filename path password key w =
      (.ok (match w.writings.next.1 with
        | .whole => ⟨{ s with disk := s.disk.add place (.file content) }.openWallet key (some path), .ok lines⟩
        | .broken kept reason => ⟨{ s with disk := s.disk.add place (.file (content.take kept)) },
            .error (.wallet (.cannotWrite path.toText (.device reason)))⟩), w') := by
  unfold keep
  rw [doing_bind, doing_bind, doing_bind]
  have hnext : (World.takeWriting (World.takeBytes Wallet.nonceSize (World.takeBytes Wallet.saltSize w).2).2).1 =
    w.writings.next.1 := rfl
  rw [hnext, Wallet.create_of_free hplace hfree (Wallet.seal?_eq_some_iff.mpr ⟨hpassword, rfl⟩)]
  generalize Text.Utf8.ofString (Wallet.fileText _) = content
  generalize (World.takeWriting _).2 = w'
  refine ⟨content, ["Created and opened new wallet: " ++ filename, "Address: " ++ key.address], w', ?_⟩
  cases w.writings.next.1 <;> rfl

/-- What comes of a new key when a password is given and the path leads to a free place: its file is made there, and it is
all written or broken off. -/
theorem create_of_free {path : Path} {password : String} {place : Place} (hnames : s.Names args path password)
    (hplace : s.disk.placeOf path = .ok place) (hfree : s.disk.find? place = none) (w : World) :
    ∃ content lines w', create args s w =
      (.ok (match w.writings.next.1 with
        | .whole => ⟨{ s with disk := s.disk.add place (.file content) }.openWallet w.keys.next.1 (some path), .ok lines⟩
        | .broken kept reason => ⟨{ s with disk := s.disk.add place (.file (content.take kept)) },
            .error (.wallet (.cannotWrite path.toText (.device reason)))⟩), w') := by
  obtain ⟨⟨filename, hfilename, hpath⟩, hpassword⟩ := hnames
  have hnew : s.newPath filename = .ok path := by
    have hcontains : s.disk.contains path = .ok false := by
      rw [Disk.contains, hplace]
      simp only [hfree, Option.isSome_none]
    simp only [newPath, hpath, bind, Except.bind, hcontains]
  unfold create
  rw [settle_ok_bind hfilename, settle_ok_bind hnew, settle_ok_bind hpassword, doing_bind]
  exact keep_of_free hplace hfree (isEmpty_of_password hpassword) filename (World.takeKey w).1 (World.takeKey w).2

theorem ends_of_create {i : Command.Invocation} (hb : i.builtin? = some .create)
    (h : create i.args s w = (.ok step, w')) (hnetwork : ∃ rs, w'.network = w.network.asked rs) : Ends i s w step w' := by
  obtain ⟨filename, hfilename, h⟩ := of_settle_bind h
  obtain ⟨path, hpath, h⟩ := of_settle_bind h
  obtain ⟨password, hpassword, h⟩ := of_settle_bind h
  exact ends_of_keep hb (.new rfl) ⟨⟨filename, hfilename, pathOf_of_newPath hpath⟩, hpassword⟩ (of_doing_bind h) hnetwork

theorem ends_of_importKey {i : Command.Invocation} (hb : i.builtin? = some .importKey)
    (h : importKey i.args s w = (.ok step, w')) (hnetwork : ∃ rs, w'.network = w.network.asked rs) :
    Ends i s w step w' := by
  obtain ⟨text, htext, h⟩ := of_settle_bind h
  obtain ⟨filename, hfilename, h⟩ := of_settle_bind h
  obtain ⟨path, hpath, h⟩ := of_settle_bind h
  obtain ⟨password, hpassword, h⟩ := of_settle_bind h
  obtain ⟨key, hkey, h⟩ := of_settle_bind h
  exact ends_of_keep hb (.given htext (of_mapError_eq_ok hkey))
    ⟨⟨filename, hfilename, pathOf_of_newPath hpath⟩, hpassword⟩ h hnetwork

theorem of_unlock (h : unlock args s w = (.ok step, w')) :
    ∃ key path lines, step.session = s.openWallet key (some path) ∧ step.result = .ok lines := by
  obtain ⟨filename, _, h⟩ := of_settle_bind h
  obtain ⟨path, _, h⟩ := of_settle_bind h
  obtain ⟨password, _, h⟩ := of_settle_bind h
  obtain ⟨secret, _, h⟩ := of_settle_bind h
  obtain ⟨key, _, h⟩ := of_settle_bind h
  cases h
  exact ⟨key, path, _, rfl, rfl⟩

theorem of_register (h : register args s w = (.ok step, w')) :
    ∃ name address document lines, step.session = (s.enroll name address document).2 ∧ step.result = .ok lines := by
  obtain ⟨name, _, h⟩ := of_settle_bind h
  obtain ⟨address, _, h⟩ := of_settle_bind h
  obtain ⟨filename, _, h⟩ := of_settle_bind h
  obtain ⟨path, _, h⟩ := of_settle_bind h
  obtain ⟨text, _, h⟩ := of_settle_bind h
  obtain ⟨document, _, h⟩ := of_settle_bind h
  obtain ⟨contract, _, h⟩ := of_settle_bind h
  cases h
  exact ⟨name, address, document, _, rfl, rfl⟩

end

/-- What a built-in command that comes to an end of its own has done. -/
theorem ends_builtin {i : Command.Invocation} {d : Command.Declaration} (hd : i.declaration = some d)
    {b : Command.Builtin} (haction : d.action = .builtin b) {s : Session} {w w' : World} {step : Step}
    (h : b.run i.args s w = (.ok step, w')) : Ends i s w step w' := by
  have hbuiltin : i.builtin? = some b := by
    rw [Command.Invocation.builtin?, hd, Option.bind_some, haction]
  by_cases hconnect : b = .connect
  · subst hconnect
    obtain ⟨text, _, h⟩ := of_settle_bind h
    obtain ⟨url, _, h⟩ := of_settle_bind h
    have hstep := of_doing_bind h
    cases hstep
    exact .done rfl (.connect hbuiltin url)
  by_cases hdisconnect : b = .disconnect
  · subst hdisconnect
    obtain ⟨client, _, h⟩ := of_settle_bind h
    have hstep := of_doing_bind h
    cases hstep
    exact .done rfl (.disconnect hbuiltin)
  -- No other command opens or closes a connection, so all that the network sees are requests.
  have hnetwork : ∃ rs, w'.network = w.network.asked rs := by
    obtain ⟨rs, -, hrs⟩ := exchanges_builtin (s := s) hd haction hconnect hdisconnect w
    rw [h] at hrs
    exact ⟨rs, hrs⟩
  -- Most commands only report. The six that are left change one part of the session each.
  by_cases hreports : b.reports = true
  · obtain ⟨hsession, lines, hlines⟩ := isReport_of_reports hreports i.args s w step w' h
    refine .done hlines ?_
    rw [hsession]
    refine .report (fun b' hb' => ?_) hnetwork
    rw [hbuiltin] at hb'
    cases hb'
    exact hreports
  cases b with
  | connect => exact absurd rfl hconnect
  | disconnect => exact absurd rfl hdisconnect
  | exit =>
    cases h
    exact .done rfl (.leave hbuiltin hnetwork)
  | close =>
    obtain ⟨key, _, h⟩ := of_settle_bind h
    cases h
    exact .done rfl (.lock hbuiltin hnetwork)
  | openWallet =>
    obtain ⟨key, path, lines, hafter, hlines⟩ := of_unlock h
    refine .done hlines ?_
    rw [hafter]
    exact .unlock hbuiltin key path hnetwork
  | register =>
    obtain ⟨name, address, document, lines, hafter, hlines⟩ := of_register h
    refine .done hlines ?_
    rw [hafter]
    exact .register hbuiltin name address document hnetwork
  | create => exact ends_of_create hbuiltin h hnetwork
  | importKey => exact ends_of_importKey hbuiltin h hnetwork
  | _ => exact absurd rfl hreports

/-- What a command that comes to an end of its own has done. -/
theorem ends_run {i : Command.Invocation} {s : Session} {w w' : World} {step : Step}
    (h : i.run s w = (.ok step, w')) : Ends i s w step w' := by
  unfold Command.Invocation.run at h
  cases hd : i.declaration with
  | none =>
    rw [hd] at h
    cases h
  | some d =>
    rw [hd] at h
    cases haction : d.action with
    | none =>
      simp only [haction] at h
      cases h
    | builtin b =>
      simp only [haction] at h
      exact ends_builtin hd haction h
    | method contract m =>
      simp only [haction] at h
      obtain ⟨hsession, lines, hlines⟩ := isReport_callMethod i.name contract m i.args s w step w' h
      have hnone : i.builtin? = none := by
        rw [Command.Invocation.builtin?, hd, Option.bind_some, haction]
      obtain ⟨rs, -, hrs⟩ := exchanges_callMethod (s := s) hd haction i.name w
      rw [h] at hrs
      refine .done hlines ?_
      rw [hsession]
      exact .report (fun b hb => by rw [hnone] at hb; cases hb) ⟨rs, hrs⟩

end Session

/-! ## 3. The connection -/

namespace Session

/-- A session that is disconnected has changed in nothing else. -/
theorem disconnect_fst (s : Session) (w : World) : (s.disconnect w).1 = { s with connection := none } := by
  cases h : s.connection with
  | none =>
    rw [disconnect_of_offline h, ← h]
  | some c =>
    simp only [disconnect, h]
    rfl

/-- A session that is connected has changed in nothing else, and the connection is the next one of the network. -/
theorem connect_fst (s : Session) (url : String) (w : World) : (s.connect url w).1 =
    { s with
      connection :=
        some ⟨(s.disconnect w).2.network.opened, ⟨url, s.terms.timeout, s.terms.rcLimit, s.terms.reader⟩⟩ } := by
  show { (s.disconnect w).1 with connection := some ⟨(s.disconnect w).2.network.opened,
    ⟨url, (s.disconnect w).1.terms.timeout, (s.disconnect w).1.terms.rcLimit, (s.disconnect w).1.terms.reader⟩⟩ } = _
  rw [disconnect_fst]

end Session

/-! ## 4. Turns -/

/-- A turn leaves a file unfinished: its command has come to the writing, and the device gives out. -/
def Turn.abandons (t : Turn) : Bool :=
  match (t.invocation.run t.shell.session t.shell.world).1 with
  | .error _ => false
  | .ok step =>
    match step.result with
    | .ok _ => false
    | .error f => f.isDevice

/-- How a turn can end: it fails and leaves the session as it was, its command has done what commands do, or it leaves a
file unfinished. A turn that fails has made some requests at most. -/
inductive Turn.Ends (t : Turn) : Prop where
  | failed {f : Session.Fault} (hfault : t.fault? = some f) (hfinished : t.abandons = false)
      (hsession : t.after.session = t.shell.session)
      (hnetwork : ∃ rs, t.after.world.network = t.shell.world.network.asked rs)
  | done (hfault : t.fault? = none) (hfinished : t.abandons = false)
      (h : Session.Does t.invocation t.shell.session t.shell.world t.after.session t.after.world)
  | abandoned {f : Wallet.Fault} {b : Command.Builtin} {key : Key} {path : Path} {password : String}
      (hfault : t.fault? = some (.wallet f)) (hunfinished : t.abandons = true) (hb : t.invocation.builtin? = some b)
      (hbrings : Session.Brings t.invocation.args t.shell.world key b)
      (h : t.shell.session.Abandons t.invocation.args key path password f t.after.session)
      (hnetwork : ∃ rs, t.after.world.network = t.shell.world.network.asked rs)

theorem Turn.after_of_run_ok {t : Turn} {step : Session.Step} {w : World}
    (h : t.invocation.run t.shell.session t.shell.world = (.ok step, w)) :
    t.after = ⟨step.session, w⟩ ∧ t.result = step.result := by
  unfold after Shell.execute result
  rw [h]
  exact ⟨rfl, rfl⟩

theorem Turn.after_of_run_error {t : Turn} {f : Session.Fault} {w : World}
    (h : t.invocation.run t.shell.session t.shell.world = (.error f, w)) :
    t.after = ⟨t.shell.session, w⟩ ∧ t.fault? = some f := by
  unfold after Shell.execute fault? result
  rw [h]
  exact ⟨rfl, rfl⟩

theorem Turn.ends (t : Turn) : t.Ends := by
  obtain ⟨rs, -, -, hnetwork⟩ := Session.network_run t.invocation t.shell.session t.shell.world
  cases hrun : t.invocation.run t.shell.session t.shell.world with
  | mk r w =>
    rw [hrun] at hnetwork
    cases r with
    -- A fault that is thrown comes before any change; one that stands in a step can come with a file.
    | error f =>
      obtain ⟨hafter, hfault⟩ := after_of_run_error hrun
      have hfinished : t.abandons = false := by rw [abandons, hrun]
      exact .failed hfault hfinished (by rw [hafter]) ⟨rs, by rw [hafter]; exact hnetwork f rfl⟩
    | ok step =>
      obtain ⟨hafter, hresult⟩ := after_of_run_ok hrun
      have hsession : t.after.session = step.session := by rw [hafter]
      have hasked : ∀ f, step.result = .error f → ∃ rs, t.after.world.network = t.shell.world.network.asked rs :=
        fun f hf => ⟨rs, by rw [hafter]; exact hnetwork f hf⟩
      cases Session.ends_run hrun with
      | done hlines h =>
        have hfault : t.fault? = none := by rw [fault?, hresult, hlines]
        have hfinished : t.abandons = false := by
          rw [abandons, hrun]
          simp only [hlines]
        exact .done hfault hfinished (by rw [hafter]; exact h)
      | refused hf hdevice hsame =>
        have hfault := show t.fault? = some _ by rw [fault?, hresult, hf]
        have hfinished : t.abandons = false := by
          rw [abandons, hrun]
          simp only [hf, hdevice]
        exact .failed hfault hfinished (hsession.trans hsame) (hasked _ hf)
      | abandoned hf hb hbrings h =>
        have hfault := show t.fault? = some _ by rw [fault?, hresult, hf]
        have hunfinished : t.abandons = true := by
          rw [abandons, hrun]
          simp only [hf]
          exact h.device
        exact .abandoned hfault hunfinished hb hbrings (by rw [hsession]; exact h) (hasked _ hf)

namespace Shell

theorem Takes.append {sh mid last : Shell} {ts us : List Turn} (h : Takes sh ts mid) (h' : Takes mid us last) :
    Takes sh (ts ++ us) last := by
  induction h with
  | none => exact h'
  | next hstart _ ih => exact .next hstart (ih h')

/-- Lines that are typed one after the other take the turns of each line, and nothing else happens to the shell. -/
theorem takes_lines (texts : List String) (sh : Shell) :
    Takes sh (sh.turns (texts.map .line)) (sh.after (texts.map .line)) := by
  induction texts generalizing sh with
  | nil => exact .none sh
  | cons text texts ih => exact (takes_interpret (sh.commandsOf text) sh).1.append (ih (sh.runLine text).2)

end Shell

/-! ## 5. A full device -/

/-- A shell at its start, on a device that has no room. -/
def Shell.onFullDevice : Shell where
  session := .start .standard ⟨[], [], []⟩ [] ⟨.null, 0, fun _ => none⟩
  world := { World.silent with writings := .always (.broken 0 "No space left on device") }

/-- A command that creates a wallet file fails where there is no room, and leaves an empty file. -/
theorem Turn.abandons_onFullDevice {i : Command.Invocation} (hb : i.builtin? = some .create)
    (hargs : i.args = [("filename", "w"), ("password", "p")]) :
    Turn.abandons ⟨.onFullDevice, i⟩ = true ∧
      (Turn.after ⟨.onFullDevice, i⟩).session.disk.entries = [(["w"], .file [])] := by
  have hnames : Shell.onFullDevice.session.Names i.args ⟨"", ["w"]⟩ "p" := by
    rw [hargs]
    exact ⟨⟨"w", rfl, rfl⟩, rfl⟩
  have hplace : Shell.onFullDevice.session.disk.placeOf ⟨"", ["w"]⟩ = .ok ["w"] := rfl
  have hbroken : Shell.onFullDevice.world.writings.next.1 = .broken 0 "No space left on device" := rfl
  obtain ⟨content, lines, w', hcreate⟩ := Session.create_of_free hnames hplace rfl Shell.onFullDevice.world
  rw [hbroken] at hcreate
  have hrun : i.run Shell.onFullDevice.session Shell.onFullDevice.world =
      Session.create i.args Shell.onFullDevice.session Shell.onFullDevice.world := by
    rw [Command.Invocation.run_of_builtin? hb]
    rfl
  rw [hcreate] at hrun
  constructor
  · rw [Turn.abandons, hrun]
    rfl
  · rw [(Turn.after_of_run_ok (t := ⟨.onFullDevice, i⟩) hrun).1]
    rfl

/-- A turn that leaves a file unfinished fails. -/
theorem Turn.exists_fault_of_abandons {t : Turn} (h : t.abandons = true) : ∃ f, t.fault? = some f := by
  cases t.ends with
  | failed hfault | abandoned hfault => exact ⟨_, hfault⟩
  | done _ hfinished =>
    rw [hfinished] at h
    cases h

end ContractShell
