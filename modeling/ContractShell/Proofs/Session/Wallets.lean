import ContractShell.Proofs.Session.Files

/-!
A wallet file stays openable.

The file of a stored key is read back with the password that it was stored under, from the tree of files that the command
left and from every tree that grew from it; and the tree only grows, whatever commands come after.

## Main statements

* `Session.unlock_apply`: when a wallet file is opened.
* `Turn.Stores.openFile`: a stored key is in its file as long as the tree of files grows.
* `Session.exists_create_eq_ok`: when a wallet file can be created.
* `Shell.wallet_stays_openable`: what is created is opened, and goes on being opened.
-/

namespace ContractShell

open Command (Values)

/-! ## 1. Opening -/

namespace Session

/-- A wallet file is opened by a command that names it and its password. -/
theorem unlock_apply {s : Session} {args : Values} {path : Path} {password : String} {key : Key}
    (hnames : s.Names args path password) (hfile : Wallet.openFile s.disk path password = .ok key.secret) (w : World) :
    ∃ lines, unlock args s w = (.ok ⟨s.openWallet key (some path), .ok lines⟩, w) := by
  obtain ⟨⟨filename, hfilename, hpath⟩, hpassword⟩ := hnames
  have hsecret : (Wallet.openFile s.disk path password).mapError Fault.wallet = .ok key.secret := by
    rw [hfile]
    rfl
  have hkey : (Key.ofBytes key.secret).mapError Fault.key = .ok key := by
    rw [Key.ofBytes_secret]
    rfl
  unfold unlock
  rw [settle_ok_bind hfilename, settle_ok_bind hpath, settle_ok_bind hpassword, settle_ok_bind hsecret,
    settle_ok_bind hkey]
  exact ⟨_, rfl⟩

/-- A name of a path and a password stands for the same in another session with the same homes and environment. -/
theorem Names.of_same {s s' : Session} {args args' : Values} {path : Path} {password : String}
    (h : s.Names args path password) (hhomes : s'.disk.homes = s.disk.homes) (henvironment : s'.environment = s.environment)
    (hfilename : args'.find? "filename" = args.find? "filename")
    (hpassword : args'.find? "password" = args.find? "password") : s'.Names args' path password := by
  obtain ⟨⟨filename, hneeded, hpath⟩, hchosen⟩ := h
  constructor
  · refine ⟨filename, ?_, ?_⟩
    · rw [needed, hfilename]
      exact hneeded
    · rw [pathOf, hhomes]
      exact hpath
  · simp only [Session.password, environmentValue, given, hpassword, henvironment] at hchosen ⊢
    exact hchosen

/-! ## 2. Creating -/

/-- A wallet file is created where a password is given and the path leads to a free place, if its writing is not broken
off. -/
theorem exists_create_eq_ok {s : Session} {args : Values} {path : Path} {password : String} {place : Place} {w : World}
    (hnames : s.Names args path password) (hplace : s.disk.placeOf path = .ok place)
    (hfree : s.disk.find? place = none) (hwhole : w.writings.next.1 = .whole) :
    ∃ step lines w', create args s w = (.ok step, w') ∧ step.result = .ok lines := by
  obtain ⟨content, lines, w', hcreate⟩ := create_of_free hnames hplace hfree w
  rw [hwhole] at hcreate
  exact ⟨_, lines, w', hcreate, rfl⟩

end Session

/-! ## 3. Stored keys -/

namespace Turn

variable {t : Turn} {key : Key} {path : Path} {password : String}

theorem Stores.wallet_after (h : t.Stores key path password) : t.after.session.wallet = some ⟨key, some path⟩ := by
  rw [h.stores.after]
  rfl

/-- A stored key is in its file as long as the tree of files only grows. -/
theorem Stores.openFile (h : t.Stores key path password) {d : Disk} (hd : t.after.session.disk.Within d) :
    Wallet.openFile d path password = .ok key.secret := by
  obtain ⟨salt, nonce, writing, hnonce, hcreate⟩ := h.stores.created
  exact Wallet.openFile_of_create hnonce hcreate hd

/-- A turn that opens a wallet file succeeds when the file holds a key under the password that is named. -/
theorem after_of_openWallet (hopen : t.invocation.builtin? = some .openWallet)
    (hnames : t.shell.session.Names t.invocation.args path password)
    (hfile : Wallet.openFile t.shell.session.disk path password = .ok key.secret) :
    t.fault? = none ∧ t.after.session = t.shell.session.openWallet key (some path) := by
  obtain ⟨lines, hunlock⟩ := Session.unlock_apply hnames hfile t.shell.world
  have hrun : t.invocation.run t.shell.session t.shell.world =
      (.ok ⟨t.shell.session.openWallet key (some path), .ok lines⟩, t.shell.world) := by
    rw [Command.Invocation.run_of_builtin? hopen]
    exact hunlock
  obtain ⟨hafter, hresult⟩ := after_of_run_ok hrun
  rw [fault?, hresult, hafter]
  exact ⟨rfl, rfl⟩

end Turn

/-- A new file of a key that is written is opened with its password, in the tree that it was created in and in every tree
that grew from that one. A command that creates a wallet file and succeeds opens the wallet of a key, and whatever commands
and lines come after it, a command that opens a wallet file and names the same path and password succeeds and opens the same
wallet. -/
theorem Shell.wallet_stays_openable :
    (∀ (d : Disk) (path : Path) (place : Place) (password : String) (salt nonce : Bytes) (key : Key),
      d.placeOf path = .ok place → d.find? place = none → password ≠ "" → Gcm.isNonce nonce = true →
        ∃ d', Wallet.create d path password salt nonce key.secret .whole = (d', none) ∧
          ∀ d'', d'.Within d'' →
            Wallet.openFile d'' path password = .ok key.secret ∧ Key.ofBytes key.secret = .ok key) ∧
    ∀ t : Turn, t.keepsKey = true → ∃ key path password, t.Stores key path password ∧
      t.after.session.wallet = some ⟨key, some path⟩ ∧
      ∀ (rest : List Command.Invocation) (texts : List String) (u : Turn),
        u.shell = (t.after.interpret rest).2.after (texts.map .line) →
        u.invocation.builtin? = some .openWallet → u.shell.session.Names u.invocation.args path password →
          u.fault? = none ∧ u.after.session.wallet = some ⟨key, some path⟩ := by
  constructor
  · intro d path place password salt nonce key hplace hfree hpassword hnonce
    have hgiven : password.isEmpty = false := by
      rw [Bool.eq_false_iff]
      exact fun h => hpassword (String.isEmpty_iff.mp h)
    obtain ⟨d', hcreate⟩ := Wallet.exists_create_eq hplace hfree hgiven salt nonce key.secret
    exact ⟨d', hcreate, fun d'' hgrown => ⟨Wallet.openFile_of_create hnonce hcreate hgrown, key.ofBytes_secret⟩⟩
  · intro t hkeeps
    obtain ⟨key, path, password, hstores⟩ := Turn.exists_stores hkeeps
    refine ⟨key, path, password, hstores, hstores.wallet_after, fun rest texts u hu hopen hnames => ?_⟩
    have htakes := (Shell.takes_interpret rest t.after).1.append (Shell.takes_lines texts (t.after.interpret rest).2)
    rw [← hu] at htakes
    obtain ⟨hsucceeds, hafter⟩ := Turn.after_of_openWallet hopen hnames (hstores.openFile htakes.within)
    refine ⟨hsucceeds, ?_⟩
    rw [hafter]
    rfl

/-- Arguments that name a path and a password in a session at its start. -/
theorem Session.names_start : (Session.start .standard ⟨[], [], []⟩ [] ⟨.null, 0, fun _ => none⟩).Names
    [("filename", "w"), ("password", "p")] ⟨"", ["w"]⟩ "p" :=
  ⟨⟨"w", rfl, rfl⟩, rfl⟩

/-- A wallet that was created and closed is opened again, though another one is to be created at its path in between. -/
theorem Shell.wallet_stays_openable_of_new :
    let command (name : String) : Command.Invocation :=
      ⟨name, [("filename", "w"), ("password", "p")], Command.Registry.standard.find? name, 0, .endOfInput, true⟩
    let t : Turn := ⟨⟨Session.start .standard ⟨[], [], []⟩ [] ⟨.null, 0, fun _ => none⟩, World.silent⟩, command "create"⟩
    let u : Turn := ⟨t.after.after [.line "close", .line "create w q"], command "open"⟩
    t.keepsKey = true ∧ u.fault? = none ∧ u.after.session.wallet = t.after.session.wallet := by
  intro command t u
  have hkeeps : t.keepsKey = true := by
    obtain ⟨step, lines, w', hcreate, hlines⟩ :=
      Session.exists_create_eq_ok Session.names_start rfl rfl (show World.silent.writings.next.1 = .whole from rfl)
    have hrun : t.invocation.run t.shell.session t.shell.world = (.ok step, w') := by
      rw [Command.Invocation.run_of_builtin? (show t.invocation.builtin? = some .create from rfl)]
      exact hcreate
    have hsucceeds : t.fault? = none := by
      rw [Turn.fault?, (Turn.after_of_run_ok hrun).2, hlines]
    rw [Turn.keepsKey, hsucceeds]
    rfl
  obtain ⟨key, path, password, hstores, hwallet, hopens⟩ := wallet_stays_openable.2 t hkeeps
  have htakes := Shell.takes_lines ["close", "create w q"] t.after
  have hlater : u.shell.session.Names u.invocation.args path password :=
    hstores.stores.names.of_same (htakes.within.homes.trans t.within.homes)
      (htakes.environment.trans t.environment_after) rfl rfl
  have hshell (sh : Shell) : sh.after [.line "close", .line "create w q"] =
      (sh.interpret []).2.after (["close", "create w q"].map .line) := by
    rw [Shell.interpret, List.map_cons, List.map_singleton]
  obtain ⟨hsucceeds, hsame⟩ := hopens [] ["close", "create w q"] u (hshell t.after) rfl hlater
  exact ⟨hkeeps, hsucceeds, hsame.trans hwallet.symm⟩

end ContractShell
