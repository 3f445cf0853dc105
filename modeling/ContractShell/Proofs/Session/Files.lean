import ContractShell.Proofs.Correspondence
import ContractShell.Proofs.Session.Effect

/-!
What lines do to files.

Of all commands only those that keep a key write to the tree of files, and they write one file each, at a place where there
was nothing. So a tree only grows while lines are typed, and what was in it stays as it was. A file stays even where its
device gives out while it is written, though the command fails then.

## Main statements

* `Turn.Stores.exists_place`, `Turn.Leaves.exists_place`: a file is made at a free place.
* `Shell.Takes.within`: the tree of files only grows.
* `Shell.exists_places_of_takes`: which files are new after some turns.
* `Shell.files_kept`: what lines leave as it was, and when all new files are those of commands that succeed.
-/

namespace ContractShell

open Command (Values)

/-! ## 1. One turn -/

/-- A turn keeps a key: its command creates a wallet file, and it succeeds. -/
def Turn.keepsKey (t : Turn) : Bool := t.fault?.isNone && t.invocation.builtin?.any (·.creates)

/-- A turn stores a key at a path under a password. -/
structure Turn.Stores (t : Turn) (key : Key) (path : Path) (password : String) : Prop where
  succeeds : t.fault? = none
  brings : ∃ b, t.invocation.builtin? = some b ∧ Session.Brings t.invocation.args t.shell.world key b
  stores : t.shell.session.Stores t.invocation.args key path password t.after.session

/-- A turn creates a file at a place: it stores a key at a path that leads there. -/
def Turn.CreatesAt (t : Turn) (place : Place) : Prop :=
  ∃ key path password, t.Stores key path password ∧ t.shell.session.disk.placeOf path = .ok place

/-- A turn leaves an unfinished file for a key at a path, and fails. -/
structure Turn.Leaves (t : Turn) (key : Key) (path : Path) (password : String) : Prop where
  brings : ∃ b, t.invocation.builtin? = some b ∧ Session.Brings t.invocation.args t.shell.world key b
  abandons : ∃ f, t.fault? = some (.wallet f) ∧
    t.shell.session.Abandons t.invocation.args key path password f t.after.session

/-- A turn leaves an unfinished file at a place: it breaks off while it stores a key at a path that leads there. -/
def Turn.LeavesAt (t : Turn) (place : Place) : Prop :=
  ∃ key path password, t.Leaves key path password ∧ t.shell.session.disk.placeOf path = .ok place

theorem Command.Builtin.not_reports_of_creates {b : Command.Builtin} (h : b.creates = true) : b.reports = false := by
  cases b with
  | create | importKey => rfl
  | _ => cases h

namespace Session

theorem disk_enroll (s : Session) (name address : String) (d : Interface.Document) :
    (s.enroll name address d).2.disk = s.disk := by
  unfold enroll
  split <;> rfl

theorem environment_enroll (s : Session) (name address : String) (d : Interface.Document) :
    (s.enroll name address d).2.environment = s.environment := by
  unfold enroll
  split <;> rfl

/-- A command that creates no wallet file leaves the files as they are. -/
theorem Does.disk {i : Command.Invocation} {s s' : Session} {w w' : World} (h : Does i s w s' w')
    (hnot : i.builtin?.any (·.creates) = false) : s'.disk = s.disk := by
  cases h with
  | register _ name address d => exact disk_enroll s name address d
  | connect _ url => rw [connect_fst]
  | disconnect => rw [disconnect_fst]
  | store hb hbrings _ _ =>
    rw [hb] at hnot
    cases hbrings <;> cases hnot
  | _ => rfl

/-- A command that creates a wallet file stores a key in it. -/
theorem Does.exists_stores {i : Command.Invocation} {s s' : Session} {w w' : World} (h : Does i s w s' w')
    (hcreates : i.builtin?.any (·.creates) = true) : ∃ key path password,
      (∃ b, i.builtin? = some b ∧ Brings i.args w key b) ∧ s.Stores i.args key path password s' := by
  obtain ⟨b, hb, hcreate⟩ := (Option.any_eq_true _ _).mp hcreates
  cases h with
  | store hb' hbrings hstores _ => exact ⟨_, _, _, ⟨_, hb', hbrings⟩, hstores⟩
  | report hreports _ =>
    have hnot := Command.Builtin.not_reports_of_creates hcreate
    rw [hreports b hb] at hnot
    cases hnot
  | leave hb' _ | lock hb' _ | unlock hb' _ _ _ | register hb' _ _ _ _ | connect hb' _ | disconnect hb' =>
    rw [hb] at hb'
    cases hb'
    cases hcreate

/-- No command changes the environment. -/
theorem Does.environment {i : Command.Invocation} {s s' : Session} {w w' : World} (h : Does i s w s' w') :
    s'.environment = s.environment := by
  cases h with
  | register _ name address d => exact environment_enroll s name address d
  | connect _ url => rw [connect_fst]
  | disconnect => rw [disconnect_fst]
  | store _ _ hstores _ =>
    rw [hstores.after]
    rfl
  | _ => rfl

end Session

namespace Turn

variable {t : Turn}

theorem exists_stores (h : t.keepsKey = true) : ∃ key path password, t.Stores key path password := by
  obtain ⟨hnone, hcreates⟩ := (Bool.and_eq_true _ _).mp h
  cases t.ends with
  | failed hfault | abandoned hfault =>
    rw [hfault] at hnone
    cases hnone
  | done hsucceeds _ hdoes =>
    obtain ⟨key, path, password, hbrings, hstores⟩ := hdoes.exists_stores hcreates
    exact ⟨key, path, password, hsucceeds, hbrings, hstores⟩

theorem exists_leaves (h : t.abandons = true) : ∃ key path password, t.Leaves key path password := by
  cases t.ends with
  | failed _ hfinished | done _ hfinished =>
    rw [hfinished] at h
    cases h
  | abandoned hfault _ hb hbrings habandons => exact ⟨_, _, _, ⟨_, hb, hbrings⟩, _, hfault, habandons⟩

/-- A turn that leaves a file unfinished has kept no key. -/
theorem not_keepsKey_of_abandons (h : t.abandons = true) : t.keepsKey = false := by
  obtain ⟨key, path, password, -, f, hfault, -⟩ := exists_leaves h
  rw [keepsKey, hfault]
  rfl

theorem disk_of_not_keepsKey (h : t.keepsKey = false) (hfinished : t.abandons = false) :
    t.after.session.disk = t.shell.session.disk := by
  cases t.ends with
  | failed _ _ hsession => rw [hsession]
  | done hsucceeds _ hdoes =>
    refine hdoes.disk ?_
    rw [keepsKey, hsucceeds] at h
    exact h
  | abandoned _ hunfinished =>
    rw [hfinished] at hunfinished
    cases hunfinished

theorem environment_after (t : Turn) : t.after.session.environment = t.shell.session.environment := by
  cases t.ends with
  | failed _ _ hsession => rw [hsession]
  | done _ _ hdoes => exact hdoes.environment
  | abandoned _ _ _ _ h => rw [h.after]

/-- A key is stored in a file at a free place, and nothing else is written. -/
theorem Stores.exists_place {key : Key} {path : Path} {password : String} (h : t.Stores key path password) :
    ∃ place content, t.shell.session.disk.placeOf path = .ok place ∧ t.shell.session.disk.find? place = none ∧
      t.after.session.disk = t.shell.session.disk.add place (.file content) := by
  obtain ⟨salt, nonce, writing, -, hcreate⟩ := h.stores.created
  obtain ⟨-, place, r, hplace, hfree, -, hdisk⟩ := Wallet.create_eq_iff.mp hcreate
  exact ⟨place, _, hplace, hfree, hdisk⟩

/-- An unfinished file is left at a free place, and nothing else is written. -/
theorem Leaves.exists_place {key : Key} {path : Path} {password : String} (h : t.Leaves key path password) :
    ∃ place content, t.shell.session.disk.placeOf path = .ok place ∧ t.shell.session.disk.find? place = none ∧
      t.after.session.disk = t.shell.session.disk.add place (.file content) := by
  obtain ⟨f, -, habandons⟩ := h.abandons
  obtain ⟨place, r, part, hplace, hfree, -, hdisk⟩ := habandons.exists_place
  exact ⟨place, part, hplace, hfree, hdisk⟩

/-- A turn takes nothing away from the tree of files. -/
theorem within (t : Turn) : t.shell.session.disk.Within t.after.session.disk := by
  by_cases hkeeps : t.keepsKey = true
  · obtain ⟨key, path, password, hstores⟩ := exists_stores hkeeps
    obtain ⟨place, content, -, hfree, hdisk⟩ := hstores.exists_place
    rw [hdisk]
    exact .add hfree _
  by_cases hleaves : t.abandons = true
  · obtain ⟨key, path, password, hleaves⟩ := exists_leaves hleaves
    obtain ⟨place, content, -, hfree, hdisk⟩ := hleaves.exists_place
    rw [hdisk]
    exact .add hfree _
  rw [disk_of_not_keepsKey (Bool.eq_false_iff.mpr hkeeps) (Bool.eq_false_iff.mpr hleaves)]
  exact .refl _

/-- The place of a file that a turn creates is known from the turn. -/
theorem CreatesAt.unique {place place' : Place} (h : t.CreatesAt place) (h' : t.CreatesAt place') : place = place' := by
  obtain ⟨key, path, password, hstores, hplace⟩ := h
  obtain ⟨key', path', password', hstores', hplace'⟩ := h'
  obtain ⟨filename, hfilename, hpath⟩ := hstores.stores.names.path
  obtain ⟨filename', hfilename', hpath'⟩ := hstores'.stores.names.path
  obtain rfl : filename = filename' := Except.ok.inj (hfilename.symm.trans hfilename')
  obtain rfl : path = path' := Except.ok.inj (hpath.symm.trans hpath')
  exact Except.ok.inj (hplace.symm.trans hplace')

end Turn

/-! ## 2. All turns -/

namespace Shell

/-- The tree of files only grows. -/
theorem Takes.within {sh last : Shell} {ts : List Turn} (h : Takes sh ts last) :
    sh.session.disk.Within last.session.disk := by
  induction h with
  | none sh => exact .refl _
  | @next sh last t ts hstart _ ih =>
    rw [← hstart]
    exact t.within.trans ih

theorem Takes.environment {sh last : Shell} {ts : List Turn} (h : Takes sh ts last) :
    last.session.environment = sh.session.environment := by
  induction h with
  | none sh => rfl
  | @next sh last t ts hstart _ ih => rw [ih, t.environment_after, hstart]

/-- The turns that keep a key create one file each, and those that break off leave one each; these are the files that the
tree gains. -/
theorem exists_places_of_takes {sh last : Shell} {ts : List Turn} (h : Takes sh ts last) :
    ∃ created left, List.Forall₂ Turn.CreatesAt (ts.filter Turn.keepsKey) created ∧
      List.Forall₂ Turn.LeavesAt (ts.filter Turn.abandons) left ∧
      sh.session.disk.Gains last.session.disk (created ++ left) := by
  induction h with
  | none sh => exact ⟨[], [], .nil, .nil, .refl _⟩
  | @next sh last t ts hstart _ ih =>
    obtain ⟨created, left, hcreated, hleft, hgains⟩ := ih
    subst hstart
    cases hleaves : t.abandons with
    | true =>
      -- A turn that breaks off keeps no key, so its file counts among those that are left, in front of the later ones.
      obtain ⟨key, path, password, hturn⟩ := Turn.exists_leaves hleaves
      obtain ⟨place, content, hplace, hfree, hdisk⟩ := hturn.exists_place
      rw [hdisk] at hgains
      rw [List.filter_cons_of_neg (Bool.eq_false_iff.mp (Turn.not_keepsKey_of_abandons hleaves)),
        List.filter_cons_of_pos hleaves]
      refine ⟨created, place :: left, hcreated, .cons ⟨key, path, password, hturn, hplace⟩ hleft, ?_⟩
      exact (hgains.cons hfree).of_perm List.perm_middle.symm
    | false =>
      rw [List.filter_cons_of_neg (Bool.eq_false_iff.mp hleaves)]
      by_cases hkeeps : t.keepsKey = true
      · obtain ⟨key, path, password, hstores⟩ := Turn.exists_stores hkeeps
        obtain ⟨place, content, hplace, hfree, hdisk⟩ := hstores.exists_place
        rw [hdisk] at hgains
        rw [List.filter_cons_of_pos hkeeps]
        exact ⟨place :: created, left, .cons ⟨key, path, password, hstores, hplace⟩ hcreated, hleft, hgains.cons hfree⟩
      · rw [Turn.disk_of_not_keepsKey (Bool.eq_false_iff.mpr hkeeps) hleaves] at hgains
        rw [List.filter_cons_of_neg hkeeps]
        exact ⟨created, left, hcreated, hleft, hgains⟩

/-- The files that are new after some turns are those of the turns that keep a key, one for each. -/
def GainsKept (sh last : Shell) (ts : List Turn) : Prop :=
  ∃ places, List.Forall₂ Turn.CreatesAt (ts.filter Turn.keepsKey) places ∧ sh.session.disk.Gains last.session.disk places

/-- All new files are those of turns that keep a key just when no turn leaves a file unfinished. -/
theorem gainsKept_iff_of_takes {sh last : Shell} {ts : List Turn} (h : Takes sh ts last) :
    GainsKept sh last ts ↔ ∀ t ∈ ts, t.abandons = false := by
  obtain ⟨created, left, hcreated, hleft, hgains⟩ := exists_places_of_takes h
  constructor
  · rintro ⟨places, hplaces, hkept⟩ t ht
    -- The places of the files that turns create are the same in both accounts.
    have hunique : Relator.RightUnique Turn.CreatesAt := fun _ _ _ => Turn.CreatesAt.unique
    obtain rfl : places = created := List.right_unique_forall₂' hunique hplaces hcreated
    rw [Bool.eq_false_iff]
    intro hleaves
    obtain ⟨place, hplace, -⟩ := forall₂_mem_right hleft (List.mem_filter.mpr ⟨ht, hleaves⟩)
    obtain ⟨hfree, content, hfile⟩ := hgains.new place (List.mem_append_right _ hplace)
    have hnot : place ∉ places := fun hmem => (List.nodup_append.mp hgains.nodup).2.2 _ hmem _ hplace rfl
    rw [hkept.same place hnot, hfree] at hfile
    cases hfile
  · intro hfinished
    have hnone : ts.filter Turn.abandons = [] :=
      List.filter_eq_nil_iff.mpr fun t ht => Bool.eq_false_iff.mp (hfinished t ht)
    rw [hnone] at hleft
    cases hleft
    rw [List.append_nil] at hgains
    exact ⟨created, hcreated, hgains⟩

/-- Whatever lines are typed, every file stays with its bytes and is read from the same paths as before. Each command that
creates a wallet file and succeeds creates one file, at the place of its path, where there was nothing, and each that breaks
off in the writing leaves one there and fails; those places are all different, and at every other place there is what there
was. So the new files are those of the commands that succeed just when no command breaks off. -/
theorem files_kept (texts : List String) (sh : Shell) :
    let turns := sh.turns (texts.map .line)
    let last := sh.after (texts.map .line)
    (∀ place content, sh.session.disk.find? place = some (.file content) →
      last.session.disk.find? place = some (.file content)) ∧
    (∀ path content, sh.session.disk.read path = .ok content → last.session.disk.read path = .ok content) ∧
    (∃ created left, List.Forall₂ Turn.CreatesAt (turns.filter Turn.keepsKey) created ∧
      List.Forall₂ Turn.LeavesAt (turns.filter Turn.abandons) left ∧
      sh.session.disk.Gains last.session.disk (created ++ left)) ∧
    (GainsKept sh last turns ↔ ∀ t ∈ turns, t.abandons = false) := by
  have htakes := takes_lines texts sh
  exact ⟨fun place content h => htakes.within.find? h, fun path content h => htakes.within.read h,
    exists_places_of_takes htakes, gainsKept_iff_of_takes htakes⟩

/-- A line that is typed on a full device leaves a file there, and no command has succeeded. -/
theorem files_not_kept_onFullDevice :
    let turns := onFullDevice.turns [.line "create w p"]
    let last := onFullDevice.after [.line "create w p"]
    turns.filter Turn.keepsKey = [] ∧ onFullDevice.session.disk.entries = [] ∧
      last.session.disk.entries = [(["w"], .file [])] ∧ ¬ GainsKept onFullDevice last turns := by
  have hread : (onFullDevice.commandsOf "create w p").map (fun i => (i.args, i.builtin?)) =
      [([("filename", "w"), ("password", "p")], some .create)] := by decide +kernel
  obtain ⟨i, hcommands, hi⟩ := List.map_eq_singleton_iff.mp hread
  obtain ⟨hargs, hb⟩ := Prod.mk.inj hi
  obtain ⟨habandons, hdisk⟩ := Turn.abandons_onFullDevice hb hargs
  have hturns : onFullDevice.turns [.line "create w p"] = [⟨onFullDevice, i⟩] := by
    rw [turns, turnsIn, hcommands]
    rfl
  have hlast : onFullDevice.after [.line "create w p"] = Turn.after ⟨onFullDevice, i⟩ := by
    show (onFullDevice.interpret (onFullDevice.commandsOf "create w p")).2 = _
    rw [hcommands]
    rfl
  have htakes := takes_lines ["create w p"] onFullDevice
  rw [List.map_singleton, hturns, hlast] at htakes
  simp only [hturns, hlast]
  refine ⟨?_, rfl, hdisk, ?_⟩
  · rw [List.filter_cons_of_neg (Bool.eq_false_iff.mp (Turn.not_keepsKey_of_abandons habandons)), List.filter_nil]
  · rw [gainsKept_iff_of_takes htakes]
    intro hfinished
    rw [hfinished _ List.mem_cons_self] at habandons
    cases habandons

end Shell

end ContractShell
