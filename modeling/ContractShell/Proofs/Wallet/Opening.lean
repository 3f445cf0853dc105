import ContractShell.Proofs.Wallet.RoundTrip

/-!
Wallet files of any content: how opening them can fail.

What the members of a record are is not looked at before they are used. A member that should be text and holds no bytes
makes the file no wallet file. One that is no text at all is a fault that is not reported as one of a wallet. And nothing is
said about a member whose kind does not matter for opening.

## Main statements

* `openSealed_first`: the first member that holds no bytes decides how opening a record fails.
* `openSealed_cases`: what opening a record comes to.
* `openFile_cases`: what opening a file comes to.
* `opensOrReports_iff`: which faults are not reported, and for which files all is reported.
* `not_opensOrReports_numberSalt`: a salt that is a number.
-/

namespace ContractShell.Wallet

/-! ## 1. What is reported -/

/-- A fault of opening a record is reported as one of a wallet. -/
def OpenFault.IsReported : OpenFault → Prop
  | .emptyPassphrase | .wrongPassphrase => True
  | _ => False

/-- A fault of a wallet file is reported as one of a wallet. -/
def Fault.IsReported : Fault → Prop
  | .path _ _ => False
  | .record f => f.IsReported
  | _ => True

namespace Record

/-- The members that hold bytes, in the order in which they are used. -/
def parts (r : Record) : List Json := [r.salt, r.nonce, r.ciphertext]

/-- The first of these members that holds no bytes. -/
def firstUnread? (r : Record) : Option Json := r.parts.find? fun v => !(bytesOf v).isOk

/-- The members of a record hold bytes, and the nonce has an allowed length. -/
structure IsReadable (r : Record) : Prop where
  parts : r.firstUnread? = none
  nonce : ∃ b, bytesOf r.nonce = .ok b ∧ Gcm.isNonce b = true

/-- A record is one that could have been written: its version is an integer, the other members are text, and they hold what
they should. -/
structure IsSound (r : Record) : Prop extends IsReadable r where
  version : ∃ n, r.version = .int n
  algorithm : ∃ s, r.algorithm = .str s
  kdf : ∃ s, r.kdf = .str s

/-- A record holds text that was spoiled: the first member that holds no bytes is text, or all hold bytes and the nonce has
no allowed length. -/
def IsSpoiled (r : Record) : Prop :=
  (∃ s, r.firstUnread? = some (.str s)) ∨
    r.firstUnread? = none ∧ ∃ b, bytesOf r.nonce = .ok b ∧ Gcm.isNonce b = false

end Record

/-- A file holds a record of the version that can be opened. -/
def HoldsCurrent (d : Disk) (p : Path) (r : Record) : Prop :=
  ∃ text, d.readText p = .ok text ∧ recordOf? text = some r ∧ isCurrent r.version = true

/-- Opening a file gives bytes or fails as reported, and a document that is no sound record is reported to be no wallet file
or one of another version. -/
def OpensOrReports (d : Disk) (p : Path) (passphrase : String) : Prop :=
  (∀ f, openFile d p passphrase = .error f → f.IsReported) ∧
    ∀ text v, d.readText p = .ok text → Json.read? text = some v →
      (∀ r, Record.ofJson? v = some r → ¬ r.IsSound) →
      openFile d p passphrase = .error (.notWallet p.toText) ∨
        ∃ shown, openFile d p passphrase = .error (.version shown)

/-! ## 2. Records -/

/-- A member that holds no bytes is spoiled text or no text. -/
theorem bytesOf_eq_error {v : Json} {f : OpenFault} (h : bytesOf v = .error f) :
    ((∃ s, v = .str s) ∧ ∀ path, Fault.ofRecord path f = .notWallet path) ∨
      (v.text? = none ∧ f = .notText v.kindName) := by
  cases v with
  | str s =>
    refine .inl ⟨⟨s, rfl⟩, fun path => ?_⟩
    unfold bytesOf at h
    dsimp only at h
    split at h
    · cases hdecode : Base64.decode true s.toList with
      | ok b =>
        rw [hdecode] at h
        cases h
      | error g =>
        rw [hdecode] at h
        cases h
        rfl
    · cases h
      rfl
  | null | bool | int | float | arr | obj =>
    cases h
    exact .inr ⟨rfl, rfl⟩

section

variable {r : Record} {passphrase : String}

theorem openSealed_eq (hpassphrase : passphrase.isEmpty = false) : openSealed r passphrase =
    bytesOf r.salt >>= fun salt => bytesOf r.nonce >>= fun nonce => bytesOf r.ciphertext >>= fun ciphertext =>
      if Gcm.isNonce nonce then
        match Gcm.decrypt? (deriveKey passphrase salt) nonce ciphertext with
        | some secret => .ok secret
        | none => .error .wrongPassphrase
      else .error .nonceSize := by
  unfold openSealed
  rw [hpassphrase]
  rfl

/-- Opening a record takes the bytes of its members one after the other, and fails for the first that holds none. -/
theorem openSealed_first (hpassphrase : passphrase.isEmpty = false) :
    (∃ v f, r.firstUnread? = some v ∧ bytesOf v = .error f ∧ openSealed r passphrase = .error f) ∨
      (r.firstUnread? = none ∧ ∃ salt nonce ciphertext, bytesOf r.nonce = .ok nonce ∧ openSealed r passphrase =
        if Gcm.isNonce nonce then
          match Gcm.decrypt? (deriveKey passphrase salt) nonce ciphertext with
          | some secret => .ok secret
          | none => .error .wrongPassphrase
        else .error .nonceSize) := by
  have hopen := openSealed_eq (r := r) hpassphrase
  unfold Record.firstUnread? Record.parts
  -- One case for each member, in the order in which they are used; the members before it hold bytes.
  cases hsalt : bytesOf r.salt with
  | error f =>
    rw [hsalt] at hopen
    exact .inl ⟨r.salt, f, by simp [hsalt, Except.isOk, Except.toBool], hsalt, hopen⟩
  | ok salt =>
    cases hnonce : bytesOf r.nonce with
    | error f =>
      rw [hsalt, hnonce] at hopen
      exact .inl ⟨r.nonce, f, by simp [hsalt, hnonce, Except.isOk, Except.toBool], hnonce, hopen⟩
    | ok nonce =>
      cases hciphertext : bytesOf r.ciphertext with
      | error f =>
        rw [hsalt, hnonce, hciphertext] at hopen
        exact .inl ⟨r.ciphertext, f, by simp [hsalt, hnonce, hciphertext, Except.isOk, Except.toBool], hciphertext, hopen⟩
      | ok ciphertext =>
        rw [hsalt, hnonce, hciphertext] at hopen
        refine .inr ⟨by simp [hsalt, hnonce, hciphertext, Except.isOk, Except.toBool], salt, nonce, ciphertext, rfl, hopen⟩

/-- What opening a record comes to: all its members hold what they should, and at most the passphrase is wrong; or it was
spoiled; or the first member that holds no bytes is no text. -/
theorem openSealed_cases (hpassphrase : passphrase.isEmpty = false) :
    (r.IsReadable ∧ ∀ f, openSealed r passphrase = .error f → f = .wrongPassphrase) ∨
      (r.IsSpoiled ∧ ∃ f, openSealed r passphrase = .error f ∧ ∀ path, Fault.ofRecord path f = .notWallet path) ∨
      ∃ v, r.firstUnread? = some v ∧ v.text? = none ∧ openSealed r passphrase = .error (.notText v.kindName) := by
  rcases openSealed_first (r := r) hpassphrase with
    ⟨v, f, hfirst, hv, hopen⟩ | ⟨hall, salt, nonce, ciphertext, hnonce, hopen⟩
  · rcases bytesOf_eq_error hv with ⟨⟨s, rfl⟩, hspoiled⟩ | ⟨hkind, rfl⟩
    · exact .inr (.inl ⟨.inl ⟨s, hfirst⟩, f, hopen, hspoiled⟩)
    · exact .inr (.inr ⟨v, hfirst, hkind, hopen⟩)
  · by_cases hsize : Gcm.isNonce nonce = true
    · rw [if_pos hsize] at hopen
      refine .inl ⟨⟨hall, nonce, hnonce, hsize⟩, fun f hf => ?_⟩
      rw [hopen] at hf
      split at hf
      · cases hf
      · exact (Except.error.inj hf).symm
    · rw [if_neg hsize] at hopen
      exact .inr (.inl ⟨.inr ⟨hall, nonce, hnonce, Bool.eq_false_iff.mpr hsize⟩, _, hopen, fun _ => rfl⟩)

theorem openSealed_of_isEmpty (h : passphrase.isEmpty = true) : openSealed r passphrase = .error .emptyPassphrase := by
  unfold openSealed
  rw [h]
  rfl

theorem Record.IsReadable.not_isSpoiled (h : r.IsReadable) : ¬ r.IsSpoiled := by
  rintro (⟨s, hs⟩ | ⟨-, b, hb, hsize⟩)
  · rw [h.parts] at hs
    cases hs
  · obtain ⟨c, hc, hallowed⟩ := h.nonce
    rw [hb] at hc
    cases hc
    rw [hsize] at hallowed
    cases hallowed

theorem Record.not_isSpoiled_of_text? {v : Json} (hfirst : r.firstUnread? = some v) (hkind : v.text? = none) :
    ¬ r.IsSpoiled := by
  rintro (⟨s, hs⟩ | ⟨hnone, -⟩)
  · rw [hfirst] at hs
    cases hs
    cases hkind
  · rw [hfirst] at hnone
    cases hnone

end

/-! ## 3. Files -/

section

variable {d : Disk} {p : Path} {passphrase : String} {r r' : Record}

/-- What opening a file can come to. -/
inductive Opening (d : Disk) (p : Path) (passphrase : String) : Except Fault Bytes → Prop where
  /-- There is no record of the version that can be opened. -/
  | refused {f : Fault} (hnone : ∀ r, ¬ HoldsCurrent d p r) (hreported : f.IsReported)
      (htext : ∀ text, d.readText p = .ok text → f = .notWallet p.toText ∨ ∃ shown, f = .version shown) :
      Opening d p passphrase (.error f)
  | emptyPassphrase {r : Record} (h : HoldsCurrent d p r) (hpassphrase : passphrase.isEmpty = true) :
      Opening d p passphrase (.error (.record .emptyPassphrase))
  | readable {r : Record} {result : Except Fault Bytes} (h : HoldsCurrent d p r) (hr : r.IsReadable)
      (hresult : ∀ f, result = .error f → f = .record .wrongPassphrase) : Opening d p passphrase result
  | spoiled {r : Record} (h : HoldsCurrent d p r) (hpassphrase : passphrase.isEmpty = false) (hr : r.IsSpoiled) :
      Opening d p passphrase (.error (.notWallet p.toText))
  /-- The first member that holds no bytes is no text. -/
  | notText {r : Record} {v : Json} (h : HoldsCurrent d p r) (hpassphrase : passphrase.isEmpty = false)
      (hfirst : r.firstUnread? = some v) (hkind : v.text? = none) :
      Opening d p passphrase (.error (.record (.notText v.kindName)))

theorem openFile_of_holdsCurrent (h : HoldsCurrent d p r) (passphrase : String) :
    openFile d p passphrase = (openSealed r passphrase).mapError (Fault.ofRecord p.toText) := by
  obtain ⟨text, htext, hrecord, hcurrent⟩ := h
  unfold openFile
  rw [htext]
  simp only [hrecord, if_pos hcurrent]

theorem openFile_of_not_holdsCurrent (h : ∀ r, ¬ HoldsCurrent d p r) (passphrase : String) :
    ∃ f, openFile d p passphrase = .error f ∧ f.IsReported ∧
      ∀ text, d.readText p = .ok text → f = .notWallet p.toText ∨ ∃ shown, f = .version shown := by
  unfold openFile
  cases htext : d.readText p with
  | error f => cases f with
    | file f => cases f <;> exact ⟨_, rfl, trivial, nofun⟩
    | encoding f => exact ⟨_, rfl, trivial, nofun⟩
  | ok text =>
    cases hrecord : recordOf? text with
    | none => exact ⟨.notWallet p.toText, by simp only [hrecord], trivial, fun _ _ => .inl rfl⟩
    | some r =>
      by_cases hcurrent : isCurrent r.version = true
      · exact absurd ⟨text, htext, hrecord, hcurrent⟩ (h r)
      · exact ⟨.version r.version.shown, by simp only [hrecord, if_neg hcurrent], trivial, fun _ _ => .inr ⟨_, rfl⟩⟩

/-- What opening a file comes to. -/
theorem openFile_cases (d : Disk) (p : Path) (passphrase : String) :
    Opening d p passphrase (openFile d p passphrase) := by
  by_cases hholds : ∃ r, HoldsCurrent d p r
  · obtain ⟨r, h⟩ := hholds
    rw [openFile_of_holdsCurrent h]
    cases hpassphrase : passphrase.isEmpty with
    | true =>
      rw [openSealed_of_isEmpty hpassphrase]
      exact .emptyPassphrase h hpassphrase
    | false =>
      rcases openSealed_cases (r := r) hpassphrase with ⟨hr, hwrong⟩ | ⟨hr, f, hopen, hf⟩ | ⟨v, hfirst, hkind, hopen⟩
      · refine .readable h hr fun f hf => ?_
        cases hopen : openSealed r passphrase with
        | error g =>
          rw [hopen, hwrong g hopen] at hf
          cases hf
          rfl
        | ok secret =>
          rw [hopen] at hf
          cases hf
      · rw [hopen]
        show Opening d p passphrase (.error (Fault.ofRecord p.toText f))
        rw [hf]
        exact .spoiled h hpassphrase hr
      · rw [hopen]
        exact .notText h hpassphrase hfirst hkind
  · have hnone : ∀ r, ¬ HoldsCurrent d p r := fun r h => hholds ⟨r, h⟩
    obtain ⟨f, hf, hreported, htext⟩ := openFile_of_not_holdsCurrent hnone passphrase
    rw [hf]
    exact .refused hnone hreported htext

theorem HoldsCurrent.unique (h : HoldsCurrent d p r) (h' : HoldsCurrent d p r') : r = r' := by
  obtain ⟨text, htext, hrecord, -⟩ := h
  obtain ⟨text', htext', hrecord', -⟩ := h'
  obtain rfl := Except.ok.inj (htext.symm.trans htext')
  exact Option.some.inj (hrecord.symm.trans hrecord')

theorem HoldsCurrent.forall_iff (h : HoldsCurrent d p r) {P : Record → Prop} :
    (∀ r', HoldsCurrent d p r' → P r') ↔ P r :=
  ⟨fun hall => hall r h, fun hr _ h' => h.unique h' ▸ hr⟩

/-- Where there is a record of the version that can be opened, the document is a sound record when this one is. -/
theorem HoldsCurrent.opensOrReports_iff_unsound (h : HoldsCurrent d p r) : OpensOrReports d p passphrase ↔
    (∀ f, openFile d p passphrase = .error f → f.IsReported) ∧
      (¬ r.IsSound → openFile d p passphrase = .error (.notWallet p.toText) ∨
        ∃ shown, openFile d p passphrase = .error (.version shown)) := by
  obtain ⟨text, htext, hrecord, -⟩ := h
  obtain ⟨v, hv, hr⟩ := Option.bind_eq_some_iff.mp hrecord
  refine and_congr_right fun _ => ⟨fun hall hsound => ?_, fun hall text' v' htext' hv' hunsound => ?_⟩
  · refine hall text v htext hv fun r' hr' => ?_
    obtain rfl := Option.some.inj (hr.symm.trans hr')
    exact hsound
  · obtain rfl := Except.ok.inj (htext.symm.trans htext')
    obtain rfl := Option.some.inj (hv.symm.trans hv')
    exact hall (hunsound r hr)

/-- The faults that are not reported as those of a wallet. -/
theorem openFile_eq_unreported_iff {f : Fault} (hf : ¬ f.IsReported) : openFile d p passphrase = .error f ↔
    passphrase.isEmpty = false ∧ ∃ r v, HoldsCurrent d p r ∧ r.firstUnread? = some v ∧ v.text? = none ∧
      f = .record (.notText v.kindName) := by
  constructor
  · intro hopen
    have hcases := openFile_cases d p passphrase
    rw [hopen] at hcases
    cases hcases with
    | refused _ hreported _ => exact absurd hreported hf
    | emptyPassphrase => exact absurd trivial hf
    | readable _ _ hresult =>
      rw [hresult f rfl] at hf
      exact absurd trivial hf
    | spoiled => exact absurd trivial hf
    | notText h hpassphrase hfirst hkind => exact ⟨hpassphrase, _, _, h, hfirst, hkind, rfl⟩
  · rintro ⟨hpassphrase, r, v, h, hfirst, hkind, rfl⟩
    rw [openFile_of_holdsCurrent h]
    rcases openSealed_cases (r := r) hpassphrase with ⟨hr, -⟩ | ⟨hr, -⟩ | ⟨w, hw, -, hopen⟩
    · rw [hr.parts] at hfirst
      cases hfirst
    · exact absurd hr (Record.not_isSpoiled_of_text? hfirst hkind)
    · rw [hfirst] at hw
      cases hw
      rw [hopen]
      rfl

/-- The files for which all is reported. -/
theorem opensOrReports_iff_forall : OpensOrReports d p passphrase ↔
    ∀ r, HoldsCurrent d p r → r.IsSound ∨ (passphrase.isEmpty = false ∧ r.IsSpoiled) := by
  have hcases := openFile_cases d p passphrase
  generalize hopen : openFile d p passphrase = result at hcases
  cases hcases with
  | refused hnone hreported htext =>
    refine iff_of_true ⟨fun g hg => ?_, fun text v hread _ _ => ?_⟩ fun r h => absurd h (hnone r)
    · cases hopen.symm.trans hg
      exact hreported
    · rcases htext text hread with rfl | ⟨shown, rfl⟩
      · exact .inl hopen
      · exact .inr ⟨shown, hopen⟩
  -- The passphrase is looked at before the members, so an empty one hides that they were spoiled.
  | emptyPassphrase h hpassphrase =>
    rw [h.opensOrReports_iff_unsound, h.forall_iff, hopen, hpassphrase]
    constructor
    · rintro ⟨-, hunsound⟩
      by_contra hno
      rcases hunsound fun hsound => hno (.inl hsound) with heq | ⟨shown, heq⟩ <;> cases heq
    · rintro (hsound | ⟨hfalse, -⟩)
      · refine ⟨fun g hg => ?_, fun hno => absurd hsound hno⟩
        cases hg
        trivial
      · cases hfalse
  -- A record can be opened although its version, algorithm or derivation is of another kind than it should be.
  | readable h hr hresult =>
    rw [h.opensOrReports_iff_unsound, h.forall_iff, hopen]
    constructor
    · rintro ⟨-, hunsound⟩
      by_contra hno
      rcases hunsound fun hsound => hno (.inl hsound) with heq | ⟨shown, heq⟩ <;> cases hresult _ heq
    · rintro (hsound | ⟨-, hspoiled⟩)
      · refine ⟨fun g hg => ?_, fun hno => absurd hsound hno⟩
        rw [hresult g hg]
        trivial
      · exact absurd hspoiled hr.not_isSpoiled
  | spoiled h hpassphrase hr =>
    rw [h.opensOrReports_iff_unsound, h.forall_iff, hopen]
    refine iff_of_true ⟨fun g hg => ?_, fun _ => .inl rfl⟩ (.inr ⟨hpassphrase, hr⟩)
    cases hg
    trivial
  | notText h hpassphrase hfirst hkind =>
    rw [h.opensOrReports_iff_unsound, h.forall_iff, hopen]
    refine iff_of_false (fun hall => hall.1 _ rfl) ?_
    rintro (hsound | ⟨-, hspoiled⟩)
    · rw [hsound.parts] at hfirst
      cases hfirst
    · exact Record.not_isSpoiled_of_text? hfirst hkind hspoiled

end

/-- Opening a file fails with a fault that is not reported as one of a wallet just when the file holds a record of the
version that can be opened, the passphrase is not empty, and the first member that holds no bytes is no text. All is
reported just when such a record is sound, or when it was spoiled and the passphrase is not empty. -/
theorem opensOrReports_iff (d : Disk) (p : Path) (passphrase : String) :
    (∀ f : Fault, ¬ f.IsReported → (openFile d p passphrase = .error f ↔
      passphrase.isEmpty = false ∧ ∃ r v, HoldsCurrent d p r ∧ r.firstUnread? = some v ∧ v.text? = none ∧
        f = .record (.notText v.kindName))) ∧
      (OpensOrReports d p passphrase ↔
        ∀ r, HoldsCurrent d p r → r.IsSound ∨ (passphrase.isEmpty = false ∧ r.IsSpoiled)) :=
  ⟨fun _ => openFile_eq_unreported_iff, opensOrReports_iff_forall⟩

/-- A record whose salt is a number. -/
def numberSalt : Record := ⟨.int 1, .str "aes-gcm", .str "scrypt", .int 1, .str "", .str ""⟩

/-- A tree with the file of this record. -/
def numberSaltDisk : Disk := ⟨[(["w"], .file (Text.Utf8.ofString (fileText numberSalt)))], [], []⟩

/-- A salt that is a number is a fault that is not reported as one of a wallet. -/
theorem not_opensOrReports_numberSalt :
    numberSaltDisk.readText ⟨"", ["w"]⟩ = .ok (fileText numberSalt) ∧
      openFile numberSaltDisk ⟨"", ["w"]⟩ "p" = .error (.record (.notText "int")) ∧
      ¬ OpensOrReports numberSaltDisk ⟨"", ["w"]⟩ "p" := by
  have hplain : numberSalt.IsPlain := by simp [Record.IsPlain, Record.members, numberSalt]
  have hread : numberSaltDisk.read ⟨"", ["w"]⟩ = .ok (Text.Utf8.ofString (fileText numberSalt)) :=
    Disk.read_eq_ok_iff.mpr ⟨["w"], by decide, rfl⟩
  have htext := readText_fileText hplain hread
  have hholds : HoldsCurrent numberSaltDisk ⟨"", ["w"]⟩ numberSalt :=
    ⟨fileText numberSalt, htext, recordOf?_fileText hplain, rfl⟩
  have hopen : openFile numberSaltDisk ⟨"", ["w"]⟩ "p" = .error (.record (.notText "int")) := by
    rw [openFile_of_holdsCurrent hholds, openSealed_eq rfl]
    rfl
  exact ⟨htext, hopen, fun hall => hall.1 _ hopen⟩

end ContractShell.Wallet
