import ContractShell.Proofs.Bytes.Base64
import ContractShell.Proofs.Bytes.Digits
import ContractShell.Proofs.Cipher.Gcm
import ContractShell.Proofs.Files.Growth
import ContractShell.Proofs.Json.Indented
import ContractShell.Key
import ContractShell.Wallet.File
import Mathlib.Data.List.TakeWhile

/-!
Wallet files are read back: what was sealed into a file under a password comes out of it under the same password, from the
tree that holds the file and from every tree that grew from it.

## Main statements

* `openSealed_of_seal?`: a record is opened with the passphrase that it was sealed under.
* `recordOf?_fileText`: a record is read back from its file's text.
* `openFile_of_create`: a created file is opened in every grown tree.
* `creation_create`, `create_eq_iff`: what the creation of a wallet file comes to, and when it succeeds.
-/

namespace ContractShell

/-! ## 1. Keys -/

theorem Sha256.length_derive (password salt : Bytes) (blocks : Nat) :
    (derive password salt blocks).length = 32 * blocks := by
  induction blocks with
  | zero => rfl
  | succ n ih =>
    rw [derive] at ih ⊢
    rw [List.range_succ, List.flatMap_append, List.length_append, ih, List.flatMap_singleton, hmac, length_digest]
    omega

/-- A private key is read back from its bytes. -/
theorem Key.ofBytes_secret (k : Key) : Key.ofBytes k.secret = .ok k := by
  have hread : Bytes.toNat k.secret = k.number := by
    apply Bytes.toNat_ofNat
    exact Nat.lt_trans k.below (by decide)
  have hrange : 0 < Bytes.toNat k.secret ∧ Bytes.toNat k.secret < Secp256k1.order := by
    rw [hread]
    exact ⟨k.positive, k.below⟩
  rw [Key.ofBytes, if_neg (fun h => h k.length_secret), dif_pos hrange]
  cases k
  simp only [hread]

namespace Wallet

theorem length_deriveKey (passphrase : String) (salt : Bytes) : (deriveKey passphrase salt).length = 32 := by
  unfold deriveKey Scrypt.deriveKey
  -- The table has too many rows to be computed, and the last step decides the length.
  generalize Scrypt.fillTable _ _ _ = filled
  dsimp only
  rw [Sha256.length_derive]

/-! ## 2. Records -/

/-- A new nonce has an allowed length. -/
theorem isNonce_of_length {nonce : Bytes} (h : nonce.length = nonceSize) : Gcm.isNonce nonce = true := by
  simp [Gcm.isNonce, Gcm.nonceSizes, h, nonceSize]

theorem bytesOf_encode (b : Bytes) : bytesOf (.str (Base64.encode b)) = .ok b := by
  have hascii : ∀ c ∈ (Base64.encode b).toList, isAscii c = true := by
    rw [Base64.encode, String.toList_ofList]
    refine Base64.forall_mem_encodeWith (fun v hv => ?_) (by decide) b
    exact decide_eq_true (Base64.digit_spec hv).2.2.1
  have hrest : (Base64.encode b).toList.dropWhile isAscii = [] := List.dropWhile_eq_nil_iff.mpr hascii
  simp only [bytesOf, hrest, Base64.decode_encode]
  rfl

/-- The members of a record are ones and strings. -/
def Record.IsPlain (r : Record) : Prop := ∀ p ∈ r.members, p.2 = .int 1 ∨ ∃ s, p.2 = .str s

theorem nodup_members (r : Record) : (r.members.map Prod.fst).Nodup := by
  simp [Record.members]

/-- A record is read back from its file's text. -/
theorem recordOf?_fileText {r : Record} (h : r.IsPlain) : recordOf? (fileText r) = some r := by
  have hread : Json.read? (fileText r) = some (.obj r.members) := by
    refine Json.read?_indented (List.cons_ne_nil _ _) (nodup_members r) fun p hp => ?_
    rcases h p hp with hp | ⟨s, hp⟩ <;> rw [hp]
    · exact Json.readsBack_one
    · exact Json.readsBack_str s
  rw [recordOf?, hread]
  exact Record.ofJson?_toJson r

theorem unifyLineEnds_fileText {r : Record} (h : r.IsPlain) :
    Text.unifyLineEnds (fileText r).toList = (fileText r).toList := by
  refine Json.unifyLineEnds_indented (List.cons_ne_nil _ _) fun p hp => ?_
  rcases h p hp with hp | ⟨s, hp⟩ <;> rw [hp]
  · intro c hc
    obtain rfl : c = '1' := List.mem_singleton.mp hc
    rfl
  · exact fun c hc => Json.isPlain_of_mem_writeString hc

/-- The file of a record is read as the record's text. -/
theorem readText_fileText {d : Disk} {p : Path} {r : Record} (h : r.IsPlain)
    (hread : d.read p = .ok (Text.Utf8.ofString (fileText r))) : d.readText p = .ok (fileText r) :=
  Disk.readText_of_read hread (unifyLineEnds_fileText h)

section

variable {passphrase : String} {salt nonce secret : Bytes} {r : Record}

theorem seal?_eq_some_iff : seal? passphrase salt nonce secret = some r ↔ passphrase.isEmpty = false ∧
    r = ⟨.int currentVersion, .str "aes-gcm", .str "scrypt", .str (Base64.encode salt), .str (Base64.encode nonce),
      .str (Base64.encode (Gcm.encrypt (deriveKey passphrase salt) nonce secret))⟩ := by
  unfold seal?
  cases passphrase.isEmpty <;> simp [eq_comm]

/-- A record is opened with the passphrase that it was sealed under. -/
theorem openSealed_of_seal? (hnonce : Gcm.isNonce nonce = true) (h : seal? passphrase salt nonce secret = some r) :
    openSealed r passphrase = .ok secret := by
  obtain ⟨hpassphrase, rfl⟩ := seal?_eq_some_iff.mp h
  simp only [openSealed, hpassphrase, bytesOf_encode]
  show (if Gcm.isNonce nonce = true then _ else _) = _
  rw [if_pos hnonce, Gcm.decrypt?_encrypt (length_deriveKey passphrase salt)]
  rfl

/-- The members of a new record are the version and five strings. -/
theorem isPlain_of_seal? (h : seal? passphrase salt nonce secret = some r) : r.IsPlain := by
  obtain ⟨_, rfl⟩ := seal?_eq_some_iff.mp h
  simp [Record.IsPlain, Record.members, currentVersion]

/-! ## 3. Files -/

/-- The device of a wallet file has given out. -/
def Fault.isDevice : Fault → Bool
  | .cannotWrite _ f => f.isDevice
  | _ => false

theorem isDevice_ofCreation (path : String) (f : Disk.Fault) : (Fault.ofCreation path f).isDevice = f.isDevice := by
  cases f <;> rfl

/-- What the creation of a wallet file comes to: nothing, or a file at a free place with as much of a new record as was
written. -/
inductive Creation (d : Disk) (p : Path) (passphrase : String) (salt nonce secret : Bytes) (w : Disk.Writing) :
    Disk × Option Fault → Prop where
  | refused {f : Fault} (hf : f.isDevice = false) : Creation d p passphrase salt nonce secret w (d, some f)
  | made {place : Place} {r : Record} (hplace : d.placeOf p = .ok place) (hfree : d.find? place = none)
      (hseal : seal? passphrase salt nonce secret = some r) :
      Creation d p passphrase salt nonce secret w
        (d.add place (.file (w.written (Text.Utf8.ofString (fileText r)))), w.fault?.map (.ofCreation p.toText))

theorem create_of_free {d : Disk} {p : Path} {place : Place} {r : Record} (hplace : d.placeOf p = .ok place)
    (hfree : d.find? place = none) (hseal : seal? passphrase salt nonce secret = some r) (w : Disk.Writing) :
    create d p passphrase salt nonce secret w =
      (d.add place (.file (w.written (Text.Utf8.ofString (fileText r)))), w.fault?.map (.ofCreation p.toText)) := by
  simp only [create, Disk.contains, hplace, hfree, Option.isSome_none, hseal, Disk.createNew_of_free hplace hfree]

/-- What the creation of a wallet file comes to. -/
theorem creation_create (d : Disk) (p : Path) (passphrase : String) (salt nonce secret : Bytes) (w : Disk.Writing) :
    Creation d p passphrase salt nonce secret w (create d p passphrase salt nonce secret w) := by
  unfold create
  split
  · exact .refused rfl
  · exact .refused rfl
  · split
    · exact .refused rfl
    next r hr =>
      have hnew := Disk.creation_createNew d p (Text.Utf8.ofString (fileText r)) w
      generalize d.createNew p (Text.Utf8.ofString (fileText r)) w = made at hnew
      cases hnew with
      | refused hf => exact .refused (by rw [isDevice_ofCreation, hf])
      | made hplace hfree => exact .made hplace hfree hr

/-- When a wallet file is created, and what the tree is then. -/
theorem create_eq_iff {d d' : Disk} {p : Path} {w : Disk.Writing} :
    create d p passphrase salt nonce secret w = (d', none) ↔
      w = .whole ∧ ∃ place r, d.placeOf p = .ok place ∧ d.find? place = none ∧
        seal? passphrase salt nonce secret = some r ∧ d' = d.add place (.file (Text.Utf8.ofString (fileText r))) := by
  constructor
  · intro h
    have hcreation := creation_create d p passphrase salt nonce secret w
    rw [h] at hcreation
    generalize hmade : ((d', none) : Disk × Option Fault) = made at hcreation
    cases hcreation with
    | refused hf => cases hmade
    | made hplace hfree hseal =>
      cases w with
      | broken kept reason => cases hmade
      | whole =>
        cases hmade
        exact ⟨rfl, _, _, hplace, hfree, hseal, rfl⟩
  · rintro ⟨rfl, place, r, hplace, hfree, hseal, rfl⟩
    exact create_of_free hplace hfree hseal .whole

/-- A wallet file can be created at a free place under a passphrase that is not empty. -/
theorem exists_create_eq {d : Disk} {p : Path} {place : Place} (hplace : d.placeOf p = .ok place)
    (hfree : d.find? place = none) (hpassphrase : passphrase.isEmpty = false) (salt nonce secret : Bytes) :
    ∃ d', create d p passphrase salt nonce secret .whole = (d', none) :=
  ⟨_, create_eq_iff.mpr ⟨rfl, place, _, hplace, hfree, seal?_eq_some_iff.mpr ⟨hpassphrase, rfl⟩, rfl⟩⟩

/-- A created file is opened in every tree that grew from the one that it was created in. -/
theorem openFile_of_create {d d' d'' : Disk} {p : Path} {w : Disk.Writing} (hnonce : Gcm.isNonce nonce = true)
    (h : create d p passphrase salt nonce secret w = (d', none)) (hgrown : d'.Within d'') :
    openFile d'' p passphrase = .ok secret := by
  obtain ⟨-, place, r, hplace, hfree, hseal, rfl⟩ := create_eq_iff.mp h
  have hfile := Disk.find?_add_self d (.file (Text.Utf8.ofString (fileText r))) (Disk.ne_nil_of_find?_eq_none hfree)
  have hread := hgrown.read (Disk.read_eq_ok_iff.mpr ⟨place, (Disk.Within.add hfree _).placeOf hplace, hfile⟩)
  have htext := readText_fileText (isPlain_of_seal? hseal) hread
  have hversion : isCurrent r.version = true := by
    obtain ⟨_, rfl⟩ := seal?_eq_some_iff.mp hseal
    rfl
  simp only [openFile, htext, recordOf?_fileText (isPlain_of_seal? hseal), hversion, openSealed_of_seal? hnonce hseal]
  rfl

end

end Wallet

end ContractShell
