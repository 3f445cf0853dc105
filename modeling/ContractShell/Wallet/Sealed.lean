import ContractShell.Bytes.Base64
import ContractShell.Cipher.Gcm
import ContractShell.Hash.Scrypt
import ContractShell.Json.Basic
import ContractShell.Json.Writer
import ContractShell.Text.Quoted
import ContractShell.Text.Utf8

/-!
Wallet records: a private key sealed under a passphrase, with what is needed to open it again.

A key is derived from the passphrase and a salt; the private key is sealed with it and a nonce. A record is an object with
six members, bytes as base64.

## Main statements

* `ofJson?_toJson`: a record is read back from its object.
-/

namespace ContractShell.Wallet

/-! ## 1. Records -/

/-- The version of records that can be opened. -/
def currentVersion : Int := 1

/-- The members of a wallet file, of any value. -/
structure Record where
  version : Json
  algorithm : Json
  kdf : Json
  salt : Json
  nonce : Json
  ciphertext : Json

namespace Record

/-- The names of the members, in the order in which they are written. -/
def memberNames : List String := ["version", "algorithm", "kdf", "salt", "nonce", "ciphertext"]

/-- A record as an object. -/
def members (r : Record) : List (String × Json) := [
  ("version", r.version), ("algorithm", r.algorithm), ("kdf", r.kdf), ("salt", r.salt), ("nonce", r.nonce),
  ("ciphertext", r.ciphertext)]

/-- The record of an object with the six members and no others. -/
def ofJson? (v : Json) : Option Record := do
  let m ← v.members?
  if m.all (fun p => memberNames.contains p.1) then
    return ⟨← Json.find? "version" m, ← Json.find? "algorithm" m, ← Json.find? "kdf" m, ← Json.find? "salt" m,
      ← Json.find? "nonce" m, ← Json.find? "ciphertext" m⟩
  else none

theorem ofJson?_toJson (r : Record) : ofJson? (.obj r.members) = some r := by
  simp [ofJson?, members, Json.members?, memberNames, Json.find?]

end Record

/-! ## 2. Sealing -/

/-- The bytes of a new salt. -/
def saltSize : Nat := 16

/-- The bytes of a new nonce. -/
def nonceSize : Nat := 12

/-- The key that a passphrase and a salt give. -/
def deriveKey (passphrase : String) (salt : Bytes) : Bytes := Scrypt.deriveKey (Text.Utf8.ofString passphrase) salt

/-- Seals a secret under a passphrase; `none` if the passphrase is empty. -/
def seal? (passphrase : String) (salt nonce secret : Bytes) : Option Record :=
  if passphrase.isEmpty then none
  else
    some ⟨.int currentVersion, .str "aes-gcm", .str "scrypt", .str (Base64.encode salt), .str (Base64.encode nonce),
      .str (Base64.encode (Gcm.encrypt (deriveKey passphrase salt) nonce secret))⟩

/-! ## 3. Opening -/

/-- Why a record cannot be opened. -/
inductive OpenFault where
  | emptyPassphrase
  /-- A member that should be text is of another kind. -/
  | notText (kind : String)
  /-- A member holds characters outside ASCII, these many from this position on, the first one given. -/
  | notAscii (first : Char) (position count : Nat)
  | notBase64 (fault : Base64.Fault)
  /-- The nonce is too short or too long. -/
  | nonceSize
  /-- The passphrase is not the one of the record, or the record was changed. -/
  | wrongPassphrase
  deriving DecidableEq, Repr

/-- A character by its number. -/
def byNumber (c : Char) : String :=
  if c.toNat < 0x100 then "\\x" ++ String.ofList (Text.hexFixed 2 c.toNat)
  else if c.toNat < 0x10000 then "\\u" ++ String.ofList (Text.hexFixed 4 c.toNat)
  else "\\U" ++ String.ofList (Text.hexFixed 8 c.toNat)

/-- The wording of a fault. -/
def OpenFault.message : OpenFault → String
  | .emptyPassphrase => "passphrase cannot be empty"
  | .notText kind => s!"'{kind}' object has no attribute 'encode'"
  | .notAscii c p 1 =>
    s!"'ascii' codec can't encode character '{byNumber c}' in position {p}: ordinal not in range(128)"
  | .notAscii _ p n =>
    s!"'ascii' codec can't encode characters in position {p}-{p + n - 1}: ordinal not in range(128)"
  | .notBase64 f => f.message
  | .nonceSize => "Nonce must be between 8 and 128 bytes"
  | .wrongPassphrase => "wallet decryption failed: invalid passphrase or corrupted file"

/-- A character of ASCII. -/
def isAscii (c : Char) : Bool := c.toNat < 128

/-- The bytes of a member. -/
def bytesOf (v : Json) : Except OpenFault Bytes :=
  match v with
  | .str s =>
    match s.toList.dropWhile isAscii with
    | [] => (Base64.decode true s.toList).mapError .notBase64
    | c :: r => .error (.notAscii c (s.toList.takeWhile isAscii).length (1 + (r.takeWhile fun x => !isAscii x).length))
  | v => .error (.notText v.kindName)

/-- The secret of a record. The algorithm and the derivation that it names do not matter. -/
def openSealed (r : Record) (passphrase : String) : Except OpenFault Bytes := do
  if passphrase.isEmpty then throw .emptyPassphrase
  let salt ← bytesOf r.salt
  let nonce ← bytesOf r.nonce
  let ciphertext ← bytesOf r.ciphertext
  if Gcm.isNonce nonce then
    match Gcm.decrypt? (deriveKey passphrase salt) nonce ciphertext with
    | some secret => return secret
    | none => throw .wrongPassphrase
  else throw .nonceSize

end ContractShell.Wallet
