import ContractShell.Bytes.Base58
import ContractShell.Curve.Signature
import ContractShell.Hash.Ripemd160
import ContractShell.Text.Quoted

/-!
The keys of a wallet: a private number of the curve, its public point, and the texts that people exchange.

## Main statements

* `length_secret`: a private key has thirty-two bytes.
-/

namespace ContractShell

/-- A private key: a number between zero and the order of the curve. -/
structure Key where
  number : Nat
  positive : 0 < number
  below : number < Secp256k1.order

namespace Key

/-! ## 1. From bytes and from the exchange text -/

/-- The bytes of a private key. -/
def size : Nat := 32

/-- Why something is not a private key. -/
inductive Fault where
  /-- There are not as many bytes as a private key has. -/
  | wrongSize (found : Nat)
  /-- The number is zero, or not below the order of the curve. -/
  | outOfRange
  /-- The text is not base58 with a checksum. -/
  | text (fault : Base58.Fault)
  /-- The text's first byte is not the mark of a private key. -/
  | wrongVersion
  deriving DecidableEq, Repr

/-- What a fault says. -/
def Fault.detail : Fault → String
  | .wrongSize n => s!"expected {size} bytes, got {n}"
  | .outOfRange => "value out of range"
  | .text f => f.message
  | .wrongVersion => "unexpected WIF version byte"

/-- The wording of a fault. -/
def Fault.message (f : Fault) : String := Text.withContext "invalid private key" f.detail

/-- The key of its bytes. -/
def ofBytes (b : Bytes) : Except Fault Key :=
  if b.length ≠ size then .error (.wrongSize b.length)
  else if h : 0 < Bytes.toNat b ∧ Bytes.toNat b < Secp256k1.order then .ok ⟨Bytes.toNat b, h.1, h.2⟩
  else .error .outOfRange

/-- The mark in front of a private key in its exchange text. -/
def secretVersion : UInt8 := 0x80

/-- The bytes of a private key without the flag byte that may follow them. -/
def dropFlag (payload : Bytes) : Bytes :=
  if payload.length = size + 1 ∧ payload.getLast? = some 1 then payload.take size else payload

/-- The key of its exchange text. -/
def ofWif (text : String) : Except Fault Key :=
  match Base58.decodeCheck text.toList with
  | .error f => .error (.text f)
  | .ok [] => .error .wrongVersion
  | .ok (version :: payload) => if version = secretVersion then ofBytes (dropFlag payload) else .error .wrongVersion

/-! ## 2. Forms of a key -/

/-- The bytes of a private key. -/
def secret (k : Key) : Bytes := Bytes.ofNat size k.number

theorem length_secret (k : Key) : k.secret.length = 32 := Bytes.length_ofNat ..

/-- The public point. -/
def point (k : Key) : Secp256k1.Point := Secp256k1.generator.times k.number

/-- The compressed public point. -/
def publicBytes (k : Key) : Bytes := k.point.compressed

/-- The digest that addresses are made of. -/
def hash160 (b : Bytes) : Bytes := Ripemd160.digest (Sha256.digest b)

/-- The mark in front of an address. -/
def addressVersion : Bytes := [0]

/-- The address of a key. -/
def address (k : Key) : String := String.ofList (Base58.encodeCheck addressVersion (hash160 k.publicBytes))

/-- The bytes of the address: the mark, the digest of the public key and their checksum. -/
def addressBytes (k : Key) : Bytes :=
  let data := addressVersion ++ hash160 k.publicBytes
  data ++ Base58.checksum data

/-- The exchange text of a key. -/
def wif (k : Key) : String := String.ofList (Base58.encodeCheck [secretVersion] k.secret)

/-- The text of the public key. -/
def publicText (k : Key) : String := Base58.toString k.publicBytes

/-! ## 3. Signatures -/

/-- The bytes of a digest that can be signed. -/
def digestSize : Nat := 32

/-- The signature of a digest of the right size. -/
def signature (k : Key) (digest : Bytes) : Bytes := (Signature.sign k.number digest).encode

/-- The signature of a digest; `none` if the digest has another size. -/
def sign (k : Key) (digest : Bytes) : Option Bytes :=
  if digest.length = digestSize then some (k.signature digest) else none

/-- A signature holds for a digest under the key; `none` if the digest has another size. -/
def verify (k : Key) (signature digest : Bytes) : Option Bool :=
  if digest.length = digestSize then
    some (((Signature.decode? signature).map (Signature.verify k.point digest)).getD false)
  else none

end Key

end ContractShell
