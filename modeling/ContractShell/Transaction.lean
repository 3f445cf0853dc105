import ContractShell.Bytes.Base64
import ContractShell.Bytes.Basic
import ContractShell.Json.Writer
import ContractShell.Key
import ContractShell.Text.Utf8

/-!
Transactions: operations under a header that commits to them, and signatures over the header's digest.

Digests are taken of canonical text, so the order of an object's members does not matter.

## Main statements

* `length_digest`: a transaction's digest has thirty-two bytes.
-/

namespace ContractShell

/-! ## 1. Operations -/

namespace Operation

/-- The call of a contract's method. -/
def call (contractId : Bytes) (entryPoint : Nat) (args : Bytes) : Json :=
  .obj [("call_contract", .obj [
    ("contract_id", .str (Base58.toString contractId)),
    ("entry_point", .int entryPoint),
    ("args", .str (Base64.encodeUrl args))])]

/-- The upload of a contract to an address, with its interface document if there is one and the rights that it takes
over. -/
def upload (address : String) (bytecode : Bytes) (document : String) (overrides : List (String × Json)) : Json :=
  let base := [("contract_id", Json.str address), ("bytecode", Json.str (Base64.encodeUrl bytecode))]
  let withDocument := if document.isEmpty then base else base ++ [("abi", .str document)]
  .obj [("upload_contract", .obj (withDocument ++ overrides.map fun o => ("authorizes_" ++ o.1, o.2)))]

end Operation

/-! ## 2. Headers -/

/-- The bytes in front of a digest that say how it was made. -/
def digestMark : Bytes := [0x12, 0x20]

/-- The digest of a document's canonical text. -/
def canonicalDigest (v : Json) : Bytes := Sha256.digest (Text.Utf8.encode (Json.canonical v))

/-- What a transaction commits to. -/
structure Header where
  chainId : Bytes
  rcLimit : Int
  nonce : Int
  merkleRoot : Bytes
  payer : Bytes
  deriving DecidableEq, Repr

/-- A header as an object. -/
def Header.toJson (h : Header) : Json :=
  .obj [
    ("chain_id", .str (Base64.encodeUrl h.chainId)),
    ("rc_limit", .str (toString h.rcLimit)),
    ("nonce", .str (toString h.nonce)),
    ("operation_merkle_root", .str (Base64.encodeUrl h.merkleRoot)),
    ("payer", .str (Base58.toString h.payer))]

/-! ## 3. Transactions -/

/-- A signature with the public point that it is checked against. -/
structure Endorsement where
  point : Secp256k1.Point
  signature : Bytes

/-- A signature holds for a digest. -/
def Endorsement.isValid (e : Endorsement) (digest : Bytes) : Bool :=
  ((Signature.decode? e.signature).map (Signature.verify e.point digest)).getD false

/-- A transaction. -/
structure Transaction where
  header : Header
  operations : List Json
  endorsements : List Endorsement

namespace Transaction

/-- The numbers of a transaction are not too long to be written into it. -/
def isWritable (operations : List Json) (nonce rcLimit : Int) : Bool :=
  Integer.isWritable rcLimit && Integer.isWritable nonce && (Json.arr operations).isWritable

/-- The transaction without signatures for operations and numbers that can be written. -/
def build (operations : List Json) (chainId : Bytes) (nonce rcLimit : Int) (payer : Bytes) : Transaction :=
  ⟨⟨chainId, rcLimit, nonce, digestMark ++ canonicalDigest (.arr operations), payer⟩, operations, []⟩

/-- The digest that is signed. -/
def digest (t : Transaction) : Bytes := canonicalDigest t.header.toJson

/-- A transaction's digest has thirty-two bytes. -/
theorem length_digest (t : Transaction) : t.digest.length = 32 := Sha256.length_digest _

/-- The name of a transaction: its digest in hexadecimal. -/
def id (t : Transaction) : String := String.ofList ('0' :: 'x' :: Hex.encode (digestMark ++ t.digest))

/-- The transaction with one more signature. -/
def sign (t : Transaction) (k : Key) : Transaction :=
  { t with endorsements := t.endorsements ++ [⟨k.point, k.signature t.digest⟩] }

/-- A transaction as an object. -/
def toJson (t : Transaction) : Json :=
  .obj [
    ("id", .str t.id),
    ("header", t.header.toJson),
    ("operations", .arr t.operations),
    ("signatures", .arr (t.endorsements.map fun e => .str (Base64.encodeUrl e.signature)))]

end Transaction

end ContractShell
