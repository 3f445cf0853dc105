import ContractShell.Curve.Secp256k1
import ContractShell.Hash.Sha256

/-!
Signatures over digests: a pair of numbers below the group's order, and their canonical bytes.
-/

namespace ContractShell

/-- A signature. -/
structure Signature where
  r : Nat
  s : Nat
  deriving DecidableEq, Repr

namespace Signature

open Secp256k1

/-! ## 1. Bytes -/

/-- The content of a non-negative integer: its bytes, after a zero byte when the first has its high bit set. -/
def integerContent (n : Nat) : Bytes :=
  match Bytes.ofNatMinimal n with
  | [] => [0]
  | b :: r => if 0x80 ≤ b then 0 :: b :: r else b :: r

/-- A tagged item with its length, in one byte below 128 and otherwise after a byte that counts the length's bytes. -/
def item (tag : UInt8) (content : Bytes) : Bytes :=
  let n := content.length
  if n < 128 then tag :: UInt8.ofNat n :: content
  else
    let size := Bytes.ofNatMinimal n
    tag :: UInt8.ofNat (0x80 + size.length) :: (size ++ content)

/-- The bytes of a signature: a sequence of two integers. -/
def encode (a : Signature) : Bytes :=
  item 0x30 (item 0x02 (integerContent a.r) ++ item 0x02 (integerContent a.s))

/-- Reads an item with a short length: its content and the rest. -/
def readItem? (tag : UInt8) : Bytes → Option (Bytes × Bytes)
  | t :: n :: r =>
    if t = tag ∧ n < 0x80 ∧ n.toNat ≤ r.length then some (r.take n.toNat, r.drop n.toNat) else none
  | _ => none

/-- The signature of canonical bytes. -/
def decode? (b : Bytes) : Option Signature := do
  let (body, _) ← readItem? 0x30 b
  let (r, rest) ← readItem? 0x02 body
  let (s, _) ← readItem? 0x02 rest
  let a : Signature := ⟨Bytes.toNat r, Bytes.toNat s⟩
  if a.encode = b then some a else none

/-! ## 2. Signing -/

/-- The signature of a number with a one-time secret, unless a part of it comes out as zero. -/
def signWith? (key z secret : Nat) : Option Signature := do
  let (x, _) ← (generator.times secret).affine?
  let r := x % order
  let s := inverse order secret * ((z + r * key) % order) % order
  if r = 0 ∨ s = 0 then none else some ⟨r, s⟩

/-- The one-time secrets in the order in which they are tried. After those derived from the key, the digest and a counter
come one and two: one of them always gives a signature. -/
def oneTimeSecret (key : Nat) (digest : Bytes) (n : Nat) : Nat :=
  if n < 256 then Bytes.toNat (Sha256.hmac (Bytes.ofNat 32 key) (digest ++ [UInt8.ofNat n])) % order else n - 255

/-- The signature of a digest of thirty-two bytes under a key, with the first one-time secret that gives one. -/
def sign (key : Nat) (digest : Bytes) : Signature :=
  ((List.range 258).findSome? fun n => signWith? key (Bytes.toNat digest) (oneTimeSecret key digest n)).getD ⟨0, 0⟩

/-! ## 3. Verifying -/

/-- A part of a signature is in range. -/
def inRange (n : Nat) : Bool := 0 < n && n < order

/-- A signature holds for a digest of thirty-two bytes under a public point. -/
def verify (key : Point) (digest : Bytes) (a : Signature) : Bool :=
  inRange a.r && inRange a.s &&
    (let w := inverse order a.s
     let u := Bytes.toNat digest * w % order
     let v := a.r * w % order
     match ((generator.times u).add (key.times v)).affine? with
     | some (x, _) => x % order == a.r
     | none => false)

end Signature

end ContractShell
