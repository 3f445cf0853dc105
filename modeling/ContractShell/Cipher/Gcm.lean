import ContractShell.Cipher.Aes

/-!
Sealing of bytes: AES in counter mode with an authentication tag of sixteen bytes after the ciphertext.

## Main statements

* `length_keyStream`: the key stream is as long as asked.
-/

namespace ContractShell.Gcm

/-! ## 1. The field -/

/-- The product in the field of the tag, where the most significant bit is the constant term. Goes through the bits of
`x` from the top; `v` is `y` times the power reached. -/
def productFrom (x : Nat) : Nat → Nat → Nat → Nat
  | 0, _, z => z
  | bits + 1, v, z =>
    let z := if x.testBit bits then z ^^^ v else z
    let v := if v.testBit 0 then (v >>> 1) ^^^ (0xe1 <<< 120) else v >>> 1
    productFrom x bits v z

/-- The product of two elements. -/
def product (x y : Nat) : Nat := productFrom x 128 y 0

/-- Folds `blocks` blocks into an element under the hash key. -/
def hashFrom (h : Nat) : Nat → Bytes → Nat → Nat
  | 0, _, y => y
  | blocks + 1, b, y => hashFrom h blocks (b.drop 16) (product (y ^^^ Bytes.toNat (b.take 16)) h)

/-- Zeros up to a multiple of sixteen bytes. -/
def padded (b : Bytes) : Bytes := b ++ List.replicate ((16 - b.length % 16) % 16) 0

/-- The hash of bytes that are a multiple of sixteen long. -/
def hash (h : Nat) (b : Bytes) : Nat := hashFrom h (b.length / 16) b 0

/-! ## 2. Counter mode -/

/-- The counter block `n` places on: the last four bytes count, modulo their range. -/
def counter (start : Bytes) (n : Nat) : Bytes :=
  start.take 12 ++ Bytes.ofNat 4 ((Bytes.toNat (start.drop 12) + n) % 0x100000000)

/-- The first `n` bytes of the key stream after a counter block. -/
def keyStream (schedule start : Bytes) (n : Nat) : Bytes :=
  let all := (List.range ((n + 15) / 16)).flatMap fun i => Aes.encryptBlock schedule (counter start (i + 1))
  all.take n ++ List.replicate (n - all.length) 0

@[simp] theorem length_keyStream (schedule start : Bytes) (n : Nat) : (keyStream schedule start n).length = n := by
  simp only [keyStream, List.length_append, List.length_take, List.length_replicate]
  omega

/-- The data under the key stream; the same operation opens what it sealed. -/
def crypt (schedule start data : Bytes) : Bytes := Bytes.xor data (keyStream schedule start data.length)

/-! ## 3. Sealing -/

/-- The least and the greatest length of a nonce. -/
def nonceSizes : Nat × Nat := (8, 128)

/-- A nonce whose length is allowed. -/
def isNonce (nonce : Bytes) : Bool := nonceSizes.1 ≤ nonce.length && nonce.length ≤ nonceSizes.2

/-- The number of bytes of a tag. -/
def tagSize : Nat := 16

/-- The key of the hash. -/
def hashKey (schedule : Bytes) : Nat := Bytes.toNat (Aes.encryptBlock schedule (List.replicate 16 0))

/-- The first counter block: a nonce of twelve bytes and a one, or the hash of any other nonce. -/
def firstCounter (h : Nat) (nonce : Bytes) : Bytes :=
  if nonce.length = 12 then nonce ++ [0, 0, 0, 1]
  else Bytes.ofNat 16 (hash h (padded nonce ++ Bytes.ofNat 16 (8 * nonce.length)))

/-- The tag of a ciphertext. -/
def tag (schedule : Bytes) (h : Nat) (start ciphertext : Bytes) : Bytes :=
  Bytes.xor (Bytes.ofNat 16 (hash h (padded ciphertext ++ Bytes.ofNat 16 (8 * ciphertext.length))))
    (Aes.encryptBlock schedule start)

/-- Seals data under a key of thirty-two bytes: the ciphertext, then its tag. -/
def encrypt (key nonce data : Bytes) : Bytes :=
  let schedule := Aes.schedule key
  let h := hashKey schedule
  let start := firstCounter h nonce
  let ciphertext := crypt schedule start data
  ciphertext ++ tag schedule h start ciphertext

/-- Opens sealed data, or refuses it when it is too short or its tag is wrong. -/
def decrypt? (key nonce sealedData : Bytes) : Option Bytes :=
  if sealedData.length < tagSize then none
  else
    let schedule := Aes.schedule key
    let h := hashKey schedule
    let start := firstCounter h nonce
    let ciphertext := Bytes.dropLast tagSize sealedData
    if tag schedule h start ciphertext = Bytes.takeLast tagSize sealedData then some (crypt schedule start ciphertext)
    else none

end ContractShell.Gcm
