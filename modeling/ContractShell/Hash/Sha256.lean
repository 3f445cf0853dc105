import ContractShell.Bytes.Basic

/-!
The SHA-256 digest, its keyed form, and the iterated derivation of a key from a password.

## Main statements

* `length_digest`: a digest has 32 bytes.
-/

namespace ContractShell.Sha256

/-! ## 1. Words -/

/-- Rotates a word to the right. -/
def rotr (x : UInt32) (n : UInt32) : UInt32 := (x >>> n) ||| (x <<< (32 - n))

/-- The words of a block, most significant byte first. A last group of fewer than four bytes is dropped. -/
def words : Bytes → List UInt32
  | a :: b :: c :: d :: r =>
    ((a.toUInt32 <<< 24) ||| (b.toUInt32 <<< 16) ||| (c.toUInt32 <<< 8) ||| d.toUInt32) :: words r
  | _ => []

/-- The four bytes of a word, most significant first. -/
def wordBytes (w : UInt32) : Bytes :=
  [(w >>> 24).toUInt8, (w >>> 16).toUInt8, (w >>> 8).toUInt8, w.toUInt8]

/-! ## 2. Compression -/

/-- The eight words that a message is folded into. -/
structure State where
  a : UInt32
  b : UInt32
  c : UInt32
  d : UInt32
  e : UInt32
  f : UInt32
  g : UInt32
  h : UInt32

/-- The state before the first block. -/
def State.initial : State :=
  ⟨0x6a09e667, 0xbb67ae85, 0x3c6ef372, 0xa54ff53a, 0x510e527f, 0x9b05688c, 0x1f83d9ab, 0x5be0cd19⟩

/-- The constants of the sixty-four rounds. -/
def roundConstants : List UInt32 :=
  [0x428a2f98, 0x71374491, 0xb5c0fbcf, 0xe9b5dba5, 0x3956c25b, 0x59f111f1, 0x923f82a4, 0xab1c5ed5,
   0xd807aa98, 0x12835b01, 0x243185be, 0x550c7dc3, 0x72be5d74, 0x80deb1fe, 0x9bdc06a7, 0xc19bf174,
   0xe49b69c1, 0xefbe4786, 0x0fc19dc6, 0x240ca1cc, 0x2de92c6f, 0x4a7484aa, 0x5cb0a9dc, 0x76f988da,
   0x983e5152, 0xa831c66d, 0xb00327c8, 0xbf597fc7, 0xc6e00bf3, 0xd5a79147, 0x06ca6351, 0x14292967,
   0x27b70a85, 0x2e1b2138, 0x4d2c6dfc, 0x53380d13, 0x650a7354, 0x766a0abb, 0x81c2c92e, 0x92722c85,
   0xa2bfe8a1, 0xa81a664b, 0xc24b8b70, 0xc76c51a3, 0xd192e819, 0xd6990624, 0xf40e3585, 0x106aa070,
   0x19a4c116, 0x1e376c08, 0x2748774c, 0x34b0bcb5, 0x391c0cb3, 0x4ed8aa4a, 0x5b9cca4f, 0x682e6ff3,
   0x748f82ee, 0x78a5636f, 0x84c87814, 0x8cc70208, 0x90befffa, 0xa4506ceb, 0xbef9a3f7, 0xc67178f2]

/-- Extends the words of a block by `n` more, each from the words 2, 7, 15 and 16 places before it. -/
def extend : Nat → Array UInt32 → Array UInt32
  | 0, w => w
  | n + 1, w =>
    let i := w.size
    let x := w.getD (i - 15) 0
    let y := w.getD (i - 2) 0
    let s0 := rotr x 7 ^^^ rotr x 18 ^^^ (x >>> 3)
    let s1 := rotr y 17 ^^^ rotr y 19 ^^^ (y >>> 10)
    extend n (w.push (w.getD (i - 16) 0 + s0 + w.getD (i - 7) 0 + s1))

/-- One round with a constant and a word. -/
def round (s : State) (k w : UInt32) : State :=
  let s1 := rotr s.e 6 ^^^ rotr s.e 11 ^^^ rotr s.e 25
  let choice := (s.e &&& s.f) ^^^ ((~~~ s.e) &&& s.g)
  let t1 := s.h + s1 + choice + k + w
  let s0 := rotr s.a 2 ^^^ rotr s.a 13 ^^^ rotr s.a 22
  let majority := (s.a &&& s.b) ^^^ (s.a &&& s.c) ^^^ (s.b &&& s.c)
  ⟨t1 + (s0 + majority), s.a, s.b, s.c, s.d + t1, s.e, s.f, s.g⟩

/-- The rounds in order. -/
def rounds (s : State) : List UInt32 → List UInt32 → State
  | k :: ks, w :: ws => rounds (round s k w) ks ws
  | _, _ => s

/-- Folds one block into the state. -/
def compress (s : State) (block : Bytes) : State :=
  let t := rounds s roundConstants (extend 48 (words block).toArray).toList
  ⟨s.a + t.a, s.b + t.b, s.c + t.c, s.d + t.d, s.e + t.e, s.f + t.f, s.g + t.g, s.h + t.h⟩

/-! ## 3. Messages -/

/-- A message with its padding: a one bit, zeros, and its length in bits, up to a multiple of 64 bytes. -/
def pad (m : Bytes) : Bytes :=
  m ++ 0x80 :: List.replicate ((119 - m.length % 64) % 64) 0 ++ Bytes.ofNat 8 (8 * m.length)

/-- Folds the blocks of a padded message; `blocks` is how many there are. -/
def absorb : Nat → State → Bytes → State
  | 0, s, _ => s
  | blocks + 1, s, m => absorb blocks (compress s (m.take 64)) (m.drop 64)

/-- The bytes of a state. -/
def State.bytes (s : State) : Bytes :=
  [s.a, s.b, s.c, s.d, s.e, s.f, s.g, s.h].flatMap wordBytes

/-- The digest of a message. -/
def digest (m : Bytes) : Bytes :=
  let padded := pad m
  (absorb (padded.length / 64) .initial padded).bytes

@[simp] theorem length_digest (m : Bytes) : (digest m).length = 32 := by
  simp [digest, State.bytes, wordBytes]

/-- The digest of the digest. -/
def digestTwice (m : Bytes) : Bytes := digest (digest m)

/-! ## 4. Keyed digests -/

/-- The key's block: a long key is digested first, a short one filled with zeros. -/
def keyBlock (key : Bytes) : Bytes :=
  let k := if 64 < key.length then digest key else key
  k ++ List.replicate (64 - k.length) 0

/-- The keyed digest of a message. -/
def hmac (key message : Bytes) : Bytes :=
  let k := keyBlock key
  digest (k.map (· ^^^ 0x5c) ++ digest (k.map (· ^^^ 0x36) ++ message))

/-- A key of `blocks` blocks from a password and a salt, with one iteration for each block. -/
def derive (password salt : Bytes) (blocks : Nat) : Bytes :=
  (List.range blocks).flatMap fun i => hmac password (salt ++ Bytes.ofNat 4 (i + 1))

end ContractShell.Sha256
