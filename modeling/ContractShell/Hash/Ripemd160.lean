import ContractShell.Bytes.Basic

/-!
The RIPEMD-160 digest: two lines of eighty steps over each block, with words least significant byte first.
-/

namespace ContractShell.Ripemd160

/-! ## 1. Words -/

/-- Rotates a word to the left. -/
def rotl (x : UInt32) (n : UInt32) : UInt32 := (x <<< n) ||| (x >>> (32 - n))

/-- The words of a block, least significant byte first. -/
def words : Bytes → List UInt32
  | a :: b :: c :: d :: r =>
    (a.toUInt32 ||| (b.toUInt32 <<< 8) ||| (c.toUInt32 <<< 16) ||| (d.toUInt32 <<< 24)) :: words r
  | _ => []

/-- The four bytes of a word, least significant first. -/
def wordBytes (w : UInt32) : Bytes :=
  [w.toUInt8, (w >>> 8).toUInt8, (w >>> 16).toUInt8, (w >>> 24).toUInt8]

/-! ## 2. Steps -/

/-- The five words that a message is folded into. -/
structure State where
  a : UInt32
  b : UInt32
  c : UInt32
  d : UInt32
  e : UInt32

/-- The state before the first block. -/
def State.initial : State := ⟨0x67452301, 0xefcdab89, 0x98badcfe, 0x10325476, 0xc3d2e1f0⟩

/-- The mixing function of a group of sixteen steps. -/
def mix (group : Nat) (x y z : UInt32) : UInt32 :=
  match group with
  | 0 => x ^^^ y ^^^ z
  | 1 => (x &&& y) ||| ((~~~ x) &&& z)
  | 2 => (x ||| ~~~ y) ^^^ z
  | 3 => (x &&& z) ||| (y &&& ~~~ z)
  | _ => x ^^^ (y ||| ~~~ z)

/-- One group of sixteen steps of a line: its mixing function, its constant, the words it takes and its rotations. -/
structure Group where
  mixing : Nat
  constant : UInt32
  order : List Nat
  turns : List UInt32

/-- The left line. -/
def leftLine : List Group := [
  ⟨0, 0x00000000, [0, 1, 2, 3, 4, 5, 6, 7, 8, 9, 10, 11, 12, 13, 14, 15],
    [11, 14, 15, 12, 5, 8, 7, 9, 11, 13, 14, 15, 6, 7, 9, 8]⟩,
  ⟨1, 0x5a827999, [7, 4, 13, 1, 10, 6, 15, 3, 12, 0, 9, 5, 2, 14, 11, 8],
    [7, 6, 8, 13, 11, 9, 7, 15, 7, 12, 15, 9, 11, 7, 13, 12]⟩,
  ⟨2, 0x6ed9eba1, [3, 10, 14, 4, 9, 15, 8, 1, 2, 7, 0, 6, 13, 11, 5, 12],
    [11, 13, 6, 7, 14, 9, 13, 15, 14, 8, 13, 6, 5, 12, 7, 5]⟩,
  ⟨3, 0x8f1bbcdc, [1, 9, 11, 10, 0, 8, 12, 4, 13, 3, 7, 15, 14, 5, 6, 2],
    [11, 12, 14, 15, 14, 15, 9, 8, 9, 14, 5, 6, 8, 6, 5, 12]⟩,
  ⟨4, 0xa953fd4e, [4, 0, 5, 9, 7, 12, 2, 10, 14, 1, 3, 8, 11, 6, 15, 13],
    [9, 15, 5, 11, 6, 8, 13, 12, 5, 12, 13, 14, 11, 8, 5, 6]⟩]

/-- The right line. -/
def rightLine : List Group := [
  ⟨4, 0x50a28be6, [5, 14, 7, 0, 9, 2, 11, 4, 13, 6, 15, 8, 1, 10, 3, 12],
    [8, 9, 9, 11, 13, 15, 15, 5, 7, 7, 8, 11, 14, 14, 12, 6]⟩,
  ⟨3, 0x5c4dd124, [6, 11, 3, 7, 0, 13, 5, 10, 14, 15, 8, 12, 4, 9, 1, 2],
    [9, 13, 15, 7, 12, 8, 9, 11, 7, 7, 12, 7, 6, 15, 13, 11]⟩,
  ⟨2, 0x6d703ef3, [15, 5, 1, 3, 7, 14, 6, 9, 11, 8, 12, 2, 10, 0, 4, 13],
    [9, 7, 15, 11, 8, 6, 6, 14, 12, 13, 5, 14, 13, 13, 7, 5]⟩,
  ⟨1, 0x7a6d76e9, [8, 6, 4, 1, 3, 11, 15, 0, 5, 12, 2, 13, 9, 7, 10, 14],
    [15, 5, 8, 11, 14, 14, 6, 14, 6, 9, 12, 9, 12, 5, 15, 8]⟩,
  ⟨0, 0x00000000, [12, 15, 10, 4, 1, 5, 8, 7, 6, 2, 13, 14, 0, 3, 9, 11],
    [8, 5, 12, 9, 12, 5, 14, 6, 8, 13, 6, 5, 15, 13, 11, 11]⟩]

/-- One step with a word and a rotation. -/
def step (group : Group) (s : State) (x turn : UInt32) : State :=
  let t := rotl (s.a + mix group.mixing s.b s.c s.d + x + group.constant) turn + s.e
  ⟨s.e, t, s.b, rotl s.c 10, s.d⟩

/-- The steps of a group. -/
def steps (x : Array UInt32) (group : Group) (s : State) : State :=
  (group.order.zip group.turns).foldl (fun s (i, turn) => step group s (x.getD i 0) turn) s

/-- Folds one block into the state. -/
def compress (s : State) (block : Bytes) : State :=
  let x := (words block).toArray
  let l := leftLine.foldl (fun s g => steps x g s) s
  let r := rightLine.foldl (fun s g => steps x g s) s
  ⟨s.b + l.c + r.d, s.c + l.d + r.e, s.d + l.e + r.a, s.e + l.a + r.b, s.a + l.b + r.c⟩

/-! ## 3. Messages -/

/-- A message with its padding: a one bit, zeros, and its length in bits, least significant byte first. -/
def pad (m : Bytes) : Bytes :=
  m ++ 0x80 :: List.replicate ((119 - m.length % 64) % 64) 0 ++ (Bytes.ofNat 8 (8 * m.length)).reverse

/-- Folds the blocks of a padded message; `blocks` is how many there are. -/
def absorb : Nat → State → Bytes → State
  | 0, s, _ => s
  | blocks + 1, s, m => absorb blocks (compress s (m.take 64)) (m.drop 64)

/-- The digest of a message. -/
def digest (m : Bytes) : Bytes :=
  let padded := pad m
  let s := absorb (padded.length / 64) .initial padded
  [s.a, s.b, s.c, s.d, s.e].flatMap wordBytes

end ContractShell.Ripemd160
