import ContractShell.Hash.Sha256

/-!
Memory-hard derivation of a key from a password.

The password and salt are stretched to a row of blocks, the row is mixed over a table of earlier rows, and the result
salts a second stretching. A block is sixteen words, least significant byte first.
-/

namespace ContractShell.Scrypt

/-! ## 1. Blocks -/

/-- Sixteen words. -/
structure Block where
  w0 : UInt32
  w1 : UInt32
  w2 : UInt32
  w3 : UInt32
  w4 : UInt32
  w5 : UInt32
  w6 : UInt32
  w7 : UInt32
  w8 : UInt32
  w9 : UInt32
  w10 : UInt32
  w11 : UInt32
  w12 : UInt32
  w13 : UInt32
  w14 : UInt32
  w15 : UInt32

/-- The block of zeros. -/
def Block.zero : Block := ⟨0, 0, 0, 0, 0, 0, 0, 0, 0, 0, 0, 0, 0, 0, 0, 0⟩

/-- Word by word exclusive or. -/
def Block.xor (x y : Block) : Block :=
  ⟨x.w0 ^^^ y.w0, x.w1 ^^^ y.w1, x.w2 ^^^ y.w2, x.w3 ^^^ y.w3, x.w4 ^^^ y.w4, x.w5 ^^^ y.w5, x.w6 ^^^ y.w6,
   x.w7 ^^^ y.w7, x.w8 ^^^ y.w8, x.w9 ^^^ y.w9, x.w10 ^^^ y.w10, x.w11 ^^^ y.w11, x.w12 ^^^ y.w12,
   x.w13 ^^^ y.w13, x.w14 ^^^ y.w14, x.w15 ^^^ y.w15⟩

/-- Word by word sum. -/
def Block.add (x y : Block) : Block :=
  ⟨x.w0 + y.w0, x.w1 + y.w1, x.w2 + y.w2, x.w3 + y.w3, x.w4 + y.w4, x.w5 + y.w5, x.w6 + y.w6, x.w7 + y.w7,
   x.w8 + y.w8, x.w9 + y.w9, x.w10 + y.w10, x.w11 + y.w11, x.w12 + y.w12, x.w13 + y.w13, x.w14 + y.w14,
   x.w15 + y.w15⟩

/-- Rotates a word to the left. -/
@[inline] def rotl (x : UInt32) (n : UInt32) : UInt32 := (x <<< n) ||| (x >>> (32 - n))

/-- Four quarter steps down the columns and four along the rows. -/
def Block.doubleRound (x : Block) : Block :=
  let x4 := x.w4 ^^^ rotl (x.w0 + x.w12) 7
  let x8 := x.w8 ^^^ rotl (x4 + x.w0) 9
  let x12 := x.w12 ^^^ rotl (x8 + x4) 13
  let x0 := x.w0 ^^^ rotl (x12 + x8) 18
  let x9 := x.w9 ^^^ rotl (x.w5 + x.w1) 7
  let x13 := x.w13 ^^^ rotl (x9 + x.w5) 9
  let x1 := x.w1 ^^^ rotl (x13 + x9) 13
  let x5 := x.w5 ^^^ rotl (x1 + x13) 18
  let x14 := x.w14 ^^^ rotl (x.w10 + x.w6) 7
  let x2 := x.w2 ^^^ rotl (x14 + x.w10) 9
  let x6 := x.w6 ^^^ rotl (x2 + x14) 13
  let x10 := x.w10 ^^^ rotl (x6 + x2) 18
  let x3 := x.w3 ^^^ rotl (x.w15 + x.w11) 7
  let x7 := x.w7 ^^^ rotl (x3 + x.w15) 9
  let x11 := x.w11 ^^^ rotl (x7 + x3) 13
  let x15 := x.w15 ^^^ rotl (x11 + x7) 18
  let y1 := x1 ^^^ rotl (x0 + x3) 7
  let y2 := x2 ^^^ rotl (y1 + x0) 9
  let y3 := x3 ^^^ rotl (y2 + y1) 13
  let y0 := x0 ^^^ rotl (y3 + y2) 18
  let y6 := x6 ^^^ rotl (x5 + x4) 7
  let y7 := x7 ^^^ rotl (y6 + x5) 9
  let y4 := x4 ^^^ rotl (y7 + y6) 13
  let y5 := x5 ^^^ rotl (y4 + y7) 18
  let y11 := x11 ^^^ rotl (x10 + x9) 7
  let y8 := x8 ^^^ rotl (y11 + x10) 9
  let y9 := x9 ^^^ rotl (y8 + y11) 13
  let y10 := x10 ^^^ rotl (y9 + y8) 18
  let y12 := x12 ^^^ rotl (x15 + x14) 7
  let y13 := x13 ^^^ rotl (y12 + x15) 9
  let y14 := x14 ^^^ rotl (y13 + y12) 13
  let y15 := x15 ^^^ rotl (y14 + y13) 18
  ⟨y0, y1, y2, y3, y4, y5, y6, y7, y8, y9, y10, y11, y12, y13, y14, y15⟩

/-- Four double rounds, added to the block they started from. -/
def Block.stir (x : Block) : Block :=
  x.add x.doubleRound.doubleRound.doubleRound.doubleRound

/-- The word of four bytes, least significant first. -/
def word (b : Bytes) : UInt32 :=
  match b with
  | p :: q :: r :: s :: _ => p.toUInt32 ||| (q.toUInt32 <<< 8) ||| (r.toUInt32 <<< 16) ||| (s.toUInt32 <<< 24)
  | _ => 0

/-- The block of sixty-four bytes. -/
def Block.ofBytes (b : Bytes) : Block :=
  let w (i : Nat) := word (b.drop (4 * i))
  ⟨w 0, w 1, w 2, w 3, w 4, w 5, w 6, w 7, w 8, w 9, w 10, w 11, w 12, w 13, w 14, w 15⟩

/-- The bytes of a block. -/
def Block.bytes (x : Block) : Bytes :=
  [x.w0, x.w1, x.w2, x.w3, x.w4, x.w5, x.w6, x.w7, x.w8, x.w9, x.w10, x.w11, x.w12, x.w13, x.w14, x.w15].flatMap
    fun (w : UInt32) => [w.toUInt8, (w >>> 8).toUInt8, (w >>> 16).toUInt8, (w >>> 24).toUInt8]

/-! ## 2. Rows of blocks -/

/-- A row of blocks. -/
abbrev Row := List Block

/-- Stirs each block with the one before it. The blocks at even places come out in `evens`, the others in `odds`, both
reversed; the even ones go first in the result. -/
def mixOnto (evens odds : Row) (previous : Block) : Row → Row
  | [] => evens.reverse ++ odds.reverse
  | [x] => let y := (previous.xor x).stir; (y :: evens).reverse ++ odds.reverse
  | x :: x' :: r =>
    let y := (previous.xor x).stir
    let y' := (y.xor x').stir
    mixOnto (y :: evens) (y' :: odds) y' r

/-- Mixes a row, starting from its last block. -/
def mixBlocks (row : Row) : Row := mixOnto [] [] (row.getLastD Block.zero) row

/-- Fills the table with `n` rows, each the mix of the one before, and gives the row after them. -/
def fillTable : Nat → Array Row → Row → Array Row × Row
  | 0, table, row => (table, row)
  | n + 1, table, row => fillTable n (table.push row) (mixBlocks row)

/-- Mixes a row `n` times, each time with the row of the table that its last block names. -/
def mixTable (table : Array Row) : Nat → Row → Row
  | 0, row => row
  | n + 1, row =>
    let index := (row.getLastD Block.zero).w0.toNat % table.size
    mixTable table n (mixBlocks (List.zipWith Block.xor row (table.getD index [])))

/-! ## 3. The key -/

/-- The number of rows in the table. -/
def cost : Nat := 16384

/-- The number of blocks in a row, in pairs. -/
def pairs : Nat := 8

/-- The blocks of `n` times sixty-four bytes. -/
def rowOf : Nat → Bytes → Row
  | 0, _ => []
  | n + 1, b => Block.ofBytes b :: rowOf n (b.drop 64)

/-- The key of thirty-two bytes that a password and a salt give. -/
def deriveKey (password salt : Bytes) : Bytes :=
  let row := rowOf (2 * pairs) (Sha256.derive password salt (4 * pairs))
  let (table, row) := fillTable cost #[] row
  Sha256.derive password ((mixTable table cost row).flatMap Block.bytes) 1

end ContractShell.Scrypt
