import ContractShell.Files.Disk
import ContractShell.Node.Network

/-!
What lies around a session: the network, the two sources of chance, random bytes and new keys, and how the writing of files
goes.

These are endless supplies, and what was taken from them does not come back. The supply of a seed is a row of digests, each
of the seed and the digest's place in the row, so whoever does not know the seed cannot tell what comes next.

## Main statements

* `length_take`: as many things are taken as are asked for.
-/

namespace ContractShell

/-! ## 1. Supplies -/

/-- An endless supply of things, and how many of them were taken. -/
structure Supply (α : Type) where
  item : Nat → α
  taken : Nat

namespace Supply

variable {α : Type}

/-- Takes the next things of a supply. -/
def take (count : Nat) (s : Supply α) : List α × Supply α :=
  ((List.range count).map fun i => s.item (s.taken + i), { s with taken := s.taken + count })

theorem length_take (count : Nat) (s : Supply α) : (s.take count).1.length = count := by
  simp [take]

/-- Takes the next thing of a supply. -/
def next (s : Supply α) : α × Supply α := (s.item s.taken, { s with taken := s.taken + 1 })

/-- The supply of one thing, again and again. -/
def always (a : α) : Supply α := ⟨fun _ => a, 0⟩

end Supply

/-! ## 2. The world -/

/-- The network, the random bytes to come, the keys to come, and how the files to come are written. -/
structure World where
  network : Node.Network
  bytes : Supply UInt8
  keys : Supply Key
  writings : Supply Disk.Writing

namespace World

/-- Takes random bytes. -/
def takeBytes (count : Nat) : StateM World Bytes := fun w =>
  let (b, bytes) := w.bytes.take count
  (b, { w with bytes })

/-- Takes a new key. -/
def takeKey : StateM World Key := fun w =>
  let (k, keys) := w.keys.next
  (k, { w with keys })

/-- Takes how the next file is written. -/
def takeWriting : StateM World Disk.Writing := fun w =>
  let (o, writings) := w.writings.next
  (o, { w with writings })

/-- Opens a connection, and tells its number. -/
def openConnection : StateM World Nat := fun w =>
  let (n, network) := w.network.openConnection
  (n, { w with network })

/-- Closes the connection of a number. -/
def closeConnection (number : Nat) : StateM World Unit := fun w =>
  ((), { w with network := w.network.closeConnection number })

end World

/-! ## 3. Supplies of a seed -/

namespace Supply

/-- A part of the supply of a seed. -/
def block (seed : Bytes) (place : Nat) : Bytes := Sha256.digest (seed ++ Bytes.ofNat 8 place)

/-- How many bytes a part has. -/
def blockSize : Nat := 32

/-- The random bytes of a seed. -/
def bytesOf (seed : Bytes) : Supply UInt8 := ⟨fun i => (block seed (i / blockSize)).getD (i % blockSize) 0, 0⟩

/-- The key that a number denotes when numbers are counted around the order of the curve. -/
def keyOf (n : Nat) : Key :=
  ⟨n % (Secp256k1.order - 1) + 1, Nat.succ_pos _, by
    have := Nat.mod_lt n (y := Secp256k1.order - 1) (by decide)
    have : 0 < Secp256k1.order := by decide
    omega⟩

/-- The keys of a seed. Each is drawn from two parts, so that all keys are as good as equally likely. -/
def keysOf (seed : Bytes) : Supply Key :=
  ⟨fun i => keyOf (Bytes.toNat (block seed (2 * i) ++ block seed (2 * i + 1))), 0⟩

end Supply

end ContractShell
