import ContractShell.Bytes.Basic

/-!
The curve `y² = x³ + 7` over the field of `p = 2^256 - 2^32 - 977` elements, and its group of prime order.

Points are computed in Jacobian coordinates, where `(x, y, z)` stands for the point `(x / z², y / z³)` and `z = 0` for
the neutral point.
-/

namespace ContractShell.Secp256k1

/-! ## 1. Field and order -/

/-- The number of elements of the field. -/
def p : Nat := 0xFFFFFFFFFFFFFFFFFFFFFFFFFFFFFFFFFFFFFFFFFFFFFFFFFFFFFFFEFFFFFC2F

/-- The order of the group. -/
def order : Nat := 0xFFFFFFFFFFFFFFFFFFFFFFFFFFFFFFFEBAAEDCE6AF48A03BBFD25E8CD0364141

/-- Raises to a power modulo `m`, one bit of the exponent at a time from the lowest. -/
def powMod (m : Nat) : Nat → Nat → Nat → Nat → Nat
  | 0, _, _, acc => acc
  | bits + 1, base, e, acc =>
    powMod m bits (base * base % m) (e / 2) (if e % 2 = 1 then acc * base % m else acc)

/-- The inverse modulo a prime below `2 ^ 256`. -/
def inverse (m a : Nat) : Nat := powMod m 256 (a % m) (m - 2) 1

/-! ## 2. Points -/

/-- A point in Jacobian coordinates. -/
structure Point where
  x : Nat
  y : Nat
  z : Nat

/-- The neutral point. -/
def Point.zero : Point := ⟨1, 1, 0⟩

/-- The generator. -/
def generator : Point :=
  ⟨0x79BE667EF9DCBBAC55A06295CE870B07029BFCDB2DCE28D959F2815B16F81798,
   0x483ADA7726A3C4655DA4FBFC0E1108A8FD17B448A68554199C47D08FFB10D4B8, 1⟩

/-- The difference in the field. -/
def subMod (a b : Nat) : Nat := (a + (p - b % p)) % p

/-- Twice a point. -/
def Point.double (a : Point) : Point :=
  if a.z = 0 then a
  else
    let yy := a.y * a.y % p
    let s := 4 * a.x * yy % p
    let m := 3 * a.x * a.x % p
    let x := subMod (m * m) (2 * s)
    let y := subMod (m * subMod s x) (8 * yy * yy)
    ⟨x, y, 2 * a.y * a.z % p⟩

/-- The sum of two points. -/
def Point.add (a b : Point) : Point :=
  if a.z = 0 then b
  else if b.z = 0 then a
  else
    let aa := a.z * a.z % p
    let bb := b.z * b.z % p
    let u := a.x * bb % p
    let v := b.x * aa % p
    let s := a.y * bb * b.z % p
    let t := b.y * aa * a.z % p
    if u = v then if s = t then a.double else .zero
    else
      let h := subMod v u
      let r := subMod t s
      let hh := h * h % p
      let hhh := h * hh % p
      let w := u * hh % p
      let x := subMod (r * r) (hhh + 2 * w)
      let y := subMod (r * subMod w x) (s * hhh)
      ⟨x, y, h * a.z * b.z % p⟩

/-- A multiple of a point, one bit at a time from the lowest: `doubled` is the point times the power reached. -/
def Point.timesFrom : Nat → Nat → Point → Point → Point
  | 0, _, _, sum => sum
  | bits + 1, k, doubled, sum =>
    timesFrom bits (k / 2) doubled.double (if k % 2 = 1 then sum.add doubled else sum)

/-- The point `k` times, for `k` below `2 ^ 256`. -/
def Point.times (k : Nat) (a : Point) : Point := timesFrom 256 k a .zero

/-- The coordinates of a point; the neutral point has none. -/
def Point.affine? (a : Point) : Option (Nat × Nat) :=
  if a.z = 0 then none
  else
    let i := inverse p a.z
    let ii := i * i % p
    some (a.x * ii % p, a.y * ii * i % p)

/-! ## 3. Bytes -/

/-- A point in compressed form: the parity of `y`, then `x`. -/
def Point.compressed (a : Point) : Bytes :=
  let (x, y) := a.affine?.getD (0, 0)
  (if y % 2 = 0 then 2 else 3) :: Bytes.ofNat 32 x

end ContractShell.Secp256k1
