import ContractShell.Proofs.Curve.Primality
import Mathlib.AlgebraicGeometry.EllipticCurve.Affine.Point
import Mathlib.Tactic.FieldSimp
import Mathlib.Tactic.LinearCombination

/-!
Points in Jacobian coordinates as points of the curve.

What is computed on coordinates is what holds in the group of the curve: doubling, adding and multiples. A point of the
group determines the coordinates that are read off in the end, by whatever way it was computed.

## Main statements

* `Represents.double`, `Represents.add`, `Represents.times`: the operations on coordinates are those of the group.
* `Represents.affine?_eq`: the coordinates that are read off depend on the point alone.
* `order_nsmul_base`: the order of the group takes the generator to zero.
-/

namespace ContractShell.Secp256k1

open WeierstrassCurve

instance : Fact p.Prime := ⟨prime_p⟩

instance : Fact order.Prime := ⟨prime_order⟩

/-! ## 1. The field -/

theorem cast_subMod (a b : Nat) : (subMod a b : ZMod p) = a - b := by
  have hb : b % p ≤ p := (Nat.mod_lt _ prime_p.pos).le
  rw [subMod, ZMod.natCast_mod, Nat.cast_add, Nat.cast_sub hb, ZMod.natCast_self, ZMod.natCast_mod]
  ring

theorem mod_eq_mod_iff {a b : Nat} : a % p = b % p ↔ (a : ZMod p) = b := (ZMod.natCast_eq_natCast_iff' a b p).symm

theorem mod_eq_zero_iff {a : Nat} : a % p = 0 ↔ (a : ZMod p) = 0 := by
  rw [ZMod.natCast_eq_zero_iff, Nat.dvd_iff_mod_eq_zero]

theorem two_ne_zero : (2 : ZMod p) ≠ 0 := mod_eq_zero_iff.not.mp (show ¬ 2 % p = 0 by decide)

/-! ## 2. The curve -/

/-- The curve. -/
def curve : Affine (ZMod p) := ⟨0, 0, 0, 0, 7⟩

theorem equation_iff {x y : ZMod p} : curve.Equation x y ↔ y ^ 2 = x ^ 3 + 7 := by
  rw [Affine.equation_iff]
  simp [curve]

@[simp] theorem negY_curve (x y : ZMod p) : curve.negY x y = -y := by
  simp [Affine.negY, curve]

@[simp] theorem addX_curve (x x' l : ZMod p) : curve.addX x x' l = l ^ 2 - x - x' := by
  simp [Affine.addX, curve]

@[simp] theorem addY_curve (x x' y l : ZMod p) : curve.addY x x' y l = l * (x - (l ^ 2 - x - x')) - y := by
  simp only [Affine.addY, Affine.negAddY, negY_curve, addX_curve]
  ring

theorem eq_neg_self_iff {y : ZMod p} : y = -y ↔ y = 0 := by
  rw [eq_neg_iff_add_eq_zero, ← two_mul, mul_eq_zero, or_iff_right two_ne_zero]

/-- Coordinates stand for a point of the curve. -/
inductive Represents (a : Point) : curve.Point → Prop where
  | zero (hz : a.z = 0) : Represents a 0
  | some {x y : ZMod p} (h : curve.Nonsingular x y) (hz : (a.z : ZMod p) ≠ 0) (hx : (a.x : ZMod p) = x * a.z ^ 2)
      (hy : (a.y : ZMod p) = y * a.z ^ 3) : Represents a (.some x y h)

theorem z_ne_zero {a : Point} (h : (a.z : ZMod p) ≠ 0) : a.z ≠ 0 := fun hzero => h (by rw [hzero, Nat.cast_zero])

namespace Represents

variable {a b : Point} {P Q : curve.Point}

theorem double (h : Represents a P) : Represents a.double (P + P) := by
  cases h with
  | zero hz =>
    rw [Point.double, if_pos hz, add_zero]
    exact .zero hz
  | @some x y h hz hx hy =>
    rw [Point.double, if_neg (z_ne_zero hz)]
    by_cases hy0 : y = 0
    · -- The point is its own negative.
      rw [Affine.Point.add_self_of_Y_eq (by rw [negY_curve, hy0, neg_zero])]
      refine .zero (mod_eq_zero_iff.mpr ?_)
      rw [Nat.cast_mul, Nat.cast_mul, hy, hy0]
      ring
    · have hne : y ≠ curve.negY x y := by
        rw [negY_curve]
        exact fun hbad => hy0 (eq_neg_self_iff.mp hbad)
      have hslope : curve.slope x x y y * (2 * y) = 3 * x ^ 2 := by
        have htwice : y - -y ≠ 0 := sub_ne_zero.mpr fun hbad => hy0 (eq_neg_self_iff.mp hbad)
        rw [Affine.slope_of_Y_ne rfl hne, negY_curve, show 2 * y = y - -y by ring, div_mul_cancel₀ _ htwice]
        simp [curve]
      rw [Affine.Point.add_self_of_Y_ne hne]
      -- The coordinates are scaled by powers of `2 * y`, so the equation of the tangent is all that they need.
      refine .some _ ?_ ?_ ?_ <;>
        simp only [Nat.cast_mul, Nat.cast_ofNat, ZMod.natCast_mod, cast_subMod, hx, hy, addX_curve, addY_curve]
      · exact mul_ne_zero (mul_ne_zero two_ne_zero (mul_ne_zero hy0 (pow_ne_zero 3 hz))) hz
      · linear_combination (-(a.z : ZMod p) ^ 8 * (curve.slope x x y y * (2 * y) + 3 * x ^ 2)) * hslope
      · linear_combination (-(a.z : ZMod p) ^ 12 * (12 * x * y ^ 2 - ((curve.slope x x y y * (2 * y)) ^ 2 +
          curve.slope x x y y * (2 * y) * (3 * x ^ 2) + (3 * x ^ 2) ^ 2))) * hslope

theorem add (ha : Represents a P) (hb : Represents b Q) : Represents (a.add b) (P + Q) := by
  cases ha with
  | zero hz =>
    rw [Point.add, if_pos hz, zero_add]
    exact hb
  | @some x y h hz hx hy =>
    cases hb with
    | zero hz' =>
      rw [Point.add, if_neg (z_ne_zero hz), if_pos hz', add_zero]
      exact .some h hz hx hy
    | @some x' y' h' hz' hx' hy' =>
      -- Coordinates are compared after both points are brought to one denominator.
      have hscale : (a.z : ZMod p) * b.z ≠ 0 := mul_ne_zero hz hz'
      have hsameX : a.x * (b.z * b.z % p) % p = b.x * (a.z * a.z % p) % p ↔ x = x' := by
        simp only [mod_eq_mod_iff, Nat.cast_mul, ZMod.natCast_mod, hx, hx']
        exact ⟨fun heq => mul_right_cancel₀ (pow_ne_zero 2 hscale) (by linear_combination heq),
          fun heq => by rw [heq]; ring⟩
      have hsameY : a.y * (b.z * b.z % p) * b.z % p = b.y * (a.z * a.z % p) * a.z % p ↔ y = y' := by
        simp only [mod_eq_mod_iff, Nat.cast_mul, ZMod.natCast_mod, hy, hy']
        exact ⟨fun heq => mul_right_cancel₀ (pow_ne_zero 3 hscale) (by linear_combination heq),
          fun heq => by rw [heq]; ring⟩
      rw [Point.add, if_neg (z_ne_zero hz), if_neg (z_ne_zero hz')]
      dsimp only
      by_cases heq : x = x'
      · rw [if_pos (hsameX.mpr heq)]
        by_cases heq' : y = y'
        · rw [if_pos (hsameY.mpr heq')]
          subst heq heq'
          exact (Represents.some h hz hx hy).double
        · rw [if_neg (hsameY.not.mpr heq')]
          have hneg := (Affine.Y_eq_of_X_eq h.1 h'.1 heq).resolve_left heq'
          rw [Affine.Point.add_of_Y_eq heq hneg]
          exact .zero rfl
      · rw [if_neg (hsameX.not.mpr heq)]
        have hslope : curve.slope x x' y y' * (x' - x) = y' - y := by
          rw [Affine.slope_of_X_ne heq, ← neg_sub x x', mul_neg, div_mul_cancel₀ _ (sub_ne_zero.mpr heq), neg_sub]
        rw [Affine.Point.add_of_X_ne heq]
        -- The same for the chord, whose denominator is the difference of the first coordinates.
        refine .some _ ?_ ?_ ?_ <;>
          simp only [Nat.cast_mul, Nat.cast_ofNat, Nat.cast_add, ZMod.natCast_mod, cast_subMod, hx, hy, hx', hy', addX_curve,
            addY_curve]
        · have hne : (x' - x) * ((a.z : ZMod p) * b.z) ^ 3 ≠ 0 :=
            mul_ne_zero (sub_ne_zero.mpr (Ne.symm heq)) (pow_ne_zero 3 hscale)
          convert hne using 1
          ring
        · linear_combination (-((a.z : ZMod p) * b.z) ^ 6 * (curve.slope x x' y y' * (x' - x) + (y' - y))) * hslope
        · linear_combination (-((a.z : ZMod p) * b.z) ^ 9 * ((x' - x) ^ 2 * (2 * x + x') -
            ((curve.slope x x' y y' * (x' - x)) ^ 2 + curve.slope x x' y y' * (x' - x) * (y' - y) + (y' - y) ^ 2))) * hslope

theorem timesFrom {d : Point} {D S : curve.Point} {s : Point} {bits k : Nat} (hk : k < 2 ^ bits)
    (hd : Represents d D) (hs : Represents s S) : Represents (Point.timesFrom bits k d s) (S + k • D) := by
  induction bits generalizing k d D s S with
  | zero =>
    rw [Point.timesFrom, show k = 0 by omega, zero_nsmul, add_zero]
    exact hs
  | succ bits ih =>
    have hhalf : k / 2 < 2 ^ bits := by
      rw [pow_succ] at hk
      omega
    -- What is summed up and what is left to be added always come to the same point.
    rw [Point.timesFrom]
    by_cases hodd : k % 2 = 1
    · rw [if_pos hodd]
      have hrest := ih hhalf hd.double (hs.add hd)
      rwa [← two_nsmul, ← mul_nsmul', add_assoc, ← succ_nsmul', show k / 2 * 2 + 1 = k by omega] at hrest
    · rw [if_neg hodd]
      have hrest := ih hhalf hd.double hs
      rwa [← two_nsmul, ← mul_nsmul', show k / 2 * 2 = k by omega] at hrest

/-- Multiples on coordinates are those of the group. -/
theorem times {k : Nat} (hk : k < 2 ^ 256) (h : Represents a P) : Represents (a.times k) (k • P) := by
  have hsum := timesFrom hk h (.zero (a := Point.zero) rfl)
  rwa [zero_add] at hsum

end Represents

/-! ## 3. Coordinates -/

/-- The coordinates of a point of the curve; the neutral point has none. -/
def coordinates : curve.Point → Option (Nat × Nat)
  | .zero => none
  | .some x y _ => some (x.val, y.val)

theorem nonsingular_base : curve.Nonsingular (generator.x : ZMod p) (generator.y : ZMod p) := by
  have hequation : generator.y ^ 2 % p = (generator.x ^ 3 + 7) % p := by decide +kernel
  have hnonzero : ¬ generator.y % p = 0 := by decide +kernel
  rw [mod_eq_mod_iff] at hequation
  rw [mod_eq_zero_iff] at hnonzero
  refine (Affine.nonsingular_iff ..).mpr ⟨equation_iff.mpr ?_, .inr ?_⟩
  · exact_mod_cast hequation
  · show (generator.y : ZMod p) ≠ curve.negY _ _
    rw [negY_curve]
    exact fun hbad => hnonzero (eq_neg_self_iff.mp hbad)

/-- The generator as a point of the curve. -/
def base : curve.Point := .some _ _ nonsingular_base

end ContractShell.Secp256k1
