import ContractShell.Curve.Secp256k1
import Mathlib.FieldTheory.Finite.Basic
import Mathlib.Tactic.NormNum.Prime

/-!
Primality of the two numbers that the curve rests on.

A number `N` is prime if `N - 1` has a factor above the root of `N` whose prime factors `q` are known, and some `a` has
`a ^ (N - 1) = 1` while `a ^ ((N - 1) / q) - 1` has no factor in common with `N`. Modulo a prime factor of `N`, the power of
`a` to the cofactor then has the known factor as its order, so the prime factor is above the root. A certificate is a list of
such tests, each of which may use the numbers before it.

## Main statements

* `cast_powMod`: the powers that are computed are powers.
* `Certificate.prime_of_holds`: a number that passes the test is prime.
* `prime_p`, `prime_order`: the number of elements of the field and the order of the group are prime.
-/

namespace ContractShell.Secp256k1

/-! ## 1. Powers -/

/-- What is computed modulo a number holds modulo each of its factors. -/
theorem cast_mod {r m : Nat} (h : r ∣ m) (a : Nat) : ((a % m : Nat) : ZMod r) = a :=
  (ZMod.natCast_eq_natCast_iff' _ _ _).mpr (Nat.mod_mod_of_dvd a h)

/-- A power that is computed modulo a number is that power modulo each of its factors. -/
theorem cast_powMod {r m : Nat} (h : r ∣ m) {bits e : Nat} (he : e < 2 ^ bits) (base acc : Nat) :
    (powMod m bits base e acc : ZMod r) = acc * (base : ZMod r) ^ e := by
  induction bits generalizing base e acc with
  | zero =>
    rw [powMod, show e = 0 by omega, pow_zero, mul_one]
  | succ bits ih =>
    have hhalf : e / 2 < 2 ^ bits := by
      rw [pow_succ] at he
      omega
    rw [powMod, ih hhalf, cast_mod h, Nat.cast_mul, ← sq, ← pow_mul]
    by_cases hodd : e % 2 = 1
    · rw [if_pos hodd, cast_mod h, Nat.cast_mul, mul_assoc, ← pow_succ', show 2 * (e / 2) + 1 = e by omega]
    · rw [if_neg hodd, show 2 * (e / 2) = e by omega]

/-! ## 2. Certificates -/

/-- A number with a root and with prime factors of the number less one, as pairs of a prime and its exponent. -/
structure Certificate where
  number : Nat
  root : Nat
  factors : List (Nat × Nat)

namespace Certificate

/-- The factor of the number less one whose prime factors are known. -/
def part (e : Certificate) : Nat := (e.factors.map fun f => f.1 ^ f.2).prod

/-- The test of a certificate, after numbers that have been proved prime. -/
def holds (proven : List Nat) (e : Certificate) : Bool :=
  1 < e.number && e.number < 2 ^ 256 && e.number < e.part * e.part && (e.number - 1) % e.part == 0 &&
    powMod e.number 256 e.root (e.number - 1) 1 == 1 &&
    e.factors.all fun f => proven.contains f.1 &&
      Nat.gcd (powMod e.number 256 e.root ((e.number - 1) / f.1) 1 + (e.number - 1)) e.number == 1

/-- What the test checks. -/
structure Passes (proven : List Nat) (e : Certificate) : Prop where
  one_lt : 1 < e.number
  size : e.number < 2 ^ 256
  large : e.number < e.part * e.part
  dvd : e.part ∣ e.number - 1
  full : powMod e.number 256 e.root (e.number - 1) 1 = 1
  factors : ∀ f ∈ e.factors, f.1 ∈ proven ∧
    Nat.gcd (powMod e.number 256 e.root ((e.number - 1) / f.1) 1 + (e.number - 1)) e.number = 1

theorem passes_of_holds {proven : List Nat} {e : Certificate} (h : e.holds proven = true) : e.Passes proven := by
  simp only [holds, Bool.and_eq_true, decide_eq_true_eq, beq_iff_eq, List.all_eq_true, List.contains_iff_mem] at h
  obtain ⟨⟨⟨⟨⟨hone, hsize⟩, hlarge⟩, hdvd⟩, hfull⟩, hfactors⟩ := h
  exact ⟨hone, hsize, hlarge, Nat.dvd_of_mod_eq_zero hdvd, hfull, hfactors⟩

namespace Passes

variable {proven : List Nat} {e : Certificate} {r : Nat}

theorem part_ne_zero (h : e.Passes proven) : e.part ≠ 0 := by
  intro hzero
  have hlarge := h.large
  rw [hzero] at hlarge
  omega

/-- The powers of the test, modulo a factor of the number. -/
theorem cast_power (h : e.Passes proven) (hr : r ∣ e.number) {k : Nat} (hk : k ≤ e.number - 1) :
    (powMod e.number 256 e.root k 1 : ZMod r) = (e.root : ZMod r) ^ k := by
  have hsize := h.size
  rw [cast_powMod hr (by omega), Nat.cast_one, one_mul]

theorem root_pow_eq_one (h : e.Passes proven) (hr : r ∣ e.number) : (e.root : ZMod r) ^ (e.number - 1) = 1 := by
  rw [← h.cast_power hr le_rfl, h.full, Nat.cast_one]

/-- The power to the number less one over a listed prime is not one, or the two numbers that have no factor in common would
both be divided by the prime factor. -/
theorem root_pow_ne_one (h : e.Passes proven) (hr : r ∣ e.number) (hprime : r.Prime) {f : Nat × Nat} (hf : f ∈ e.factors) :
    (e.root : ZMod r) ^ ((e.number - 1) / f.1) ≠ 1 := by
  intro hbad
  have hone := h.one_lt
  have hzero : ((powMod e.number 256 e.root ((e.number - 1) / f.1) 1 + (e.number - 1) : Nat) : ZMod r) = 0 := by
    rw [Nat.cast_add, h.cast_power hr (Nat.div_le_self _ _), hbad, ← Nat.cast_one, ← Nat.cast_add,
      show 1 + (e.number - 1) = e.number by omega]
    exact (ZMod.natCast_eq_zero_iff _ _).mpr hr
  have hgcd := Nat.dvd_gcd ((ZMod.natCast_eq_zero_iff _ _).mp hzero) hr
  rw [(h.factors f hf).2] at hgcd
  exact hprime.one_lt.ne' (Nat.dvd_one.mp hgcd)

/-- The power to the cofactor has the known part as its order. -/
theorem orderOf_root_pow (h : e.Passes proven) (hproven : ∀ q ∈ proven, q.Prime) (hr : r ∣ e.number) (hprime : r.Prime)
    {cofactor : Nat} (hcofactor : e.number - 1 = e.part * cofactor) :
    orderOf ((e.root : ZMod r) ^ cofactor) = e.part := by
  refine orderOf_eq_of_pow_and_pow_div_prime (Nat.pos_of_ne_zero h.part_ne_zero) ?_ fun q hq hqpart => ?_
  · rw [← pow_mul, mul_comm, ← hcofactor, h.root_pow_eq_one hr]
  · -- A prime factor of the known part is one of the primes that are listed.
    obtain ⟨x, hx, hqx⟩ := (Prime.dvd_prod_iff hq.prime).mp hqpart
    obtain ⟨f, hf, rfl⟩ := List.mem_map.mp hx
    obtain rfl : q = f.1 := (Nat.prime_dvd_prime_iff_eq hq (hproven _ (h.factors f hf).1)).mp (hq.dvd_of_dvd_pow hqx)
    rw [← pow_mul, mul_comm, Nat.div_mul_right_comm hqpart, ← hcofactor]
    exact h.root_pow_ne_one hr hprime hf

/-- A prime factor of the number is above the known part, since orders divide it less one. -/
theorem part_lt (h : e.Passes proven) (hproven : ∀ q ∈ proven, q.Prime) (hr : r ∣ e.number) (hprime : r.Prime) :
    e.part < r := by
  have := Fact.mk hprime
  obtain ⟨cofactor, hcofactor⟩ := h.dvd
  have hnonzero : (e.root : ZMod r) ^ cofactor ≠ 0 := by
    intro hzero
    have hpart : (0 : ZMod r) ^ e.part = 1 := by
      rw [← hzero, ← pow_mul, mul_comm, ← hcofactor, h.root_pow_eq_one hr]
    rw [zero_pow h.part_ne_zero] at hpart
    exact zero_ne_one hpart
  have hdvd := ZMod.orderOf_dvd_card_sub_one hnonzero
  rw [h.orderOf_root_pow hproven hr hprime hcofactor] at hdvd
  have hle := Nat.le_of_dvd (Nat.sub_pos_of_lt hprime.one_lt) hdvd
  have hone := hprime.one_lt
  omega

end Passes

/-- A number that passes the test is prime. -/
theorem prime_of_holds {proven : List Nat} {e : Certificate} (hproven : ∀ q ∈ proven, q.Prime) (h : e.holds proven = true) :
    e.number.Prime := by
  have hpasses := passes_of_holds h
  have hone := hpasses.one_lt
  by_contra hnot
  -- The least prime factor of a number that is not prime is at most its root.
  have hsmall := Nat.minFac_sq_le_self (by omega) hnot
  have hbelow := (hpasses.part_lt hproven (Nat.minFac_dvd _) (Nat.minFac_prime (by omega))).le
  have hsquare := Nat.mul_le_mul hbelow hbelow
  have hlarge := hpasses.large
  rw [sq] at hsmall
  omega

/-- Certificates pass the test in order, each after the numbers before it. -/
def hold : List Nat → List Certificate → Bool
  | _, [] => true
  | proven, e :: rest => e.holds proven && hold (e.number :: proven) rest

theorem prime_of_hold {proven : List Nat} {es : List Certificate} (hproven : ∀ q ∈ proven, q.Prime)
    (h : hold proven es = true) : ∀ n ∈ es.map (·.number), n.Prime := by
  induction es generalizing proven with
  | nil => simp
  | cons e rest ih =>
    obtain ⟨hfirst, hrest⟩ := (Bool.and_eq_true _ _).mp h
    have he := prime_of_holds hproven hfirst
    exact List.forall_mem_cons.mpr ⟨he, ih (List.forall_mem_cons.mpr ⟨he, hproven⟩) hrest⟩

end Certificate

/-! ## 3. The field and the group -/

/-- The small primes that the certificates start from. -/
def smallPrimes : List Nat := [2, 5, 53, 101, 113, 419, 1409, 1871, 9349]

theorem prime_of_mem_smallPrimes : ∀ q ∈ smallPrimes, q.Prime := by
  simp only [smallPrimes, List.forall_mem_cons]
  norm_num

/-- The certificates for the number of elements of the field, and then for the order of the group. -/
def certificates : List Certificate :=
  [⟨20113, 10, [(419, 1)]⟩,
   ⟨1206781, 10, [(20113, 1)]⟩,
   ⟨7240687, 3, [(1206781, 1)]⟩,
   ⟨107590001, 3, [(5, 4), (53, 1)]⟩,
   ⟨96557, 2, [(2, 2), (101, 1)]⟩,
   ⟨255515944373312847190720520512484175977, 3, [(107590001, 1), (7240687, 1), (96557, 1)]⟩,
   ⟨205115282021455665897114700593932402728804164701536103180137503955397371, 10,
     [(255515944373312847190720520512484175977, 1)]⟩,
   ⟨p, 3, [(205115282021455665897114700593932402728804164701536103180137503955397371, 1)]⟩,
   ⟨1627771, 3, [(1871, 1)]⟩,
   ⟨297159362677, 2, [(1627771, 1)]⟩,
   ⟨28181, 2, [(1409, 1)]⟩,
   ⟨545358713, 5, [(28181, 1)]⟩,
   ⟨29047611873442575647497758179, 2, [(297159362677, 1), (545358713, 1)]⟩,
   ⟨341948486974166000522343609283189, 2, [(29047611873442575647497758179, 1)]⟩,
   ⟨44706919, 6, [(9349, 1)]⟩,
   ⟨120233, 3, [(2, 3), (113, 1)]⟩,
   ⟨174723607534414371449, 3, [(44706919, 1), (120233, 1)]⟩,
   ⟨order, 7, [(341948486974166000522343609283189, 1), (174723607534414371449, 1)]⟩]

theorem prime_of_mem_certificates : ∀ n ∈ certificates.map (·.number), n.Prime :=
  Certificate.prime_of_hold prime_of_mem_smallPrimes (by decide +kernel)

theorem prime_p : p.Prime := prime_of_mem_certificates p (by simp [certificates])

theorem prime_order : order.Prime := prime_of_mem_certificates order (by simp [certificates])

end ContractShell.Secp256k1
