import ContractShell.Number.Decimal
import Mathlib.Data.Int.Log
import Mathlib.Data.Rat.Floor
import Mathlib.Tactic.FieldSimp
import Mathlib.Tactic.Linarith

/-!
What decimal arithmetic computes, as rational numbers.

An operation gives the exact result rounded to the working context: the nearest number with as many digits as the context
has, of two that are equally near the even one.

## Main statements

* `roundedShift_eq`: dropping digits is rounding to the nearest integer.
* `finish_eq`: bringing a number into the context rounds it, or overflows.
* `isIntegral_iff`, `toInt_of_value`: which numbers are whole ones, and which integers they are.
-/

namespace ContractShell.Decimal

/-! ## 1. Values -/

/-- The number itself. -/
def value (d : Decimal) : ℚ := (if d.negative then -1 else 1) * (d.coefficient * 10 ^ d.exponent)

/-- The nearest integer; of two that are equally near, the even one. -/
def halfEven (x : ℚ) : ℤ :=
  if Int.fract x < 1 / 2 then ⌊x⌋
  else if 1 / 2 < Int.fract x then ⌊x⌋ + 1
  else if Even ⌊x⌋ then ⌊x⌋
  else ⌊x⌋ + 1

/-- The place of the last digit that the context keeps of a number. -/
def lastPlace (x : ℚ) : ℤ := max tiny (Int.log 10 x - (precision - 1))

/-- A number rounded to the context, which knows no greatest number here. -/
def contextual (x : ℚ) : ℚ := halfEven (x / 10 ^ lastPlace x) * 10 ^ lastPlace x

theorem value_mk (c : ℕ) (e : ℤ) : value ⟨false, c, e⟩ = c * 10 ^ e := by
  unfold value
  rw [if_neg Bool.false_ne_true, one_mul]

theorem value_of_nonneg {d : Decimal} (h : d.negative = false) : d.value = d.coefficient * 10 ^ d.exponent := by
  rw [← value_mk, ← h]

theorem ten_zpow_pos (m : ℤ) : (0 : ℚ) < 10 ^ m := zpow_pos (by norm_num) m

theorem zpow_split (m n : ℤ) : (10 : ℚ) ^ m = 10 ^ (m - n) * 10 ^ n := by
  rw [← zpow_add₀ (by norm_num), sub_add_cancel]

/-- A power of ten with a natural exponent is a natural number. -/
theorem zpow_toNat {m : ℤ} (h : 0 ≤ m) : (10 : ℚ) ^ m = ((10 ^ m.toNat : ℕ) : ℚ) := by
  rw [Nat.cast_pow, Nat.cast_ofNat, ← zpow_natCast, Int.toNat_of_nonneg h]

theorem intCast_pow_toNat {m : ℤ} (h : 0 ≤ m) : (((10 ^ m.toNat : ℕ) : ℤ) : ℚ) = 10 ^ m := by
  rw [zpow_toNat h, Int.cast_natCast]

/-! ## 2. Digits -/

theorem lt_pow_digitCount (n : ℕ) : n < 10 ^ digitCount n :=
  (Nat.length_toDigits_le_iff (by decide) Nat.length_toDigits_pos).mp (Nat.le_refl _)

theorem digitCount_le_iff {n k : ℕ} (hk : 0 < k) : digitCount n ≤ k ↔ n < 10 ^ k :=
  Nat.length_toDigits_le_iff (by decide) hk

theorem pow_le_of_lt_digitCount {n k : ℕ} (hk : 0 < k) (h : k < digitCount n) : 10 ^ k ≤ n :=
  Nat.le_of_not_lt fun hlt => absurd ((digitCount_le_iff hk).mpr hlt) (Nat.not_le.mpr h)

theorem digitCount_pos (n : ℕ) : 0 < digitCount n := Nat.length_toDigits_pos

/-- The place of the first digit is the logarithm. -/
theorem log_eq_adjusted {n : ℕ} (hn : n ≠ 0) (e : ℤ) : Int.log 10 ((n : ℚ) * 10 ^ e) = e + digitCount n - 1 := by
  have hpos : (0 : ℚ) < n := Nat.cast_pos.mpr (Nat.pos_of_ne_zero hn)
  have hx : (0 : ℚ) < n * 10 ^ e := mul_pos hpos (ten_zpow_pos e)
  have hcount := digitCount_pos n
  apply le_antisymm
  · have hlt : (n : ℚ) * 10 ^ e < ((10 : ℕ) : ℚ) ^ (e + digitCount n) := by
      have hnat : (n : ℚ) < 10 ^ (digitCount n : ℤ) := by
        rw [zpow_natCast]
        exact_mod_cast lt_pow_digitCount n
      rw [Nat.cast_ofNat, zpow_add₀ (by norm_num), mul_comm ((10 : ℚ) ^ e)]
      exact mul_lt_mul_of_pos_right hnat (ten_zpow_pos e)
    have hlog := (Int.lt_zpow_iff_log_lt (by decide) hx).mp hlt
    omega
  · apply (Int.zpow_le_iff_le_log (by decide) hx).mp
    have hnat : (10 : ℚ) ^ ((digitCount n : ℤ) - 1) ≤ n := by
      have hcast : ((digitCount n : ℤ) - 1) = ((digitCount n - 1 : ℕ) : ℤ) := by omega
      rw [hcast, zpow_natCast]
      by_cases hone : digitCount n = 1
      · rw [hone]
        exact_mod_cast Nat.pos_of_ne_zero hn
      · exact_mod_cast pow_le_of_lt_digitCount (by omega) (by omega)
    rw [Nat.cast_ofNat, show e + (digitCount n : ℤ) - 1 = (digitCount n : ℤ) - 1 + e by ring, zpow_add₀ (by norm_num)]
    exact mul_le_mul_of_nonneg_right hnat (ten_zpow_pos e).le

/-- A power of ten is reached just when the first digit is at its place or further up. -/
theorem zpow_le_iff {n : ℕ} (hn : n ≠ 0) (e m : ℤ) : 10 ^ m ≤ (n : ℚ) * 10 ^ e ↔ m ≤ e + digitCount n - 1 := by
  have hpos : (0 : ℚ) < n * 10 ^ e := mul_pos (Nat.cast_pos.mpr (Nat.pos_of_ne_zero hn)) (ten_zpow_pos e)
  have hpower := Int.zpow_le_iff_le_log (by decide : 1 < 10) hpos (x := m)
  rw [Nat.cast_ofNat, log_eq_adjusted hn] at hpower
  exact hpower

/-! ## 3. Rounding -/

theorem halfEven_intCast (n : ℤ) : halfEven n = n := by
  unfold halfEven
  rw [Int.fract_intCast, if_pos (by norm_num), Int.floor_intCast]

theorem floor_le_halfEven (x : ℚ) : ⌊x⌋ ≤ halfEven x := by
  unfold halfEven
  split
  · exact Int.le_refl _
  · split
    · omega
    · split <;> omega

/-- Rounding does not pass an integer. -/
theorem halfEven_le {x : ℚ} {n : ℤ} (h : x ≤ n) : halfEven x ≤ n := by
  have hfract := Int.fract_add_floor x
  by_cases hsmall : Int.fract x = 0
  · have hx : x = ⌊x⌋ := by linarith
    rw [hx, halfEven_intCast]
    rw [hx] at h
    exact_mod_cast h
  · have hpos : 0 < Int.fract x := lt_of_le_of_ne (Int.fract_nonneg x) (Ne.symm hsmall)
    -- The floor is below the number, and so it is below the integer by one at least.
    have hfloor : ⌊x⌋ + 1 ≤ n := by
      have hlt : (⌊x⌋ : ℚ) < n := by linarith
      have hint : ⌊x⌋ < n := by exact_mod_cast hlt
      omega
    unfold halfEven
    split
    · omega
    · split
      · exact hfloor
      · split <;> omega

/-- Dropping digits is rounding to the nearest integer. -/
theorem roundedShift_eq (n k : ℕ) : (roundedShift n k : ℤ) = halfEven ((n : ℚ) / 10 ^ k) := by
  have hunit : 0 < 10 ^ k := Nat.pow_pos (by decide)
  have hq : (0 : ℚ) < ((10 ^ k : ℕ) : ℚ) := Nat.cast_pos.mpr hunit
  have hfloor : ⌊(n : ℚ) / ((10 ^ k : ℕ) : ℚ)⌋ = ((n / 10 ^ k : ℕ) : ℤ) := Rat.floor_natCast_div_natCast n (10 ^ k)
  have hfract : Int.fract ((n : ℚ) / ((10 ^ k : ℕ) : ℚ)) = ((n % 10 ^ k : ℕ) : ℚ) / ((10 ^ k : ℕ) : ℚ) := by
    have hsum : ((10 ^ k : ℕ) : ℚ) * ((n / 10 ^ k : ℕ) : ℚ) + ((n % 10 ^ k : ℕ) : ℚ) = n := by
      exact_mod_cast Nat.div_add_mod n (10 ^ k)
    unfold Int.fract
    rw [hfloor, Int.cast_natCast, eq_div_iff hq.ne', sub_mul, div_mul_cancel₀ _ hq.ne']
    linarith
  have hlt : ∀ m : ℕ, (m : ℚ) / ((10 ^ k : ℕ) : ℚ) < 1 / 2 ↔ 2 * m < 10 ^ k := by
    intro m
    rw [div_lt_div_iff₀ hq (by norm_num), one_mul, mul_comm]
    exact_mod_cast Iff.rfl
  have hgt : ∀ m : ℕ, 1 / 2 < (m : ℚ) / ((10 ^ k : ℕ) : ℚ) ↔ 10 ^ k < 2 * m := by
    intro m
    rw [div_lt_div_iff₀ (by norm_num) hq, one_mul, mul_comm]
    exact_mod_cast Iff.rfl
  have hcast : (10 : ℚ) ^ k = ((10 ^ k : ℕ) : ℚ) := by push_cast; rfl
  unfold roundedShift halfEven
  rw [hcast, hfloor, hfract]
  simp only [hlt, hgt]
  have hdef : Nat.pow 10 k = 10 ^ k := rfl
  by_cases hfew : digitCount n < k
  · -- With fewer digits than are dropped, the number is below a tenth.
    have hsmall : n < 10 ^ (k - 1) := (digitCount_le_iff (by have := digitCount_pos n; omega)).mp (by omega)
    have hpow : 10 ^ k = 10 * 10 ^ (k - 1) := by rw [← Nat.pow_succ', show (k - 1).succ = k by omega]
    have hdiv : n / 10 ^ k = 0 := Nat.div_eq_of_lt (by omega)
    have hmod : n % 10 ^ k = n := Nat.mod_eq_of_lt (by omega)
    rw [if_pos hfew, hdiv, hmod, if_pos (by omega)]
  · rw [if_neg hfew]
    simp only [hdef, Int.even_coe_nat, Nat.even_iff]
    split
    · rfl
    · split
      · push_cast
        rfl
      · split
        · rfl
        · push_cast
          rfl

/-- Dropping the last digits of a number is rounding at their place. -/
theorem roundedShift_eq_div (n k : ℕ) (e : ℤ) : (roundedShift n k : ℤ) = halfEven ((n : ℚ) * 10 ^ e / 10 ^ (e + k)) := by
  have hshift : (n : ℚ) * 10 ^ e / 10 ^ (e + (k : ℤ)) = n / 10 ^ k := by
    rw [zpow_add₀ (by norm_num), zpow_natCast]
    have hpos := ten_zpow_pos e
    field_simp
  rw [hshift, roundedShift_eq]

/-! ## 4. The context -/

theorem contextual_zero : contextual 0 = 0 := by
  have hzero := halfEven_intCast 0
  rw [Int.cast_zero] at hzero
  unfold contextual
  rw [zero_div, hzero, Int.cast_zero, zero_mul]

/-- A number without digits behind the last place that is kept stays as it is. -/
theorem contextual_of_le {n : ℕ} {e : ℤ} (h : lastPlace (n * 10 ^ e) ≤ e) :
    contextual (n * 10 ^ e) = n * 10 ^ e := by
  unfold contextual
  generalize lastPlace (n * 10 ^ e) = p at *
  have hpos := ten_zpow_pos p
  have hcast : (n : ℚ) * 10 ^ e / 10 ^ p = ((n * 10 ^ (e - p).toNat : ℕ) : ℤ) := by
    rw [zpow_split e p, zpow_toNat (by omega), ← mul_assoc, mul_div_cancel_right₀ _ hpos.ne']
    push_cast
    rfl
  rw [hcast, halfEven_intCast, ← hcast, div_mul_cancel₀ _ hpos.ne']

section

variable {x : ℚ} {m : ℤ}

/-- A power of ten that is kept is not passed from above. -/
theorem le_contextual (hm : lastPlace x ≤ m) (h : 10 ^ m ≤ x) : 10 ^ m ≤ contextual x := by
  unfold contextual
  generalize lastPlace x = p at *
  have hpos := ten_zpow_pos p
  have hint := @intCast_pow_toNat (m - p) (by omega)
  have hfloor : ((10 ^ (m - p).toNat : ℕ) : ℤ) ≤ ⌊x / 10 ^ p⌋ := by
    apply Int.le_floor.mpr
    rw [hint, le_div_iff₀ hpos, ← zpow_split]
    exact h
  have hround : (10 : ℚ) ^ (m - p) ≤ halfEven (x / 10 ^ p) := by
    rw [← hint]
    exact_mod_cast hfloor.trans (floor_le_halfEven _)
  rw [zpow_split m p]
  exact mul_le_mul_of_nonneg_right hround hpos.le

/-- A power of ten that is kept is not passed from below. -/
theorem contextual_le (hm : lastPlace x ≤ m) (h : x ≤ 10 ^ m) : contextual x ≤ 10 ^ m := by
  unfold contextual
  generalize lastPlace x = p at *
  have hpos := ten_zpow_pos p
  have hint := @intCast_pow_toNat (m - p) (by omega)
  have hround : (halfEven (x / 10 ^ p) : ℚ) ≤ 10 ^ (m - p) := by
    rw [← hint]
    refine Int.cast_le.mpr (halfEven_le ?_)
    rw [hint, div_le_iff₀ hpos, ← zpow_split]
    exact h
  rw [zpow_split m p]
  exact mul_le_mul_of_nonneg_right hround hpos.le

end

theorem lastPlace_eq {n : ℕ} (hn : n ≠ 0) (e : ℤ) :
    lastPlace (n * 10 ^ e) = max tiny (e + digitCount n - precision) := by
  rw [lastPlace, log_eq_adjusted hn]
  congr 1
  ring

/-- A number is rounded to the context by dropping the digits behind the last place. -/
theorem contextual_eq_roundedShift {n k : ℕ} {e : ℤ} (h : lastPlace (n * 10 ^ e) = e + k) :
    contextual (n * 10 ^ e) = roundedShift n k * 10 ^ (e + k) := by
  unfold contextual
  rw [h, ← roundedShift_eq_div]
  rfl

/-- A number lies between the powers of ten at its first digit and above it, and so does the rounded number. -/
theorem contextual_between {n : ℕ} (hn : n ≠ 0) {e : ℤ} (htiny : tiny ≤ e + digitCount n - 1) :
    10 ^ (e + digitCount n - 1) ≤ contextual (n * 10 ^ e) ∧ contextual (n * 10 ^ e) ≤ 10 ^ (e + digitCount n) := by
  have hlast : lastPlace (n * 10 ^ e) ≤ e + digitCount n - 1 := by
    rw [lastPlace_eq hn]
    unfold precision
    omega
  have hlow := (zpow_le_iff hn e (e + digitCount n - 1)).mpr (Int.le_refl _)
  have hhigh := (zpow_le_iff hn e (e + digitCount n)).not.mpr (by omega)
  exact ⟨le_contextual hlast hlow, contextual_le (by omega) (not_le.mp hhigh).le⟩

/-- A rounded coefficient has as many digits as are kept, or is the next power of ten. -/
theorem roundedShift_between {n k : ℕ} (hk : digitCount n = k + precision) :
    10 ^ (precision - 1) ≤ roundedShift n k ∧ roundedShift n k ≤ 10 ^ precision := by
  have hne : n ≠ 0 := by
    rintro rfl
    have hone : digitCount 0 = 1 := by decide
    unfold precision at hk
    omega
  have hplace : lastPlace (n * 10 ^ (0 : ℤ)) = 0 + k := by
    rw [lastPlace_eq hne, hk]
    unfold tiny minExponent precision
    omega
  obtain ⟨hlow, hhigh⟩ := @contextual_between n hne 0 (by unfold tiny minExponent precision; omega)
  have hbelow : (0 : ℤ) + ((k + precision : ℕ) : ℤ) - 1 = ((precision - 1 : ℕ) : ℤ) + (0 + k) := by
    unfold precision
    omega
  have habove : (0 : ℤ) + ((k + precision : ℕ) : ℤ) = (precision : ℤ) + (0 + k) := by omega
  rw [hk, hbelow, zpow_add₀ (by norm_num), zpow_natCast, contextual_eq_roundedShift hplace] at hlow
  rw [hk, habove, zpow_add₀ (by norm_num), zpow_natCast, contextual_eq_roundedShift hplace] at hhigh
  have hpos := ten_zpow_pos (0 + k)
  constructor
  · exact_mod_cast le_of_mul_le_mul_right hlow hpos
  · exact_mod_cast le_of_mul_le_mul_right hhigh hpos

/-- What rounding to the context's number of digits gives, for a number without digits below the least place. -/
theorem value_rounded {d : Decimal} (hsign : d.negative = false) (hne : d.coefficient ≠ 0)
    (htiny : tiny ≤ d.exponent ∨ minExponent ≤ d.adjusted) :
    (rounded d).negative = false ∧ (rounded d).coefficient ≠ 0 ∧ (rounded d).value = contextual d.value := by
  have hlast := lastPlace_eq hne d.exponent
  rw [value_of_nonneg hsign]
  unfold adjusted at htiny
  unfold rounded
  by_cases hshort : digitCount d.coefficient ≤ precision
  · rw [if_pos hshort]
    refine ⟨hsign, hne, ?_⟩
    rw [value_of_nonneg hsign, contextual_of_le]
    rw [hlast]
    unfold tiny precision at *
    omega
  · rw [if_neg hshort]
    obtain ⟨k, hk⟩ : ∃ k, digitCount d.coefficient = k + precision :=
      ⟨_, (Nat.sub_add_cancel (Nat.le_of_not_le hshort)).symm⟩
    rw [hk, Nat.add_sub_cancel]
    have hplace : lastPlace (d.coefficient * 10 ^ d.exponent) = d.exponent + k := by
      rw [hlast, hk]
      unfold tiny precision at *
      omega
    rw [contextual_eq_roundedShift hplace]
    obtain ⟨hlow, hhigh⟩ := roundedShift_between hk
    have hone : 0 < 10 ^ (precision - 1) := Nat.pow_pos (by decide)
    by_cases hfits : digitCount (roundedShift d.coefficient k) ≤ precision
    · rw [if_pos hfits]
      refine ⟨hsign, Nat.ne_of_gt (Nat.lt_of_lt_of_le hone hlow), ?_⟩
      rw [hsign, value_mk]
    · rw [if_neg hfits]
      -- The rounding carried into a new digit, so the last one is a zero.
      have htop : roundedShift d.coefficient k = 10 ^ precision :=
        Nat.le_antisymm hhigh (pow_le_of_lt_digitCount (by decide) (Nat.lt_of_not_le hfits))
      have hdiv : 10 ^ precision / 10 = 10 ^ (precision - 1) := by decide
      have hsucc : (10 : ℚ) ^ precision = 10 ^ (precision - 1) * 10 := pow_succ 10 (precision - 1)
      simp only [htop, hdiv]
      refine ⟨hsign, Nat.ne_of_gt hone, ?_⟩
      rw [hsign, value_mk, zpow_add_one₀ (by norm_num)]
      push_cast
      rw [hsucc]
      ring

section

variable {d : Decimal}

/-- A number with its first digit too far up stays too large. -/
theorem contextual_of_large (hne : d.coefficient ≠ 0) (hlarge : maxExponent < d.adjusted) :
    10 ^ (maxExponent + 1) ≤ contextual (d.coefficient * 10 ^ d.exponent) := by
  unfold adjusted at hlarge
  have hlow := (@contextual_between _ hne d.exponent (by unfold tiny minExponent precision maxExponent at *; omega)).1
  refine le_trans ?_ hlow
  exact zpow_le_zpow_right₀ (by norm_num) (by omega)

/-- A number with digits below the least place loses them, and is far from too large. -/
theorem contextual_of_small (hne : d.coefficient ≠ 0) (hsmall : d.adjusted < minExponent) {k : ℕ}
    (hk : tiny = d.exponent + k) :
    contextual (d.coefficient * 10 ^ d.exponent) = roundedShift d.coefficient k * 10 ^ tiny ∧
      contextual (d.coefficient * 10 ^ d.exponent) < 10 ^ (maxExponent + 1) := by
  unfold adjusted at hsmall
  have hplace : lastPlace (d.coefficient * 10 ^ d.exponent) = d.exponent + k := by
    rw [lastPlace_eq hne, ← hk]
    unfold tiny precision
    omega
  constructor
  · rw [contextual_eq_roundedShift hplace, ← hk]
  · have hbelow : (d.coefficient : ℚ) * 10 ^ d.exponent ≤ 10 ^ maxExponent := by
      have habove := (zpow_le_iff hne d.exponent maxExponent).not.mpr (by unfold minExponent maxExponent at *; omega)
      exact (not_le.mp habove).le
    have hkept : contextual (d.coefficient * 10 ^ d.exponent) ≤ 10 ^ maxExponent := by
      apply contextual_le _ hbelow
      rw [hplace, ← hk]
      decide
    exact lt_of_le_of_lt hkept (zpow_lt_zpow_right₀ (by norm_num) (by omega))

/-- Bringing a number into the context rounds it, unless the rounded number is too large. -/
theorem finish_eq (hsign : d.negative = false) :
    (10 ^ (maxExponent + 1) ≤ contextual d.value → finish d = .error .overflow) ∧
      (contextual d.value < 10 ^ (maxExponent + 1) →
        ∃ r, finish d = .ok r ∧ r.negative = false ∧ r.value = contextual d.value) := by
  rw [value_of_nonneg hsign]
  unfold finish
  by_cases hzero : d.coefficient = 0
  · rw [if_pos hzero, hzero, Nat.cast_zero, zero_mul, contextual_zero]
    constructor
    · intro h
      exact absurd h (not_le.mpr (ten_zpow_pos _))
    · intro _
      refine ⟨_, rfl, hsign, ?_⟩
      rw [hsign, value_mk, Nat.cast_zero, zero_mul]
  · rw [if_neg hzero]
    by_cases hlarge : maxExponent < d.adjusted
    · rw [if_pos hlarge]
      exact ⟨fun _ => rfl, fun h => absurd (contextual_of_large hzero hlarge) (not_le.mpr h)⟩
    · rw [if_neg hlarge]
      by_cases hsmall : d.adjusted < minExponent ∧ d.exponent < tiny
      · rw [if_pos hsmall]
        obtain ⟨k, hk⟩ : ∃ k : ℕ, tiny = d.exponent + k := ⟨(tiny - d.exponent).toNat, by omega⟩
        obtain ⟨hvalue, hfits⟩ := contextual_of_small hzero hsmall.1 hk
        refine ⟨fun h => absurd h (not_le.mpr hfits), fun _ => ⟨_, rfl, hsign, ?_⟩⟩
        rw [show (tiny - d.exponent).toNat = k by omega, hsign, value_mk, hvalue]
      · rw [if_neg hsmall]
        obtain ⟨hnonneg, hne, hrounded⟩ := value_rounded hsign hzero (by unfold adjusted at *; omega)
        -- A carry into a new digit can make the rounded number too large.
        have htop : maxExponent < (rounded d).adjusted ↔ 10 ^ (maxExponent + 1) ≤ (rounded d).value := by
          rw [value_of_nonneg hnonneg, zpow_le_iff hne]
          unfold adjusted
          omega
        rw [value_of_nonneg hsign] at hrounded
        rw [hrounded] at htop
        constructor
        · intro h
          simp only [if_pos (htop.mpr h)]
        · intro h
          simp only [if_neg (htop.not.mpr (not_le.mpr h))]
          exact ⟨_, rfl, hnonneg, hrounded⟩

end

/-- A number that is in the context already is not changed. -/
theorem finish_of_short {d : Decimal} (hshort : d.coefficient < 10 ^ precision) (hlow : tiny ≤ d.exponent)
    (hhigh : d.exponent + precision ≤ maxExponent) : finish d = .ok d := by
  have hdigits := (digitCount_le_iff (by decide)).mpr hshort
  have hexponent : ¬ maxExponent < d.exponent := by
    unfold precision at hhigh
    omega
  have hadjusted : ¬ maxExponent < d.adjusted := by
    unfold adjusted
    omega
  have hrounded : rounded d = d := if_pos hdigits
  unfold finish
  by_cases hzero : d.coefficient = 0
  · rw [if_pos hzero, if_neg hexponent, if_neg (not_lt.mpr hlow)]
  · rw [if_neg hzero, if_neg hadjusted, if_neg fun h => not_lt.mpr hlow h.2, hrounded]
    exact if_neg hadjusted

/-- Scaling moves the point of a number that has few digits, and does not change its digits. -/
theorem scale_of_short {d : Decimal} {power : ℤ} (hshort : d.coefficient < 10 ^ precision)
    (hpower : power.natAbs ≤ maxExponent.toNat) (hlow : tiny ≤ d.exponent + power)
    (hhigh : d.exponent + power + precision ≤ maxExponent) :
    d.scale power = .ok { d with exponent := d.exponent + power } := by
  unfold scale
  rw [if_neg (by omega)]
  exact finish_of_short hshort hlow hhigh

/-! ## 5. Integers -/

/-- A number with digits after the point is an integer just when these digits are zeros. -/
theorem eq_intCast_iff {n : ℕ} {e : ℤ} (he : e < 0) (m : ℤ) :
    (n : ℚ) * 10 ^ e = m ↔ (n : ℤ) = m * (10 ^ (-e).toNat : ℕ) := by
  have hpos : (0 : ℚ) < ((10 ^ (-e).toNat : ℕ) : ℚ) := Nat.cast_pos.mpr (Nat.pow_pos (by decide))
  have hinverse : (10 : ℚ) ^ e = (((10 ^ (-e).toNat : ℕ) : ℚ))⁻¹ := by
    rw [← zpow_toNat (by omega), zpow_neg, inv_inv]
  rw [hinverse, ← div_eq_mul_inv, div_eq_iff hpos.ne']
  exact_mod_cast Iff.rfl

/-- A number is found to be whole just when it is an integer. -/
theorem isIntegral_iff {d : Decimal} (hsign : d.negative = false) : d.isIntegral = true ↔ ∃ n : ℤ, d.value = n := by
  rw [value_of_nonneg hsign]
  unfold isIntegral
  simp only [Bool.or_eq_true, Bool.and_eq_true, decide_eq_true_eq]
  by_cases hexp : 0 ≤ d.exponent
  · have hwhole : ∃ n : ℤ, (d.coefficient : ℚ) * 10 ^ d.exponent = n := by
      refine ⟨((d.coefficient * 10 ^ d.exponent.toNat : ℕ) : ℤ), ?_⟩
      rw [zpow_toNat hexp]
      push_cast
      rfl
    exact ⟨fun _ => hwhole, fun _ => .inl (.inl hexp)⟩
  · simp only [eq_intCast_iff (not_le.mp hexp)]
    constructor
    · rintro ((h | hzero) | ⟨-, hmod⟩)
      · exact absurd h hexp
      · exact ⟨0, by rw [hzero, Int.natCast_zero, zero_mul]⟩
      · refine ⟨((d.coefficient / 10 ^ (-d.exponent).toNat : ℕ) : ℤ), ?_⟩
        exact_mod_cast (Nat.div_mul_cancel (Nat.dvd_of_mod_eq_zero hmod)).symm
    · rintro ⟨n, hn⟩
      by_cases hzero : d.coefficient = 0
      · exact .inl (.inr hzero)
      · have hdvd : 10 ^ (-d.exponent).toNat ∣ d.coefficient := by
          exact_mod_cast Dvd.intro_left n hn.symm
        -- A multiple of a power of ten has more digits than the power has zeros.
        have hdigits : (-d.exponent).toNat ≤ digitCount d.coefficient := by
          by_contra hfew
          have hless := (digitCount_le_iff (by omega)).mp (Nat.le_of_lt (Nat.lt_of_not_le hfew))
          exact absurd (Nat.le_of_dvd (Nat.pos_of_ne_zero hzero) hdvd) (Nat.not_le.mpr hless)
        exact .inr ⟨hdigits, Nat.mod_eq_zero_of_dvd hdvd⟩

/-- The integer that a whole number is. -/
theorem toInt_of_value {d : Decimal} (hsign : d.negative = false) {n : ℤ} (h : d.value = n) : d.toInt = n := by
  rw [value_of_nonneg hsign] at h
  unfold toInt
  rw [hsign]
  simp only [Bool.false_eq_true, if_false]
  by_cases hzero : d.coefficient = 0
  · rw [if_pos hzero]
    rw [hzero, Nat.cast_zero, zero_mul] at h
    exact_mod_cast h
  · rw [if_neg hzero]
    by_cases hexp : 0 ≤ d.exponent
    · rw [if_pos hexp]
      rw [zpow_toNat hexp] at h
      exact_mod_cast h
    · rw [if_neg hexp]
      have hn := (eq_intCast_iff (not_le.mp hexp) n).mp h
      have hpos : (0 : ℤ) < (10 ^ (-d.exponent).toNat : ℕ) := Int.natCast_pos.mpr (Nat.pow_pos (by decide))
      show ((d.coefficient / 10 ^ (-d.exponent).toNat : ℕ) : ℤ) = n
      rw [Int.natCast_ediv, hn, Int.mul_ediv_cancel _ hpos.ne']

end ContractShell.Decimal
