import ContractShell.Proofs.Token.Amount

/-!
Base units as people see them, and typed back.

Base units that decimal arithmetic keeps all digits of are shown as the decimal expansion of their amount, with every place
of the token. What is shown is an amount in the sense of a command line, and becomes the same base units.

## Main statements

* `withPoint_toDigits`: the digits of a number with its last places behind the point.
* `ofText?_expansion`: the number that is read from an expansion.
* `text_and_toUnits`: what base units are shown as, and what becomes of it.
-/

namespace ContractShell.Amount

/-! ## 1. Expansions -/

/-- The last digits of a number, as many as there are places. -/
def lastDigits (n places : ℕ) : List Char :=
  (List.range places).map fun i => Nat.digitChar (n / 10 ^ (places - 1 - i) % 10)

/-- The decimal expansion of a number over a power of ten, with as many digits after the point as the power has zeros. -/
def expansion (n places : ℕ) : String :=
  String.ofList (Nat.toDigits 10 (n / 10 ^ places) ++ if places = 0 then [] else '.' :: lastDigits n places)

theorem length_lastDigits (n places : ℕ) : (lastDigits n places).length = places := by
  rw [lastDigits, List.length_map, List.length_range]

theorem lastDigits_succ (n places : ℕ) :
    lastDigits n (places + 1) = lastDigits (n / 10) places ++ [Nat.digitChar (n % 10)] := by
  unfold lastDigits
  rw [List.range_succ, List.map_append, List.map_singleton]
  congr 1
  · refine List.map_congr_left fun i hi => ?_
    have hplace : places + 1 - 1 - i = (places - 1 - i) + 1 := by
      have hlt := List.mem_range.mp hi
      omega
    rw [hplace, Nat.pow_succ', ← Nat.div_div_eq_div_mul]
  · rw [Nat.add_sub_cancel, Nat.sub_self, Nat.pow_zero, Nat.div_one]

/-- The digits of a number, filled up with zeros in front to one more than there are places. -/
theorem replicate_toDigits (n places : ℕ) :
    List.replicate (places + 1 - (Nat.toDigits 10 n).length) '0' ++ Nat.toDigits 10 n =
      Nat.toDigits 10 (n / 10 ^ places) ++ lastDigits n places := by
  -- The last digit is split off, and with it one place.
  induction places generalizing n with
  | zero =>
    have hsome : 0 < (Nat.toDigits 10 n).length := Nat.length_toDigits_pos
    have hnone : lastDigits n 0 = [] := rfl
    rw [hnone, List.append_nil, Nat.pow_zero, Nat.div_one, show 0 + 1 - (Nat.toDigits 10 n).length = 0 by omega]
    rfl
  | succ places ih =>
    rw [lastDigits_succ, Nat.pow_succ', ← Nat.div_div_eq_div_mul, ← List.append_assoc, ← ih (n / 10)]
    by_cases hn : n < 10
    · rw [Nat.toDigits_of_lt_base hn, Nat.div_eq_of_lt hn, Nat.mod_eq_of_lt hn]
      have hzero : Nat.toDigits 10 0 = ['0'] := rfl
      rw [hzero, List.length_singleton, List.length_singleton, Nat.add_sub_cancel, Nat.add_sub_cancel,
        List.replicate_succ']
    · rw [Nat.toDigits_of_base_le (by decide) (Nat.not_lt.mp hn), List.length_append, List.length_singleton,
        Nat.add_sub_add_right, List.append_assoc]

/-- The digits of a number with its last places behind the point. -/
theorem withPoint_toDigits (n places : ℕ) :
    String.ofList (Decimal.withPoint (Nat.toDigits 10 n) places) = expansion n places := by
  unfold Decimal.withPoint expansion
  rw [replicate_toDigits]
  by_cases hplaces : places = 0
  · rw [if_pos hplaces, if_pos hplaces, hplaces]
    rfl
  · have hfront : (Nat.toDigits 10 (n / 10 ^ places) ++ lastDigits n places).length - places =
        (Nat.toDigits 10 (n / 10 ^ places)).length := by
      rw [List.length_append, length_lastDigits, Nat.add_sub_cancel]
    rw [if_neg hplaces, if_neg hplaces]
    simp only [hfront, List.take_left, List.drop_left]

/-! ## 2. Reading -/

theorem digit_digitChar {d : ℕ} (h : d < 10) : digit (Nat.digitChar d) = d := by
  have hall : ∀ d : Fin 10, digit (Nat.digitChar d.val) = d.val := by decide
  exact hall ⟨d, h⟩

theorem ofDigits_append_digitChar (s : List Char) {d : ℕ} (h : d < 10) :
    ofDigits (s ++ [Nat.digitChar d]) = ofDigits s * 10 + d := by
  have hlast : ofDigits [Nat.digitChar d] = digit (Nat.digitChar d) := Nat.ofDigits_singleton
  rw [ofDigits_append, List.length_singleton, Nat.pow_one, hlast, digit_digitChar h]

theorem ofDigits_toDigits (n : ℕ) : ofDigits (Nat.toDigits 10 n) = n := by
  induction n using Nat.strongRecOn with
  | _ n ih =>
    by_cases hn : n < 10
    · rw [Nat.toDigits_of_lt_base hn, ← List.nil_append [Nat.digitChar n], ofDigits_append_digitChar [] hn]
      exact Nat.zero_add n
    · rw [Nat.toDigits_of_base_le (by decide) (Nat.not_lt.mp hn),
        ofDigits_append_digitChar _ (Nat.mod_lt n (by decide)), ih _ (Nat.div_lt_self (by omega) (by decide))]
      omega

theorem ofDigits_lastDigits (n places : ℕ) : ofDigits (lastDigits n places) = n % 10 ^ places := by
  induction places generalizing n with
  | zero =>
    rw [Nat.pow_zero, Nat.mod_one]
    rfl
  | succ places ih =>
    rw [lastDigits_succ, ofDigits_append_digitChar _ (Nat.mod_lt n (by decide)), ih, Nat.pow_succ', Nat.mod_mul]
    ring

theorem isDecimal_of_isDigit {c : Char} (h : Text.isDigit c = true) : Text.isDecimal c = true := by
  rw [Text.isDecimal, Integer.decimal?_of_isDigit h]
  rfl

theorem isDecimal_of_mem_toDigits {n : ℕ} {c : Char} (h : c ∈ Nat.toDigits 10 n) : Text.isDecimal c = true :=
  isDecimal_of_isDigit (Integer.isDigit_of_mem_toDigits h)

theorem isDecimal_of_mem_lastDigits {n places : ℕ} {c : Char} (h : c ∈ lastDigits n places) : Text.isDecimal c = true := by
  obtain ⟨i, -, rfl⟩ := List.mem_map.mp h
  have hall : ∀ d : Fin 10, Text.isDecimal (Nat.digitChar d.val) = true := by decide
  exact hall ⟨_, Nat.mod_lt _ (by decide)⟩

section

variable (n places : ℕ)

theorem parts_expansion : whole (expansion n places).toList = Nat.toDigits 10 (n / 10 ^ places) ∧
    fraction (expansion n places).toList = lastDigits n places := by
  have hdecimal : ∀ c ∈ Nat.toDigits 10 (n / 10 ^ places), Text.isDecimal c = true :=
    fun _ => isDecimal_of_mem_toDigits
  rw [expansion, String.toList_ofList]
  by_cases hplaces : places = 0
  · rw [if_pos hplaces, List.append_nil, hplaces]
    rw [hplaces] at hdecimal
    exact parts_of_isDecimal hdecimal
  · rw [if_neg hplaces]
    exact parts_append hdecimal _

/-- An expansion is an amount. -/
theorem amount?_expansion :
    Command.amount? (expansion n places).toList = some ((expansion n places).toList, []) := by
  have hrun : Command.IsRun Text.isDecimal (Nat.toDigits 10 (n / 10 ^ places)) :=
    ⟨Nat.toDigits_ne_nil, fun _ => isDecimal_of_mem_toDigits⟩
  have hamount : Command.IsAmount (expansion n places).toList := by
    rw [expansion, String.toList_ofList]
    by_cases hplaces : places = 0
    · rw [if_pos hplaces, List.append_nil]
      exact .inl ⟨_, hrun, .inl rfl⟩
    · rw [if_neg hplaces]
      exact .inl ⟨_, hrun, .inr ⟨_, fun _ => isDecimal_of_mem_lastDigits, rfl⟩⟩
  have hwhole := Command.amount?_append hamount (r := []) rfl
  rwa [List.append_nil] at hwhole

theorem coefficient_expansion : coefficient (expansion n places) = n := by
  obtain ⟨hwhole, hfraction⟩ := parts_expansion n places
  rw [coefficient, hwhole, hfraction, ofDigits_append, ofDigits_toDigits, ofDigits_lastDigits, length_lastDigits]
  exact Nat.div_add_mod' n _

theorem length_fraction_expansion : (fraction (expansion n places).toList).length = places := by
  rw [(parts_expansion n places).2, length_lastDigits]

theorem denoted_expansion : denoted (expansion n places) = n / 10 ^ places := by
  rw [denoted_eq, coefficient_expansion, length_fraction_expansion, zpow_neg, zpow_natCast, div_eq_mul_inv]

end

/-! ## 3. There and back -/

/-- Moving the point of base units by so few places keeps all their digits. -/
theorem scale_units {units : ℕ} (hunits : units < 10 ^ 28) {exponent power : ℤ} (hexponent : exponent.natAbs ≤ 100)
    (hpower : power.natAbs ≤ 100) :
    Decimal.scale ⟨false, units, exponent⟩ power = .ok ⟨false, units, exponent + power⟩ := by
  apply Decimal.scale_of_short hunits
  · unfold Decimal.maxExponent
    omega
  · dsimp only
    unfold Decimal.tiny Decimal.minExponent Decimal.precision
    omega
  · dsimp only
    unfold Decimal.maxExponent Decimal.precision
    omega

section

variable {units places : ℕ} (hunits : units < 10 ^ 28) (hplaces : places ≤ 100)

include hunits hplaces

theorem isLegible_expansion : IsLegible (expansion units places) := by
  constructor
  · rw [length_fraction_expansion]
    unfold Decimal.minReadExponent
    omega
  · have hone : (1 : ℚ) ≤ 10 ^ places := one_le_pow₀ (by norm_num)
    have hlarge : (units : ℚ) < 10 ^ (28 : ℤ) := by exact_mod_cast hunits
    rw [denoted_expansion]
    calc (units : ℚ) / 10 ^ places ≤ units := div_le_self (Nat.cast_nonneg _) hone
      _ < 10 ^ (28 : ℤ) := hlarge
      _ ≤ 10 ^ (Decimal.maxReadExponent + 1) := zpow_le_zpow_right₀ (by norm_num) (by decide)

/-- The number that is read from an expansion. -/
theorem ofText?_expansion : Decimal.ofText? (expansion units places) = some ⟨false, units, -(places : ℤ)⟩ := by
  have hread := (ofText?_of_amount (amount?_expansion units places)).1 (isLegible_expansion hunits hplaces)
  rwa [coefficient_expansion, length_fraction_expansion] at hread

/-- What an expansion becomes. -/
theorem toUnits_expansion : toUnits (expansion units places) places = .ok (units : ℤ) := by
  have hscale := @scale_units _ hunits (-(places : ℤ)) places (by omega) (by omega)
  rw [show (-(places : ℤ)) + places = 0 by omega] at hscale
  have hvalue : Decimal.value ⟨false, units, 0⟩ = ((units : ℤ) : ℚ) := by
    rw [Decimal.value_mk, zpow_zero, mul_one, Int.cast_natCast]
  -- Scaling brings the exponent back to zero, and the number is whole.
  unfold toUnits
  rw [ofText?_expansion hunits hplaces]
  simp only [hscale, Bool.false_eq_true, false_and, if_false]
  rw [Decimal.toInt_of_value rfl hvalue]
  exact if_pos rfl

/-- What base units are shown as. -/
theorem text_eq_expansion : text units places = .ok (expansion units places ++ " " ++ symbol) := by
  have hscale := @scale_units _ hunits 0 (-(places : ℤ)) (by decide) (by omega)
  have hofInt : Decimal.ofInt units = ⟨false, units, 0⟩ := rfl
  -- The exponent is as far below zero as there are places, so nothing is rounded and no zeros are added.
  have hfixed : Decimal.toFixed ⟨false, units, 0 + -(places : ℤ)⟩ places = expansion units places := by
    unfold Decimal.toFixed
    rw [← withPoint_toDigits]
    simp
  unfold text ofUnits
  rw [hofInt, hscale]
  simp only [hfixed, Int.toNat_natCast]
  exact if_neg (by omega)

end

/-- Base units of at most twenty-eight digits are shown as the decimal expansion of their amount with every place, and what
is shown becomes the same base units again. -/
theorem text_and_toUnits {units places : ℕ} (hunits : units < 10 ^ 28) (hplaces : places ≤ 100) :
    text units places = .ok (expansion units places ++ " " ++ symbol) ∧
      (fraction (expansion units places).toList).length = places ∧
      denoted (expansion units places) = units / 10 ^ places ∧
      toUnits (expansion units places) places = .ok (units : ℤ) :=
  ⟨text_eq_expansion hunits hplaces, length_fraction_expansion units places, denoted_expansion units places,
    toUnits_expansion hunits hplaces⟩

/-- The largest number of base units that is shown in full. -/
theorem text_and_toUnits_largest :
    (10 ^ 28 - 1 < 10 ^ 28 ∧ 8 ≤ 100) ∧
      text (10 ^ 28 - 1) 8 = .ok "99999999999999999999.99999999 KOIN" ∧
      toUnits "99999999999999999999.99999999" 8 = .ok (10 ^ 28 - 1) := by
  have hexpansion : expansion (10 ^ 28 - 1) 8 = "99999999999999999999.99999999" := by decide +kernel
  obtain ⟨htext, -, -, hunits⟩ := @text_and_toUnits (10 ^ 28 - 1) 8 (by decide) (by decide)
  rw [hexpansion] at htext hunits
  exact ⟨by decide, htext, hunits⟩

end ContractShell.Amount
