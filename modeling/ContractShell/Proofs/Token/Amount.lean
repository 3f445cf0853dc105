import ContractShell.Proofs.Command.Lexeme
import ContractShell.Proofs.Number.Decimal
import ContractShell.Proofs.Number.Numeral
import ContractShell.Token.Amount
import Mathlib.Data.List.TakeWhile
import Mathlib.Data.Nat.Digits.Defs

/-!
Which amounts become which base units.

An amount is read exactly, and then its number of base units is rounded to twenty-eight digits before it is asked whether it
is a whole number. So an amount with a fraction of a base unit is refused when its fraction is within these digits; one
whose fraction is beyond them becomes the rounded number.

## Main statements

* `ofText?_of_amount`: the number that is read from an amount's text.
* `toUnits_of_amount`: what an amount becomes.
* `toUnits_iff_contextual`: which amounts are converted exactly or else refused.
-/

namespace ContractShell.Amount

open Decimal (contextual maxExponent maxReadExponent minReadExponent)

/-! ## 1. What an amount denotes -/

/-- The number of a decimal digit. -/
def digit (c : Char) : ℕ := (Text.decimal? c).getD 0

/-- The number of a run of decimal digits. -/
def ofDigits (s : List Char) : ℕ := Nat.ofDigits 10 (s.reverse.map digit)

/-- The digits in front of the point. -/
def whole (s : List Char) : List Char := s.takeWhile (· ≠ '.')

/-- The digits after the point. -/
def fraction (s : List Char) : List Char := (s.dropWhile (· ≠ '.')).drop 1

/-- The number that an amount denotes. -/
def denoted (text : String) : ℚ :=
  ofDigits (whole text.toList) + ofDigits (fraction text.toList) / 10 ^ (fraction text.toList).length

/-- The number of all digits of an amount, its point left out. -/
def coefficient (text : String) : ℕ := ofDigits (whole text.toList ++ fraction text.toList)

/-- The base units of an amount, of which there need not be a whole number. -/
def exactUnits (text : String) : ℚ := denoted text * 10 ^ places

/-- The exponents of an amount's first and last digits are such as can be written down. Every text of fewer than 10¹⁸
characters is of this sort. -/
def IsLegible (text : String) : Prop :=
  minReadExponent ≤ -((fraction text.toList).length : ℤ) ∧ denoted text < 10 ^ (maxReadExponent + 1)

/-- An amount is converted exactly or refused: it becomes the number of its base units if that is a whole number, and
otherwise it is no valid amount. -/
def IsExact (text : String) : Prop :=
  (∀ n : ℤ, toUnits text places = .ok n ↔ exactUnits text = n) ∧
    ∀ f, toUnits text places = .error f → f = .notAnAmount text ∨ f = .tooPrecise text places

/-! ## 2. Digits -/

theorem ofDigits_cons (c : Char) (s : List Char) : ofDigits (c :: s) = digit c * 10 ^ s.length + ofDigits s := by
  unfold ofDigits
  rw [List.reverse_cons, List.map_append, Nat.ofDigits_append, List.map_cons, List.map_nil, Nat.ofDigits_singleton,
    List.length_map, List.length_reverse]
  ring

theorem ofDigits_append (s t : List Char) : ofDigits (s ++ t) = ofDigits s * 10 ^ t.length + ofDigits t := by
  unfold ofDigits
  rw [List.reverse_append, List.map_append, Nat.ofDigits_append, List.length_map, List.length_reverse]
  ring

theorem ofDigits_lt (s : List Char) : ofDigits s < 10 ^ s.length := by
  have hdigits : ∀ x ∈ s.reverse.map digit, x < 10 := by
    intro x hx
    obtain ⟨c, -, rfl⟩ := List.mem_map.mp hx
    unfold digit
    cases hc : Text.decimal? c with
    | none => exact Nat.succ_pos 9
    | some d => exact Text.decimal?_lt hc
  have hlt := Nat.ofDigits_lt_base_pow_length (by decide : 1 < 10) hdigits
  rw [List.length_map, List.length_reverse] at hlt
  exact hlt

theorem readDigits_append {w r : List Char} (hw : ∀ c ∈ w, Text.isDecimal c = true)
    (hr : Command.stops Text.isDecimal r = true) (n v : ℕ) :
    Decimal.readDigits (w ++ r) n v = (n + w.length, v * 10 ^ w.length + ofDigits w, r) := by
  induction w generalizing n v with
  | nil =>
    cases r with
    | nil => simp [Decimal.readDigits, ofDigits]
    | cons c r =>
      have hc : Text.decimal? c = none := by simpa [Command.stops, Text.isDecimal] using hr
      simp [Decimal.readDigits, hc, ofDigits]
  | cons c w ih =>
    have hc := hw c List.mem_cons_self
    obtain ⟨d, hd⟩ := Option.isSome_iff_exists.mp hc
    have hdigit : digit c = d := by rw [digit, hd, Option.getD_some]
    rw [List.cons_append, Decimal.readDigits]
    simp only [hd]
    rw [ih (fun x hx => hw x (List.mem_cons_of_mem c hx)), ofDigits_cons, hdigit, List.length_cons, Prod.mk.injEq,
      Prod.mk.injEq]
    refine ⟨by ring, by ring, rfl⟩

/-! ## 3. Reading -/

section

variable {s : List Char}

theorem ne_point_of_isDecimal (hs : ∀ c ∈ s, Text.isDecimal c = true) : ∀ c ∈ s, decide (c ≠ '.') = true := by
  intro c hc
  rw [decide_eq_true_eq]
  rintro rfl
  exact absurd (hs '.' hc) (by decide)

/-- Digits alone are in front of the point. -/
theorem parts_of_isDecimal (hs : ∀ c ∈ s, Text.isDecimal c = true) : whole s = s ∧ fraction s = [] := by
  have hkeep := ne_point_of_isDecimal hs
  unfold whole fraction
  rw [List.takeWhile_eq_self_iff.mpr hkeep, List.dropWhile_eq_nil_iff.mpr hkeep]
  exact ⟨rfl, rfl⟩

theorem parts_append (hs : ∀ c ∈ s, Text.isDecimal c = true) (t : List Char) :
    whole (s ++ '.' :: t) = s ∧ fraction (s ++ '.' :: t) = t := by
  have hkeep := ne_point_of_isDecimal hs
  unfold whole fraction
  rw [List.takeWhile_append_of_pos hkeep, List.dropWhile_append_of_pos hkeep]
  simp

/-- The two runs of digits that an amount is made of. -/
theorem exists_parts (h : Command.amount? s = some (s, [])) :
    (∀ c ∈ whole s, Text.isDecimal c = true) ∧ (∀ c ∈ fraction s, Text.isDecimal c = true) ∧
      0 < (whole s).length + (fraction s).length ∧
      ((s = whole s ∧ fraction s = []) ∨ s = whole s ++ '.' :: fraction s) := by
  rcases Command.isAmount_of_amount? h with ⟨w, hw, rfl | ⟨v, hv, rfl⟩⟩ | ⟨v, hv, rfl⟩
  · obtain ⟨hwhole, hfraction⟩ := parts_of_isDecimal hw.2
    rw [hwhole, hfraction]
    refine ⟨hw.2, by simp, ?_, .inl ⟨rfl, rfl⟩⟩
    have hlength := List.length_pos_iff.mpr hw.1
    omega
  · obtain ⟨hwhole, hfraction⟩ := parts_append hw.2 v
    rw [hwhole, hfraction]
    refine ⟨hw.2, hv, ?_, .inr rfl⟩
    have hlength := List.length_pos_iff.mpr hw.1
    omega
  · obtain ⟨hwhole, hfraction⟩ := @parts_append [] (by simp) v
    rw [List.nil_append] at hwhole hfraction
    rw [hwhole, hfraction]
    refine ⟨by simp, hv.2, ?_, .inr rfl⟩
    have hlength := List.length_pos_iff.mpr hv.1
    omega

theorem readCoefficient_of_amount (h : Command.amount? s = some (s, [])) :
    Decimal.readCoefficient s =
      ((whole s).length + (fraction s).length, ofDigits (whole s ++ fraction s), (fraction s).length, []) := by
  obtain ⟨hwhole, hfraction, -, hparts⟩ := exists_parts h
  unfold Decimal.readCoefficient
  rcases hparts with ⟨hs, hnil⟩ | hs
  · have hread := readDigits_append hwhole (r := []) rfl 0 0
    rw [List.append_nil, ← hs, zero_mul, zero_add, zero_add] at hread
    rw [hread, ← hs, hnil, List.append_nil]
    rfl
  · have hread := readDigits_append hwhole (r := '.' :: fraction s) rfl 0 0
    rw [← hs, zero_mul, zero_add, zero_add] at hread
    have hrest := readDigits_append hfraction (r := []) rfl (whole s).length (ofDigits (whole s))
    rw [List.append_nil, ← ofDigits_append] at hrest
    rw [hread]
    simp only [hrest, Nat.add_sub_cancel_left]

/-- An amount has no blanks and no sign. -/
theorem plain_of_amount (h : Command.amount? s = some (s, [])) :
    Decimal.readSign ((Text.trim s).filter (· ≠ '_')) = (false, s) := by
  obtain ⟨hwhole, hfraction, -, hparts⟩ := exists_parts h
  have hchars : ∀ c ∈ s, Text.isDecimal c = true ∨ c = '.' := by
    intro c hc
    rcases hparts with ⟨hs, -⟩ | hs
    · rw [hs] at hc
      exact .inl (hwhole c hc)
    · rw [hs] at hc
      rcases List.mem_append.mp hc with hc | hc
      · exact .inl (hwhole c hc)
      · rcases List.mem_cons.mp hc with hc | hc
        · exact .inr hc
        · exact .inl (hfraction c hc)
  have hother : ∀ x : Char, Text.isDecimal x = false → x ≠ '.' → ∀ c ∈ s, c ≠ x := by
    rintro x hx hpoint c hc rfl
    rcases hchars c hc with hdecimal | hdot
    · rw [hx] at hdecimal
      cases hdecimal
    · exact hpoint hdot
  have hblank : ∀ c ∈ s, Text.isBlank c = false := by
    intro c hc
    rcases hchars c hc with hdecimal | rfl
    · by_contra hblank
      have hsolid := Command.isSolid_isDecimal c (by simp [Command.isDelimiter, hblank])
      rw [hdecimal] at hsolid
      cases hsolid
    · decide
  have htrim : Text.trim s = s := Integer.trimBy_of_forall hblank
  have hfilter : s.filter (· ≠ '_') = s := by
    rw [List.filter_eq_self]
    intro c hc
    rw [decide_eq_true_eq]
    exact hother '_' (by decide) (by decide) c hc
  rw [htrim, hfilter]
  have hplus := hother '+' (by decide) (by decide)
  have hminus := hother '-' (by decide) (by decide)
  unfold Decimal.readSign
  split
  · exact absurd rfl (hminus '-' List.mem_cons_self)
  · exact absurd rfl (hplus '+' List.mem_cons_self)
  · rfl

end

section

variable {text : String}

theorem denoted_eq (text : String) :
    denoted text = coefficient text * 10 ^ (-((fraction text.toList).length : ℤ)) := by
  have hpos : (0 : ℚ) < 10 ^ (fraction text.toList).length := pow_pos (by norm_num) _
  unfold denoted coefficient
  rw [ofDigits_append, zpow_neg, zpow_natCast]
  push_cast
  field_simp

theorem exactUnits_eq (text : String) :
    exactUnits text = coefficient text * 10 ^ (-((fraction text.toList).length : ℤ) + places) := by
  rw [zpow_add₀ (by norm_num), ← mul_assoc, ← denoted_eq]
  rfl

/-- The exponents of a legible amount are within the bounds that reading checks. -/
theorem isLegible_iff {e : ℤ} (he : e = -((fraction text.toList).length : ℤ)) :
    IsLegible text ↔ ¬ (maxReadExponent < (if coefficient text = 0 then e
      else Decimal.adjusted ⟨false, coefficient text, e⟩) ∨ e < minReadExponent) := by
  unfold IsLegible
  rw [not_or, not_lt, not_lt, and_comm, denoted_eq, ← he]
  apply and_congr_left
  intro _
  by_cases hzero : coefficient text = 0
  · rw [if_pos hzero, hzero, Nat.cast_zero, zero_mul]
    have hnonpos : e ≤ maxReadExponent := by
      unfold maxReadExponent
      omega
    exact ⟨fun _ => hnonpos, fun _ => Decimal.ten_zpow_pos _⟩
  · rw [if_neg hzero, ← not_le, Decimal.zpow_le_iff hzero]
    dsimp only [Decimal.adjusted]
    omega

/-- What is read are the digits of an amount and the place of its point, if they can be written down. -/
theorem ofText?_of_amount (h : Command.amount? text.toList = some (text.toList, [])) :
    (IsLegible text →
      Decimal.ofText? text = some ⟨false, coefficient text, -((fraction text.toList).length : ℤ)⟩) ∧
      (¬ IsLegible text → Decimal.ofText? text = none) := by
  obtain ⟨-, -, hsome, -⟩ := exists_parts h
  obtain ⟨count, hcount⟩ : ∃ count, (whole text.toList).length + (fraction text.toList).length = count + 1 :=
    ⟨_, (Nat.succ_pred_eq_of_pos hsome).symm⟩
  have hcoefficient : Decimal.readCoefficient text.toList =
      (count + 1, coefficient text, (fraction text.toList).length, []) := by
    rw [readCoefficient_of_amount h, hcount]
    rfl
  unfold Decimal.ofText?
  rw [plain_of_amount h]
  simp only [hcoefficient, Decimal.readExponent?, zero_sub]
  constructor
  · intro hl
    rw [if_neg ((isLegible_iff rfl).mp hl)]
  · intro hl
    rw [if_pos (by_contra fun hno => hl ((isLegible_iff rfl).mpr hno))]

/-! ## 4. Conversion -/

/-- An amount that can be read becomes the number of its base units, rounded to the context, if that is a whole number that
is not too large. -/
theorem toUnits_of_amount (h : Command.amount? text.toList = some (text.toList, [])) :
    (¬ IsLegible text → toUnits text places = .error (.notAnAmount text)) ∧
      (IsLegible text → 10 ^ (maxExponent + 1) ≤ contextual (exactUnits text) →
        toUnits text places = .error (.arithmetic .overflow)) ∧
      (IsLegible text → contextual (exactUnits text) < 10 ^ (maxExponent + 1) →
        (∀ n : ℤ, contextual (exactUnits text) = n → toUnits text places = .ok n) ∧
          ((∀ n : ℤ, contextual (exactUnits text) ≠ n) → toUnits text places = .error (.tooPrecise text places))) := by
  obtain ⟨hread, hunread⟩ := ofText?_of_amount h
  have hscale : ∀ d : Decimal, d.scale places = Decimal.finish { d with exponent := d.exponent + places } := by
    intro d
    unfold Decimal.scale
    rw [if_neg (by decide)]
  have hsign : Decimal.negative ⟨false, coefficient text, -((fraction text.toList).length : ℤ) + places⟩ = false := rfl
  obtain ⟨hover, hfinish⟩ := Decimal.finish_eq hsign
  rw [Decimal.value_mk, ← exactUnits_eq] at hover hfinish
  unfold toUnits
  refine ⟨?_, ?_, ?_⟩
  · intro hl
    rw [hunread hl]
  · intro hl hlarge
    rw [hread hl]
    simp only [hscale, hover hlarge, Bool.false_eq_true, false_and, if_false]
  · intro hl hsmall
    obtain ⟨r, hr, hrsign, hrvalue⟩ := hfinish hsmall
    rw [hread hl]
    simp only [hscale, hr, Bool.false_eq_true, false_and, if_false]
    have hwhole := Decimal.isIntegral_iff hrsign
    rw [hrvalue] at hwhole
    constructor
    · intro n hn
      rw [if_pos (hwhole.mpr ⟨n, hn⟩), Decimal.toInt_of_value hrsign (hrvalue.trans hn)]
    · intro hn
      rw [if_neg (hwhole.not.mpr fun ⟨n, hint⟩ => hn n hint)]

/-- The number that an amount becomes. -/
theorem toUnits_eq_ok_iff (h : Command.amount? text.toList = some (text.toList, [])) (n : ℤ) :
    toUnits text places = .ok n ↔
      IsLegible text ∧ contextual (exactUnits text) < 10 ^ (maxExponent + 1) ∧ contextual (exactUnits text) = n := by
  obtain ⟨hunread, hover, hround⟩ := toUnits_of_amount h
  constructor
  · intro hn
    by_cases hl : IsLegible text
    · by_cases hlarge : 10 ^ (maxExponent + 1) ≤ contextual (exactUnits text)
      · rw [hover hl hlarge] at hn
        cases hn
      · obtain ⟨hok, herror⟩ := hround hl (not_le.mp hlarge)
        by_cases hwhole : ∃ m : ℤ, contextual (exactUnits text) = m
        · obtain ⟨m, hm⟩ := hwhole
          rw [hok m hm] at hn
          cases hn
          exact ⟨hl, not_le.mp hlarge, hm⟩
        · rw [herror fun m hm => hwhole ⟨m, hm⟩] at hn
          cases hn
    · rw [hunread hl] at hn
      cases hn
  · rintro ⟨hl, hsmall, hn⟩
    exact (hround hl hsmall).1 n hn

/-- Rounding leaves whole numbers whole. -/
theorem exists_contextual_intCast {n : ℤ} (h : exactUnits text = n) : ∃ m : ℤ, contextual (exactUnits text) = m := by
  rw [h]
  unfold contextual
  generalize Decimal.lastPlace n = p
  by_cases hp : 0 ≤ p
  · refine ⟨Decimal.halfEven (n / 10 ^ p) * (10 ^ p.toNat : ℕ), ?_⟩
    rw [Decimal.zpow_toNat hp]
    push_cast
    rfl
  · -- Nothing is dropped behind the point of a whole number.
    have hcast : (n : ℚ) / 10 ^ p = ((n * (10 ^ (-p).toNat : ℕ) : ℤ) : ℚ) := by
      rw [div_eq_mul_inv, ← zpow_neg, Decimal.zpow_toNat (by omega)]
      push_cast
      rfl
    refine ⟨n, ?_⟩
    rw [hcast, Decimal.halfEven_intCast, ← hcast, div_mul_cancel₀ _ (Decimal.ten_zpow_pos p).ne']

theorem isExact_iff (h : Command.amount? text.toList = some (text.toList, [])) :
    IsExact text ↔
      (IsLegible text ∧ contextual (exactUnits text) < 10 ^ (maxExponent + 1) ∧
        (contextual (exactUnits text) = exactUnits text ∨ ∀ n : ℤ, contextual (exactUnits text) ≠ n)) ∨
      (¬ IsLegible text ∧ ∀ n : ℤ, exactUnits text ≠ n) := by
  obtain ⟨hunread, hover, hround⟩ := toUnits_of_amount h
  unfold IsExact
  simp only [toUnits_eq_ok_iff h]
  by_cases hl : IsLegible text
  · by_cases hlarge : 10 ^ (maxExponent + 1) ≤ contextual (exactUnits text)
    · -- An overflow is no refusal of the amount.
      rw [hover hl hlarge]
      constructor
      · rintro ⟨-, hfault⟩
        rcases hfault _ rfl with hfault | hfault <;> cases hfault
      · rintro (⟨-, hsmall, -⟩ | ⟨hno, -⟩)
        · exact absurd hsmall (not_lt.mpr hlarge)
        · exact absurd hl hno
    · have hsmall := not_le.mp hlarge
      obtain ⟨hok, herror⟩ := hround hl hsmall
      by_cases hwhole : ∃ n : ℤ, contextual (exactUnits text) = n
      · obtain ⟨n, hn⟩ := hwhole
        rw [hok n hn]
        constructor
        · rintro ⟨hiff, -⟩
          exact .inl ⟨hl, hsmall, .inl (hn.trans ((hiff n).mp ⟨hl, hsmall, hn⟩).symm)⟩
        · rintro (⟨-, -, hsame | hnone⟩ | ⟨hno, -⟩)
          · rw [hsame]
            exact ⟨fun m => ⟨fun hm => hm.2.2, fun hm => ⟨hl, hsame ▸ hsmall, hm⟩⟩, nofun⟩
          · exact absurd hn (hnone n)
          · exact absurd hl hno
      · have hnone : ∀ n : ℤ, contextual (exactUnits text) ≠ n := fun n hn => hwhole ⟨n, hn⟩
        rw [herror hnone]
        constructor
        · intro _
          exact .inl ⟨hl, hsmall, .inr hnone⟩
        · intro _
          constructor
          · exact fun n => ⟨fun hn => absurd hn.2.2 (hnone n), fun hn => absurd (exists_contextual_intCast hn) hwhole⟩
          · intro f hf
            cases hf
            exact .inr rfl
  · rw [hunread hl]
    constructor
    · rintro ⟨hiff, -⟩
      exact .inr ⟨hl, fun n hn => hl ((hiff n).mpr hn).1⟩
    · rintro (⟨hyes, -⟩ | ⟨-, hnone⟩)
      · exact absurd hyes hl
      · constructor
        · exact fun n => ⟨fun hn => absurd hn.1 hl, fun hn => absurd hn (hnone n)⟩
        · intro f hf
          cases hf
          exact .inl rfl

/-- An amount of at most twenty-eight characters is converted exactly or refused. -/
theorem isExact_of_length_le (h : Command.amount? text.toList = some (text.toList, []))
    (hlength : text.toList.length ≤ Decimal.precision) : IsExact text := by
  obtain ⟨-, -, hsome, hparts⟩ := exists_parts h
  have hcount : (whole text.toList).length + (fraction text.toList).length ≤ Decimal.precision := by
    rcases hparts with ⟨hs, hnil⟩ | hs
    · rw [hnil, ← hs]
      exact hlength
    · rw [hs, List.length_append, List.length_cons] at hlength
      omega
  have hcoefficient : coefficient text < 10 ^ Decimal.precision := by
    have hdigits := ofDigits_lt (whole text.toList ++ fraction text.toList)
    rw [List.length_append] at hdigits
    exact Nat.lt_of_lt_of_le hdigits (Nat.pow_le_pow_right (by decide) hcount)
  have hfew := (Decimal.digitCount_le_iff (by decide)).mpr hcoefficient
  -- At most eight places are gained, so no power of ten beyond the thirty-sixth is reached.
  have hsmall : ∀ m k : ℤ, m ≤ 8 → 36 ≤ k → (coefficient text : ℚ) * 10 ^ m < 10 ^ k := by
    intro m k hm hk
    by_cases hzero : coefficient text = 0
    · rw [hzero, Nat.cast_zero, zero_mul]
      exact Decimal.ten_zpow_pos k
    · rw [← not_le, Decimal.zpow_le_iff hzero]
      unfold Decimal.precision at hfew
      omega
  have hexact : contextual (exactUnits text) = exactUnits text := by
    rw [exactUnits_eq]
    by_cases hzero : coefficient text = 0
    · rw [hzero, Nat.cast_zero, zero_mul, Decimal.contextual_zero]
    · apply Decimal.contextual_of_le
      rw [Decimal.lastPlace_eq hzero]
      unfold Decimal.tiny Decimal.minExponent Decimal.precision places at *
      omega
  refine (isExact_iff h).mpr (.inl ⟨⟨?_, ?_⟩, ?_, .inl hexact⟩)
  · unfold minReadExponent
    unfold Decimal.precision at hcount
    omega
  · rw [denoted_eq]
    exact hsmall _ _ (by omega) (by decide)
  · rw [hexact, exactUnits_eq]
    exact hsmall _ _ (by unfold places; omega) (by decide)

/-- Which amounts are converted, into what, and which of them are converted exactly or else refused: those for which
rounding to the context does not turn a fraction of a base unit into a whole number or a whole number into another one, and
does not go beyond the largest number. -/
theorem toUnits_iff_contextual (h : Command.amount? text.toList = some (text.toList, [])) :
    (∀ n : ℤ, toUnits text places = .ok n ↔
      IsLegible text ∧ contextual (exactUnits text) < 10 ^ (maxExponent + 1) ∧ contextual (exactUnits text) = n) ∧
    (IsExact text ↔
      (IsLegible text ∧ contextual (exactUnits text) < 10 ^ (maxExponent + 1) ∧
        (contextual (exactUnits text) = exactUnits text ∨ ∀ n : ℤ, contextual (exactUnits text) ≠ n)) ∨
      (¬ IsLegible text ∧ ∀ n : ℤ, exactUnits text ≠ n)) := by
  constructor
  · exact toUnits_eq_ok_iff h
  · exact isExact_iff h

end

theorem toUnits_twelveAndHalf : Command.amount? "12.5".toList = some ("12.5".toList, []) ∧
    contextual (exactUnits "12.5") = 1250000000 ∧ IsExact "12.5" := by
  have hread : Command.amount? "12.5".toList = some ("12.5".toList, []) ∧
      toUnits "12.5" places = .ok 1250000000 := by decide +kernel
  obtain ⟨h, hunits⟩ := hread
  obtain ⟨hok, -⟩ := toUnits_iff_contextual h
  have hvalue := ((hok _).mp hunits).2.2
  exact ⟨h, by exact_mod_cast hvalue, isExact_of_length_le h (by decide)⟩

/-- A tenth of a base unit is dropped from an amount of thirty digits. -/
theorem rounds_nearlyWhole :
    Command.amount? "100000000000000000000.000000001".toList =
        some ("100000000000000000000.000000001".toList, []) ∧
      toUnits "100000000000000000000.000000001" places = .ok 10000000000000000000000000000 ∧
      exactUnits "100000000000000000000.000000001" = 10000000000000000000000000000 + 1 / 10 ∧
      ¬ IsExact "100000000000000000000.000000001" := by
  have hread : Command.amount? "100000000000000000000.000000001".toList =
        some ("100000000000000000000.000000001".toList, []) ∧
      toUnits "100000000000000000000.000000001" places = .ok 10000000000000000000000000000 := by decide +kernel
  have hparts : ofDigits (whole "100000000000000000000.000000001".toList) = 100000000000000000000 ∧
      ofDigits (fraction "100000000000000000000.000000001".toList) = 1 ∧
      (fraction "100000000000000000000.000000001".toList).length = 9 := by decide +kernel
  obtain ⟨h, hunits⟩ := hread
  obtain ⟨hwhole, hfraction, hlength⟩ := hparts
  have hexact : exactUnits "100000000000000000000.000000001" = 10000000000000000000000000000 + 1 / 10 := by
    unfold exactUnits denoted places
    rw [hwhole, hfraction, hlength]
    norm_num
  refine ⟨h, hunits, hexact, fun hrounded => ?_⟩
  have hsame := (hrounded.1 _).mp hunits
  rw [hexact] at hsame
  norm_num at hsame

end ContractShell.Amount
