import ContractShell.Number.Integer

/-!
Decimal numerals: every integer that is not too long is read back from its numeral.

## Main statements

* `toList_toString`: a numeral is an optional minus and decimal digits.
* `read_of_readSign`: the integer that digits behind a sign denote.
* `read_toString`: the integer that a numeral denotes.
-/

namespace ContractShell.Integer

/-! ## 1. Digits -/

theorem isDigit_of_mem_toDigits {n : Nat} {c : Char} (h : c ∈ Nat.toDigits 10 n) : Text.isDigit c = true := by
  have hc := Nat.isDigit_of_mem_toDigits (by decide) (by decide) h
  simpa [Char.isDigit, Text.isDigit, UInt32.le_iff_toNat_le] using hc

/-- The ten figures are decimal digits. -/
theorem decimal?_of_isDigit {c : Char} (h : Text.isDigit c = true) : Text.decimal? c = some (c.toNat - 48) := by
  simp only [Text.isDigit, Bool.and_eq_true, decide_eq_true_eq] at h
  -- They are the first of all scripts, so the search stops at once.
  have hfirst : (decide (48 ≤ c.toNat) && decide (c.toNat < 48 + 10)) = true := by
    rw [Bool.and_eq_true, decide_eq_true_eq, decide_eq_true_eq]
    omega
  unfold Text.decimal? Text.decimalZeros
  simp only [List.find?_cons, hfirst, Option.map_some]

theorem digitIn?_of_isDigit {c : Char} (h : Text.isDigit c = true) : Text.digitIn? 10 c = some (c.toNat - 48) := by
  unfold Text.digitIn?
  rw [decimal?_of_isDigit h]
  simp only [Text.isDigit, Bool.and_eq_true, decide_eq_true_eq] at h
  exact if_pos (by omega)

/-- Digits without underscores are read to their end. -/
theorem readDigits_of_isDigit {s : List Char} (hs : ∀ c ∈ s, Text.isDigit c = true) (n v : Nat) :
    readDigits 10 s false n v = some (n + s.length, Nat.ofDigitChars 10 s v, []) := by
  induction s generalizing n v with
  | nil => simp [readDigits]
  | cons c s ih =>
    have hc : Text.isDigit c = true := hs c (by simp)
    have hmark : c ≠ '_' := by
      rintro rfl
      cases hc
    rw [readDigits, if_neg hmark, digitIn?_of_isDigit hc]
    simp only [ih fun d hd => hs d (List.mem_cons_of_mem c hd)]
    rw [Nat.ofDigitChars_cons, List.length_cons, Nat.mul_comm v 10, Nat.add_assoc, Nat.add_comm 1]
    rfl

/-! ## 2. Numerals -/

/-- A numeral is an optional minus and decimal digits. -/
theorem toList_toString (n : Int) :
    (toString n).toList = if 0 ≤ n then Nat.toDigits 10 n.natAbs else '-' :: Nat.toDigits 10 n.natAbs := by
  rw [Int.toString_eq_repr, Int.repr_eq_if]
  by_cases h : 0 ≤ n
  · rw [if_pos h, if_pos h, Nat.toList_repr]
    congr 1
    omega
  · rw [if_neg h, if_neg h, String.toList_append, Nat.toList_repr]
    have habs : (-n).toNat = n.natAbs := by omega
    rw [habs]
    rfl

theorem not_isEdge_of_isDigit {c : Char} (h : Text.isDigit c = true) : isEdge c = false := by
  simp only [Text.isDigit, Bool.and_eq_true, decide_eq_true_eq] at h
  simp only [isEdge, Text.isBlank, Bool.and_eq_false_iff, Bool.or_eq_false_iff, beq_eq_false_iff_ne,
    Bool.and_eq_false_iff, decide_eq_false_iff_not]
  left
  omega

/-- Trimming leaves a text as it is that has nothing to drop. -/
theorem trimBy_of_forall {drop : Char → Bool} {s : List Char} (hs : ∀ c ∈ s, drop c = false) :
    Text.trimBy drop s = s := by
  have hkeep : ∀ t : List Char, (∀ c ∈ t, drop c = false) → t.dropWhile drop = t := by
    intro t ht
    cases t with
    | nil => rfl
    | cons c r => rw [List.dropWhile_cons, ht c (by simp), if_neg (by decide)]
  unfold Text.trimBy
  rw [hkeep s hs, hkeep s.reverse fun c hc => hs c (List.mem_reverse.mp hc), List.reverse_reverse]

theorem readSign_of_isDigit {s : List Char} (hs : ∀ c ∈ s, Text.isDigit c = true) : readSign s = (false, s) := by
  unfold readSign
  split
  · exact absurd (hs '-' (by simp)) (by decide)
  · exact absurd (hs '+' (by simp)) (by decide)
  · rfl

/-- The sign of a numeral is read off, and its digits are left. -/
theorem readSign_toString (n : Int) :
    readSign (Text.trimBy isEdge (toString n).toList) = (decide (n < 0), Nat.toDigits 10 n.natAbs) := by
  have hdigits : ∀ c ∈ Nat.toDigits 10 n.natAbs, Text.isDigit c = true := fun _ => isDigit_of_mem_toDigits
  rw [toList_toString]
  by_cases h : 0 ≤ n
  · rw [if_pos h, trimBy_of_forall fun c hc => not_isEdge_of_isDigit (hdigits c hc), decide_eq_false (by omega)]
    exact readSign_of_isDigit hdigits
  · have hedge : ∀ c ∈ '-' :: Nat.toDigits 10 n.natAbs, isEdge c = false := by
      intro c hc
      rcases List.mem_cons.mp hc with rfl | hc
      · decide
      · exact not_isEdge_of_isDigit (hdigits c hc)
    rw [if_neg h, trimBy_of_forall hedge, decide_eq_true (by omega)]
    rfl

/-- A numeral of so many digits is below that power of ten. -/
theorem ofDigitChars_lt {s : List Char} (hs : ∀ c ∈ s, Text.isDigit c = true) (v : Nat) :
    Nat.ofDigitChars 10 s v < (v + 1) * Nat.pow 10 s.length := by
  induction s generalizing v with
  | nil => simp
  | cons c s ih =>
    have hc : Text.isDigit c = true := hs c (by simp)
    simp only [Text.isDigit, Bool.and_eq_true, decide_eq_true_eq] at hc
    have hdigit : c.toNat - '0'.toNat ≤ 9 := by
      show c.toNat - 48 ≤ 9
      omega
    have hrest := ih (fun d hd => hs d (List.mem_cons_of_mem c hd)) (10 * v + (c.toNat - '0'.toNat))
    have hnext : (10 * v + (c.toNat - '0'.toNat) + 1) * Nat.pow 10 s.length ≤ (v + 1) * 10 * Nat.pow 10 s.length :=
      Nat.mul_le_mul_right _ (by omega)
    have hpow : Nat.pow 10 (c :: s).length = 10 * Nat.pow 10 s.length := Nat.mul_comm _ 10
    rw [Nat.ofDigitChars_cons, hpow, ← Nat.mul_assoc]
    exact Nat.lt_of_lt_of_le hrest hnext

/-- A text that is digits behind a sign is read as their number, unless they are too many. -/
theorem read_of_readSign {text : String} {negative : Bool} {s : List Char}
    (hsign : readSign (Text.trimBy isEdge text.toList) = (negative, s)) (hne : s ≠ [])
    (hs : ∀ c ∈ s, Text.isDigit c = true) :
    read 10 text = if maxDigits < s.length then .error (.tooLong s.length)
      else .ok (if negative then -(Nat.ofDigitChars 10 s 0 : Int) else Nat.ofDigitChars 10 s 0) := by
  have hmark : s.head? ≠ some '_' := by
    intro hhead
    exact absurd (hs '_' (List.mem_of_mem_head? hhead)) (by decide)
  have hbase : dropMarkOf 10 s = s := rfl
  have hwhole : ¬ (s.length = 0 ∨ ([] : List Char) ≠ []) := by
    rintro (hnone | hrest)
    · exact hne (List.length_eq_zero_iff.mp hnone)
    · exact hrest rfl
  unfold read
  simp only [hsign, hbase]
  rw [if_neg hmark, readDigits_of_isDigit hs 0 0]
  simp only [Nat.zero_add, true_and, if_neg hwhole]

/-- The integer that a numeral denotes. -/
theorem read_toString {n : Int} (h : isWritable n = true) : read 10 (toString n) = .ok n := by
  have hdigits : ∀ c ∈ Nat.toDigits 10 n.natAbs, Text.isDigit c = true := fun _ => isDigit_of_mem_toDigits
  have hshort : (Nat.toDigits 10 n.natAbs).length ≤ maxDigits := by
    have hpos : 0 < maxDigits := by decide
    unfold isWritable at h
    -- The limit is kept as a name, since its power of ten is a large number.
    generalize maxDigits = limit at h hpos ⊢
    exact (Nat.length_toDigits_le_iff (by decide) hpos).mpr (of_decide_eq_true h)
  rw [read_of_readSign (readSign_toString n) Nat.toDigits_ne_nil hdigits, if_neg (Nat.not_lt.mpr hshort),
    Nat.ofDigitChars_ten_toDigits]
  by_cases hn : n < 0
  · rw [decide_eq_true hn, if_pos rfl, Int.ofNat_natAbs_of_nonpos (by omega), Int.neg_neg]
  · rw [decide_eq_false hn, if_neg (by decide), Int.natAbs_of_nonneg (by omega)]

end ContractShell.Integer
