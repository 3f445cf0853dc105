import ContractShell.Proofs.Bytes.Digits

/-!
Base58 text and bytes correspond one to one.

The leading zeros of the bytes are counted apart from their number, and so are the leading ones of the text. What is left on
either side has a first digit that is not zero, and a number fixes such digits.

## Main statements

* `decode_eq_error_iff`: a text is refused for its first character outside the alphabet.
* `encode_of_decode`: a text is written back from the bytes that it was read as.
* `encode_decode_inverse`: writing and reading are inverse to each other.
-/

namespace ContractShell

/-! ## 1. Numbers in as few bytes as hold them -/

namespace Bytes

theorem lt_pow_width (n : Nat) : n < 256 ^ width n := by
  unfold width
  by_cases hn : n = 0
  · rw [if_pos hn, hn]
    exact Nat.one_pos
  · rw [if_neg hn, show 256 = 2 ^ 8 from rfl, ← Nat.pow_mul]
    have hbits : n.log2 + 1 ≤ 8 * (n.log2 / 8 + 1) := by omega
    exact Nat.lt_of_lt_of_le Nat.lt_log2_self (Nat.pow_le_pow_right (by omega) hbits)

theorem toNat_ofNatMinimal (n : Nat) : toNat (ofNatMinimal n) = n := toNat_ofNat (lt_pow_width n)

theorem head?_ofNatMinimal (n : Nat) : (ofNatMinimal n).head? ≠ some 0 := by
  -- Without its leading zeros the string has the same number, and is the one that the number is written as.
  obtain ⟨c, hc, hn⟩ := Base58.exists_leading 0 (ofNatMinimal n)
  have hnat : toNat c = n := by
    rw [← toNat_replicate_zero_append, ← hn, toNat_ofNatMinimal]
  have hsame := ofNatMinimal_toNat hc
  rw [hnat] at hsame
  rw [hsame]
  exact hc

end Bytes

namespace Base58

/-! ## 2. Characters of the alphabet -/

theorem isDigit_iff {c : Char} : isDigit c = true ↔ c ∈ alphabet := List.contains_iff_mem

theorem digit_of_digitValue? {c : Char} {d : Nat} (h : digitValue? c = some d) : digit d = c := by
  have hfind : alphabet.findIdx? (· == c) = some d := by simpa [digitValue?, List.idxOf?] using h
  obtain ⟨hlt, hc, -⟩ := List.findIdx?_eq_some_iff_getElem.mp hfind
  rw [digit_eq_getElem hlt]
  exact beq_iff_eq.mp hc

theorem digitValue?_eq_none_iff {c : Char} : digitValue? c = none ↔ isDigit c = false := by
  rw [Bool.eq_false_iff, ne_eq, isDigit_iff]
  exact List.idxOf?_eq_none_iff

theorem readNumber_eq_error_iff {n : Nat} {s : List Char} {c : Char} :
    readNumber n s = .error c ↔ s.find? (fun x => !isDigit x) = some c := by
  induction s generalizing n with
  | nil => exact iff_of_false (fun h => by cases h) (fun h => by cases h)
  | cons x r ih =>
    rw [readNumber_cons, List.find?_cons]
    cases hx : digitValue? x with
    | none =>
      rw [digitValue?_eq_none_iff.mp hx]
      exact ⟨fun h => congrArg some (Except.error.inj h), fun h => congrArg Except.error (Option.some.inj h)⟩
    | some d =>
      have hdigit : isDigit x = true := by
        apply Bool.of_not_eq_false
        intro hfalse
        rw [digitValue?_eq_none_iff.mpr hfalse] at hx
        cases hx
      rw [hdigit]
      exact ih

/-- A text is refused for its first character outside the alphabet. -/
theorem decode_eq_error_iff {s : List Char} {c : Char} :
    decode s = .error c ↔ s.find? (fun x => !isDigit x) = some c := by
  rw [← readNumber_eq_error_iff (n := 0)]
  unfold decode
  cases readNumber 0 s with
  | error x | ok n => simp [Except.map]

/-- A text whose characters are all of the alphabet is read. -/
theorem exists_decode_iff {s : List Char} : (∃ b, decode s = .ok b) ↔ ∀ c ∈ s, isDigit c = true := by
  constructor
  · rintro ⟨b, hb⟩ c hc
    have hnone : s.find? (fun x => !isDigit x) = none := by
      refine Option.eq_none_iff_forall_ne_some.mpr fun x hx => ?_
      rw [← decode_eq_error_iff, hb] at hx
      cases hx
    simpa using List.find?_eq_none.mp hnone c hc
  · intro hall
    cases hdecode : decode s with
    | ok b => exact ⟨b, rfl⟩
    | error c =>
      have hfound := decode_eq_error_iff.mp hdecode
      have hforeign := List.find?_some hfound
      rw [hall c (List.mem_of_find?_eq_some hfound)] at hforeign
      cases hforeign

/-! ## 3. Reading and then writing -/

theorem digitsOnto_mul_add {n d : Nat} (hd : d < 58) (h : n * 58 + d ≠ 0) (s : List Char) :
    digitsOnto (n * 58 + d) s = digitsOnto n (digit d :: s) := by
  have hhigh : (n * 58 + d) / 58 = n := by omega
  have hlow : (n * 58 + d) % 58 = d := by omega
  rw [digitsOnto, dif_neg h, hhigh, hlow]

/-- The digits that a number was read from stand behind those of the number before them. -/
theorem digitsOnto_of_readNumber {n m : Nat} {s : List Char} (h : readNumber n s = .ok m) (hn : n ≠ 0) (r : List Char) :
    digitsOnto m r = digitsOnto n (s ++ r) := by
  induction s generalizing n with
  | nil =>
    cases h
    rfl
  | cons c s ih =>
    rw [readNumber_cons] at h
    cases hc : digitValue? c with
    | none =>
      rw [hc] at h
      cases h
    | some d =>
      rw [hc] at h
      have hpos : n * 58 + d ≠ 0 := by omega
      rw [ih h hpos, digitsOnto_mul_add (digitValue?_lt hc) hpos, digit_of_digitValue? hc]
      rfl

/-- A text that does not start with the digit of zero is written back from its number. -/
theorem digitsOnto_of_head? {m : Nat} {s : List Char} (h : readNumber 0 s = .ok m) (hs : s.head? ≠ some '1') :
    digitsOnto m [] = s := by
  cases s with
  | nil =>
    cases h
    rw [digitsOnto, dif_pos rfl]
  | cons c s =>
    rw [readNumber_cons] at h
    cases hc : digitValue? c with
    | none =>
      rw [hc] at h
      cases h
    | some d =>
      rw [hc] at h
      have hd : 0 * 58 + d ≠ 0 := by
        intro hzero
        apply hs
        rw [List.head?_cons, ← digit_of_digitValue? hc, show d = 0 by omega, digit_zero]
      rw [digitsOnto_of_readNumber h hd, digitsOnto_mul_add (digitValue?_lt hc) hd, digit_of_digitValue? hc, digitsOnto,
        dif_pos rfl, List.append_nil]

/-- A text is written back from the bytes that it was read as. -/
theorem encode_of_decode {s : List Char} {b : Bytes} (h : decode s = .ok b) : encode b = s := by
  -- The text is its leading ones and a rest, and the bytes are as many zeros and the number of the rest.
  obtain ⟨r, hr, hs⟩ := exists_leading '1' s
  unfold decode at h
  cases hread : readNumber 0 s with
  | error c =>
    rw [hread] at h
    cases h
  | ok n =>
    rw [hread] at h
    cases h
    have hnumber : readNumber 0 r = .ok n := by
      rw [← readNumber_replicate_one, ← hs]
      exact hread
    have hzeros : ∀ x ∈ (Bytes.ofNatMinimal n).head?, decide (x = 0) = false := by
      intro x hx
      apply decide_eq_false
      rintro rfl
      exact Bytes.head?_ofNatMinimal n hx
    unfold encode
    rw [takeWhile_replicate_append _ (by decide) _ hzeros, Bytes.toNat_replicate_zero_append, Bytes.toNat_ofNatMinimal,
      digitsOnto_of_head? hnumber hr]
    exact hs.symm

/-- Bytes are read back from their text, which is over the alphabet. A text over the alphabet is written back from its
bytes. Just the texts with another character are refused. -/
theorem encode_decode_inverse :
    (∀ b : Bytes, decode (encode b) = .ok b ∧ ∀ c ∈ encode b, c ∈ alphabet) ∧
      (∀ s : List Char, (∀ c ∈ s, c ∈ alphabet) → ∃ b, decode s = .ok b ∧ encode b = s) ∧
      ∀ s : List Char, (∃ c, decode s = .error c) ↔ ∃ c ∈ s, c ∉ alphabet := by
  have hrefused : ∀ s : List Char, (∃ c, decode s = .error c) ↔ ∃ c ∈ s, c ∉ alphabet := by
    intro s
    constructor
    · rintro ⟨c, hc⟩
      have hfind := decode_eq_error_iff.mp hc
      refine ⟨c, List.mem_of_find?_eq_some hfind, ?_⟩
      rw [← isDigit_iff]
      simpa using List.find?_some hfind
    · rintro ⟨c, hmem, hc⟩
      have hsome : (s.find? fun x => !isDigit x).isSome = true := by
        rw [List.find?_isSome]
        refine ⟨c, hmem, ?_⟩
        rw [← isDigit_iff] at hc
        simpa using hc
      obtain ⟨x, hx⟩ := Option.isSome_iff_exists.mp hsome
      exact ⟨x, decode_eq_error_iff.mpr hx⟩
  refine ⟨fun b => ⟨decode_encode b, fun c hc => isDigit_iff.mp (isDigit_of_mem_encode hc)⟩, ?_, hrefused⟩
  intro s hs
  cases hd : decode s with
  | ok b => exact ⟨b, rfl, encode_of_decode hd⟩
  | error x =>
    obtain ⟨c, hmem, hc⟩ := (hrefused s).mp ⟨x, hd⟩
    exact absurd (hs c hmem) hc

-- Two leading ones, and digits whose number takes more than one byte.
theorem encode_decode_inverse_ones :
    (∀ c ∈ "11Z5z".toList, c ∈ alphabet) ∧ ∃ b, decode "11Z5z".toList = .ok b ∧ encode b = "11Z5z".toList := by
  have hdigits : "11Z5z".toList.all isDigit = true := by decide
  have hover : ∀ c ∈ "11Z5z".toList, c ∈ alphabet := fun c hc => isDigit_iff.mp (List.all_eq_true.mp hdigits c hc)
  exact ⟨hover, encode_decode_inverse.2.1 _ hover⟩

end Base58

end ContractShell
