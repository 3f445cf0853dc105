import ContractShell.Bytes.Base58
import ContractShell.Bytes.Basic
import Mathlib.Algebra.Group.Nat.Defs

/-!
Bytes as digits: hexadecimal and base58 text are read back as the bytes that they were written for.

## Main statements

* `Hex.decode?_encode`: bytes are read back from their hexadecimal digits.
* `Bytes.ofNatMinimal_toNat`: bytes without a leading zero are read back from their number.
* `Base58.decode_encode`: bytes are read back from their base58 text.
-/

namespace ContractShell

/-! ## 1. Hexadecimal text -/

namespace Hex

theorem hexDigit?_hexChar {d : Nat} (h : d < 16) : Text.hexDigit? (Text.hexChar d) = some d := by
  have hall : ∀ d : Fin 16, Text.hexDigit? (Text.hexChar d.val) = some d.val := by decide +kernel
  exact hall ⟨d, h⟩

/-- Bytes are read back from their hexadecimal digits. -/
theorem decode?_encode (b : Bytes) : decode? (encode b) = some b := by
  induction b with
  | nil => rfl
  | cons x r ih =>
    have hlt : x.toNat < 256 := x.toNat_lt
    have hx : UInt8.ofNat (16 * (x.toNat / 16) + x.toNat % 16) = x := by
      rw [Nat.div_add_mod, UInt8.ofNat_toNat]
    show decode? (Text.hexChar (x.toNat / 16) :: Text.hexChar (x.toNat % 16) :: encode r) = _
    rw [decode?, hexDigit?_hexChar (by omega), hexDigit?_hexChar (by omega), ih]
    simp only [hx]

theorem isHexDigit_of_mem_encode {b : Bytes} {c : Char} (h : c ∈ encode b) : Text.isHexDigit c = true := by
  obtain ⟨x, _, hc⟩ := List.mem_flatMap.mp h
  have hlt : x.toNat < 256 := x.toNat_lt
  have hdigit : ∀ d < 16, Text.isHexDigit (Text.hexChar d) = true := by
    intro d hd
    unfold Text.isHexDigit
    rw [hexDigit?_hexChar hd]
    rfl
  simp only [encodeByte, List.mem_cons, List.not_mem_nil, or_false] at hc
  rcases hc with rfl | rfl
  · exact hdigit _ (by omega)
  · exact hdigit _ (by omega)

theorem encode_injective : Function.Injective encode := by
  intro a b h
  have hread := congrArg decode? h
  rw [decode?_encode, decode?_encode] at hread
  exact Option.some.inj hread

end Hex

/-! ## 2. Numbers in base 256 -/

namespace Bytes

theorem exists_append_singleton {b : Bytes} {n : Nat} (h : b.length = n + 1) :
    ∃ init x, b = init ++ [x] ∧ init.length = n := by
  have hne : b ≠ [] := by
    rintro rfl
    cases h
  refine ⟨List.dropLast b, b.getLast hne, (List.dropLast_concat_getLast hne).symm, ?_⟩
  rw [List.length_dropLast, h, Nat.add_sub_cancel]

theorem toNat_append_singleton (b : Bytes) (x : UInt8) : toNat (b ++ [x]) = toNat b * 256 + x.toNat := by
  simp [toNat]

theorem ofNat_succ (w n : Nat) : ofNat (w + 1) n = ofNat w (n / 256) ++ [UInt8.ofNat n] := by
  unfold ofNat
  rw [List.range_succ, List.map_append]
  congr 1
  · apply List.map_congr_left
    intro i hi
    have hshift : 8 * (w + 1 - 1 - i) = 8 + 8 * (w - 1 - i) := by
      have := List.mem_range.mp hi
      omega
    rw [hshift, Nat.shiftRight_add, Nat.shiftRight_eq_div_pow n 8]
  · simp

/-- A number written at its width has the digits that it was read from. -/
theorem ofNat_toNat (b : Bytes) : ofNat b.length (toNat b) = b := by
  -- Bytes are added at the end, where the number's last digit is.
  induction hn : b.length generalizing b with
  | zero =>
    rw [List.length_eq_zero_iff.mp hn]
    rfl
  | succ n ih =>
    obtain ⟨init, x, rfl, hlen⟩ := exists_append_singleton hn
    have hlt : x.toNat < 256 := x.toNat_lt
    have hlow : UInt8.ofNat (toNat init * 256 + x.toNat) = x := by
      apply UInt8.toNat_inj.mp
      rw [UInt8.toNat_ofNat']
      omega
    have hhigh : (toNat init * 256 + x.toNat) / 256 = toNat init := by omega
    rw [toNat_append_singleton, ofNat_succ, hlow, hhigh, ih init hlen]

/-- A number that fits a width is read back from its digits. -/
theorem toNat_ofNat {w n : Nat} (h : n < 256 ^ w) : toNat (ofNat w n) = n := by
  induction w generalizing n with
  | zero =>
    rw [Nat.pow_zero] at h
    rw [show n = 0 by omega]
    rfl
  | succ w ih =>
    rw [Nat.pow_succ] at h
    rw [ofNat_succ, toNat_append_singleton, ih (by omega), UInt8.toNat_ofNat']
    omega

theorem toNat_lt (b : Bytes) : toNat b < 2 ^ (8 * b.length) := by
  induction hn : b.length generalizing b with
  | zero =>
    rw [List.length_eq_zero_iff.mp hn]
    exact Nat.one_pos
  | succ n ih =>
    obtain ⟨init, x, rfl, hlen⟩ := exists_append_singleton hn
    have hlt : x.toNat < 256 := x.toNat_lt
    have hinit := ih init hlen
    rw [toNat_append_singleton, Nat.mul_add, Nat.mul_one, Nat.pow_add]
    omega

theorem le_toNat_cons (x : UInt8) (b : Bytes) : x.toNat * 2 ^ (8 * b.length) ≤ toNat (x :: b) := by
  induction hn : b.length generalizing b with
  | zero =>
    rw [List.length_eq_zero_iff.mp hn]
    simp [toNat]
  | succ n ih =>
    obtain ⟨init, y, rfl, hlen⟩ := exists_append_singleton hn
    have hinit := ih init hlen
    rw [← List.cons_append, toNat_append_singleton, Nat.mul_add, Nat.mul_one, Nat.pow_add, ← Nat.mul_assoc]
    omega

theorem width_toNat {x : UInt8} (hx : x ≠ 0) (b : Bytes) : width (toNat (x :: b)) = (x :: b).length := by
  have hpos : 0 < x.toNat := by
    apply Nat.pos_of_ne_zero
    intro h
    exact hx (UInt8.toNat_inj.mp h)
  have hlow : 2 ^ (8 * b.length) ≤ toNat (x :: b) :=
    Nat.le_trans (Nat.le_mul_of_pos_left _ hpos) (le_toNat_cons x b)
  have hhigh := toNat_lt (x :: b)
  have hne : toNat (x :: b) ≠ 0 := by
    have := Nat.two_pow_pos (8 * b.length)
    omega
  have hlog : 8 * b.length ≤ (toNat (x :: b)).log2 := (Nat.le_log2 hne).mpr hlow
  have hlog' : (toNat (x :: b)).log2 < 8 * (x :: b).length := (Nat.log2_lt hne).mpr hhigh
  unfold width
  rw [if_neg hne, List.length_cons] at *
  omega

/-- Bytes without a leading zero are read back from their number. -/
theorem ofNatMinimal_toNat {b : Bytes} (h : b.head? ≠ some 0) : ofNatMinimal (toNat b) = b := by
  cases b with
  | nil => rfl
  | cons x r =>
    have hx : x ≠ 0 := by
      rintro rfl
      exact h rfl
    unfold ofNatMinimal
    rw [width_toNat hx, ofNat_toNat]

theorem toNat_replicate_zero_append (k : Nat) (b : Bytes) : toNat (List.replicate k 0 ++ b) = toNat b := by
  induction k with
  | zero => rfl
  | succ k ih => exact ih

end Bytes

/-! ## 3. Base58 text -/

namespace Base58

/-- No character is a digit twice. -/
theorem alphabet_ne {i j : Nat} (hij : i < j) (hj : j < alphabet.length) : alphabet[i] ≠ alphabet[j] := by
  have hcodes : (alphabet.map Char.toNat).Pairwise (· ≠ ·) := by
    rw [alphabet_eq]
    decide +kernel
  intro h
  exact List.pairwise_iff_getElem.mp (List.pairwise_map.mp hcodes) i j (by omega) hj hij (congrArg Char.toNat h)

theorem digit_eq_getElem {d : Nat} (h : d < alphabet.length) : digit d = alphabet[d] := by
  rw [digit, List.getD_eq_getElem?_getD, List.getElem?_eq_getElem h, Option.getD_some]

theorem digit_zero : digit 0 = '1' := by
  rw [digit, alphabet_eq]
  rfl

/-- A digit is read back as its place in the alphabet. -/
theorem digitValue?_digit {d : Nat} (h : d < 58) : digitValue? (digit d) = some d := by
  have hlt : d < alphabet.length := length_alphabet ▸ h
  rw [digit_eq_getElem hlt, digitValue?, List.idxOf?, List.findIdx?_eq_some_iff_getElem]
  exact ⟨hlt, beq_self_eq_true _, fun j hj => by simpa using alphabet_ne hj hlt⟩

/-- Only the first digit is the '1' of a zero byte. -/
theorem digit_ne_one {d : Nat} (h : d < 58) (hd : d ≠ 0) : digit d ≠ '1' := by
  have hlt : d < alphabet.length := length_alphabet ▸ h
  rw [← digit_zero, digit_eq_getElem hlt, digit_eq_getElem (by omega)]
  exact (alphabet_ne (Nat.pos_of_ne_zero hd) hlt).symm

theorem isDigit_digit {d : Nat} (h : d < 58) : isDigit (digit d) = true := by
  have hlt : d < alphabet.length := length_alphabet ▸ h
  rw [digit_eq_getElem hlt, isDigit, List.contains_iff_mem]
  exact List.getElem_mem hlt

/-- The digits of a number are read as that number. -/
theorem readNumber_digitsOnto (n : Nat) (s : List Char) : readNumber 0 (digitsOnto n s) = readNumber n s := by
  induction n using Nat.strongRecOn generalizing s with
  | ind n ih =>
    rw [digitsOnto]
    by_cases hn : n = 0
    · rw [dif_pos hn, hn]
    · rw [dif_neg hn, ih (n / 58) (by omega), readNumber_cons, digitValue?_digit (by omega)]
      simp only [Nat.mul_comm (n / 58), Nat.div_add_mod]

theorem readNumber_replicate_one (k : Nat) (s : List Char) :
    readNumber 0 (List.replicate k '1' ++ s) = readNumber 0 s := by
  induction k with
  | zero => rfl
  | succ k ih =>
    have hone : digitValue? '1' = some 0 := digit_zero ▸ digitValue?_digit (by decide)
    rw [List.replicate_succ, List.cons_append, readNumber_cons, hone]
    exact ih

/-- The first digit of a number is not the one that stands for zero. -/
theorem head?_digitsOnto {n : Nat} (hn : n ≠ 0) (s : List Char) : (digitsOnto n s).head? ≠ some '1' := by
  induction n using Nat.strongRecOn generalizing s with
  | ind n ih =>
    rw [digitsOnto, dif_neg hn]
    by_cases hq : n / 58 = 0
    · rw [hq, digitsOnto, dif_pos rfl, List.head?_cons]
      intro h
      exact digit_ne_one (by omega) (by omega) (Option.some.inj h)
    · exact ih (n / 58) (by omega) hq _

theorem isDigit_of_mem_digitsOnto {n : Nat} {s : List Char} (hs : ∀ c ∈ s, isDigit c = true) :
    ∀ c ∈ digitsOnto n s, isDigit c = true := by
  induction n using Nat.strongRecOn generalizing s with
  | ind n ih =>
    rw [digitsOnto]
    by_cases hn : n = 0
    · rw [dif_pos hn]
      exact hs
    · rw [dif_neg hn]
      apply ih (n / 58) (by omega)
      intro c hc
      rcases List.mem_cons.mp hc with rfl | hc
      · exact isDigit_digit (by omega)
      · exact hs c hc

theorem isDigit_of_mem_encode {b : Bytes} {c : Char} (h : c ∈ encode b) : isDigit c = true := by
  rcases List.mem_append.mp h with h | h
  · rw [(List.mem_replicate.mp h).2, ← digit_zero]
    exact isDigit_digit (by decide)
  · exact isDigit_of_mem_digitsOnto (by simp) c h

theorem takeWhile_replicate_append {α : Type} (p : α → Bool) {a : α} (ha : p a = true) (k : Nat) {s : List α}
    (hs : ∀ x ∈ s.head?, p x = false) : ((List.replicate k a ++ s).takeWhile p).length = k := by
  induction k with
  | zero =>
    cases s with
    | nil => rfl
    | cons x r =>
      have hx : p x = false := hs x rfl
      simp [hx]
  | succ k ih =>
    rw [List.replicate_succ, List.cons_append, List.takeWhile_cons, if_pos ha, List.length_cons, ih]

/-- A list is what stands in front as often as its start says, and a rest that does not start with it. -/
theorem exists_leading {α : Type} [DecidableEq α] (a : α) (l : List α) :
    ∃ r : List α, r.head? ≠ some a ∧ l = List.replicate (l.takeWhile (· = a)).length a ++ r := by
  induction l with
  | nil => exact ⟨[], nofun, rfl⟩
  | cons x l ih =>
    by_cases hx : x = a
    · obtain ⟨r, hr, hl⟩ := ih
      refine ⟨r, hr, ?_⟩
      rw [List.takeWhile_cons, if_pos (decide_eq_true hx), List.length_cons, List.replicate_succ, List.cons_append,
        ← hl, hx]
    · refine ⟨x :: l, ?_, ?_⟩
      · intro h
        exact hx (Option.some.inj h)
      · rw [List.takeWhile_cons, if_neg (by simpa using hx)]
        rfl

/-- Bytes are read back from their base58 text. -/
theorem decode_encode (b : Bytes) : decode (encode b) = .ok b := by
  obtain ⟨c, hc, hb⟩ := exists_leading 0 b
  have hnat : Bytes.toNat b = Bytes.toNat c := by rw [hb, Bytes.toNat_replicate_zero_append]
  have hfirst : ∀ x ∈ (digitsOnto (Bytes.toNat b) []).head?, decide (x = '1') = false := by
    intro x hx
    by_cases hn : Bytes.toNat b = 0
    · rw [hn, digitsOnto, dif_pos rfl] at hx
      cases hx
    · apply decide_eq_false
      rintro rfl
      exact head?_digitsOnto hn [] hx
  unfold decode encode
  rw [readNumber_replicate_one, readNumber_digitsOnto, takeWhile_replicate_append _ (by decide) _ hfirst]
  show Except.ok (List.replicate (b.takeWhile (· = 0)).length 0 ++ Bytes.ofNatMinimal (Bytes.toNat b)) = _
  rw [hnat, Bytes.ofNatMinimal_toNat hc, ← hb]

theorem toString_injective : Function.Injective Base58.toString := by
  intro a b h
  have hread := congrArg decode (String.ofList_injective h)
  rw [decode_encode, decode_encode] at hread
  exact Except.ok.inj hread

theorem encode_ne_nil {b : Bytes} (h : b ≠ []) : encode b ≠ [] := by
  intro hnil
  have hb := decode_encode b
  rw [hnil] at hb
  exact h (Except.ok.inj hb).symm

end Base58

end ContractShell
