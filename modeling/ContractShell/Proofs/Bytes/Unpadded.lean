import ContractShell.Proofs.Bytes.LenientBase64
import Mathlib.Tactic.ByContra
import Mathlib.Tactic.Push

/-!
Base64 text whose padding may be missing.

The reader adds padding up to whole groups of the text, and then reads leniently. Of a text that is base64 it sees every
digit, and so much padding that the last group is completed, however much of its own padding the text has.

## Main statements

* `decodeUnpadded_eq_ok_iff`: which texts are taken, and what they stand for.
* `exists_reads_iff_of_digits`: base64 is taken unless one digit stands alone.
* `decodeUnpadded_digits`: bytes are read back from their digits, with any padding behind them.
-/

namespace ContractShell.Base64

/-! ## 1. Texts -/

/-- A character is a digit of one of the two alphabets. -/
def IsDigit (c : Char) : Prop := (value? (ofUrlDigit c)).isSome = true

/-- A text is base64 with or without its padding: it has digits only, and padding at its end. -/
def IsPadded (text : String) : Prop :=
  ∃ digits n, text.toList = digits ++ List.replicate n '=' ∧ ∀ c ∈ digits, IsDigit c

/-- The digits and the padding that the reader sees of a text, with the padding that it adds. -/
def seen (text : String) : List Char :=
  marks ((text.toList ++ List.replicate ((4 - text.toList.length % 4) % 4) '=').map ofUrlDigit)

/-- All characters are in ASCII. -/
def IsAscii (text : String) : Prop := ∀ c ∈ text.toList, c.toNat < 128

theorem toNat_lt_of_isDigit {c : Char} (h : IsDigit c) : c.toNat < 128 := by
  by_contra hlarge
  have hother : ofUrlDigit c = c := by
    have hminus : c ≠ '-' := by rintro rfl; exact hlarge (by decide)
    have hlow : c ≠ '_' := by rintro rfl; exact hlarge (by decide)
    rw [ofUrlDigit, if_neg hminus, if_neg hlow]
  have hplus : c ≠ '+' := by rintro rfl; exact hlarge (by decide)
  have hslash : c ≠ '/' := by rintro rfl; exact hlarge (by decide)
  have hnone : value? c = none := by
    simp only [value?]
    rw [if_neg (by simp; omega), if_neg (by simp; omega), if_neg (by simp; omega), if_neg hplus, if_neg hslash]
  rw [IsDigit, hother, hnone] at h
  cases h

theorem IsPadded.isAscii {text : String} (h : IsPadded text) : IsAscii text := by
  obtain ⟨digits, n, htext, hdigits⟩ := h
  intro c hc
  rw [htext] at hc
  rcases List.mem_append.mp hc with hc | hc
  · exact toNat_lt_of_isDigit (hdigits c hc)
  · rw [List.eq_of_mem_replicate hc]
    decide

theorem decodeUnpadded_eq_ok_iff (text : String) (b : Bytes) :
    decodeUnpadded text = .ok b ↔ IsAscii text ∧ Reads (seen text) b := by
  rw [decodeUnpadded, decodeUrl]
  by_cases hascii : IsAscii text
  · have hall : ∀ c ∈ text.toList ++ List.replicate ((4 - text.toList.length % 4) % 4) '=', c.toNat < 128 := by
      intro c hc
      rcases List.mem_append.mp hc with hc | hc
      · exact hascii c hc
      · rw [List.eq_of_mem_replicate hc]
        decide
    rw [any_foreign_eq_false hall, if_neg Bool.false_ne_true, readFrom_eq_ok_iff]
    exact ⟨fun h => ⟨hascii, h⟩, fun h => h.2⟩
  · have hany : ((text.toList ++ List.replicate ((4 - text.toList.length % 4) % 4) '=').any fun c => 128 ≤ c.toNat) =
        true := by
      unfold IsAscii at hascii
      push Not at hascii
      obtain ⟨c, hc, hlarge⟩ := hascii
      exact List.any_eq_true.mpr ⟨c, List.mem_append_left _ hc, by simpa using hlarge⟩
    rw [hany, if_pos rfl]
    simp [hascii]

/-- Of a text that is base64 the reader sees every digit, and padding up to whole groups. -/
theorem seen_of_digits {text : String} {digits : List Char} {n : Nat} (htext : text.toList = digits ++ List.replicate n '=')
    (hdigits : ∀ c ∈ digits, IsDigit c) :
    ∃ m, (digits.length + m) % 4 = 0 ∧ seen text = digits.map ofUrlDigit ++ List.replicate m '=' := by
  have hlength : text.toList.length = digits.length + n := by rw [htext, List.length_append, List.length_replicate]
  refine ⟨n + (4 - text.toList.length % 4) % 4, by omega, ?_⟩
  have hpad : ofUrlDigit '=' = '=' := by decide
  rw [seen, htext, List.append_assoc, List.replicate_append_replicate, List.map_append, List.map_replicate, hpad, ← htext,
    marks, List.filter_eq_self]
  intro c hc
  rcases List.mem_append.mp hc with hc | hc
  · obtain ⟨d, hd, rfl⟩ := List.mem_map.mp hc
    rw [isMark, hdigits d hd, Bool.or_true]
  · rw [List.eq_of_mem_replicate hc]
    decide

/-- A text that is base64 is taken unless one digit stands alone. -/
theorem exists_reads_iff_of_digits {text : String} {digits : List Char} {n : Nat}
    (htext : text.toList = digits ++ List.replicate n '=') (hdigits : ∀ c ∈ digits, IsDigit c) :
    (∃ b, Reads (seen text) b) ↔ digits.length % 4 ≠ 1 := by
  obtain ⟨m, hm, hseen⟩ := seen_of_digits htext hdigits
  have htakes := exists_takes_padded_iff 0 0 m (digits.map ofUrlDigit)
    (fun c hc => by
      obtain ⟨d, hd, rfl⟩ := List.mem_map.mp hc
      exact hdigits d hd)
    (by rw [List.length_map]; exact hm)
  rw [List.length_map, ← hseen] at htakes
  rw [← htakes]
  exact exists_congr fun b => ⟨Reads.takes, fun h => h.reads fun c hc => (List.mem_filter.mp hc).2⟩

/-! ## 2. Lost padding -/

theorem value?_digit {v : Nat} (h : v < 64) : value? (digit v) = some v := (digit_spec h).1

/-- Padding alone is no bytes. -/
theorem reads_replicate (m : Nat) : Reads (List.replicate m '=') [] := by
  induction m with
  | zero => exact .done
  | succ m ih => exact .pad ih

/-- The digits of bytes, with padding up to whole groups, are read as the bytes. -/
theorem reads_sextets {b : Bytes} {m : Nat} (hm : ((sextets b).length + m) % 4 = 0) :
    Reads ((sextets b).map digit ++ List.replicate m '=') b := by
  -- The induction goes from group to group. Only the last one may lack digits, and there is padding for each of them.
  induction b using sextets.induct with
  | case1 => exact reads_replicate m
  | case2 x =>
    have hx : x.toNat < 256 := x.toNat_lt
    obtain ⟨n, rfl⟩ : ∃ n, m = n + 2 := ⟨m - 2, by simp only [sextets, List.length_cons, List.length_nil] at hm; omega⟩
    have htwo := Reads.two 0 (List.replicate n '=') (value?_digit (v := x.toNat / 4) (by omega))
      (value?_digit (v := x.toNat % 4 * 16) (by omega))
    rwa [ofNat_eq (x := x) (by omega)] at htwo
  | case3 x y =>
    have hx : x.toNat < 256 := x.toNat_lt
    have hy : y.toNat < 256 := y.toNat_lt
    obtain ⟨n, rfl⟩ : ∃ n, m = n + 1 := ⟨m - 1, by simp only [sextets, List.length_cons, List.length_nil] at hm; omega⟩
    have hthree := Reads.three 0 Nat.zero_lt_two (List.replicate n '=') (value?_digit (v := x.toNat / 4) (by omega))
      (value?_digit (v := x.toNat % 4 * 16 + y.toNat / 16) (by omega)) (value?_digit (v := y.toNat % 16 * 4) (by omega))
    rwa [ofNat_eq (x := x) (by omega), ofNat_eq (x := y) (by omega)] at hthree
  | case4 x y z r ih =>
    have hx : x.toNat < 256 := x.toNat_lt
    have hy : y.toNat < 256 := y.toNat_lt
    have hz : z.toNat < 256 := z.toNat_lt
    have hrest : ((sextets r).length + m) % 4 = 0 := by
      simp only [sextets, List.length_cons] at hm
      omega
    have hgroup := Reads.group 0 Nat.zero_lt_two (value?_digit (v := x.toNat / 4) (by omega))
      (value?_digit (v := x.toNat % 4 * 16 + y.toNat / 16) (by omega))
      (value?_digit (v := y.toNat % 16 * 4 + z.toNat / 64) (by omega)) (value?_digit (v := z.toNat % 64) (by omega))
      (ih hrest)
    rwa [ofNat_eq (x := x) (by omega), ofNat_eq (x := y) (by omega), ofNat_eq (x := z) (by omega)] at hgroup

theorem isDigit_urlDigit {v : Nat} (h : v < 64) : IsDigit (urlDigit v) := by
  obtain ⟨hvalue, -, -, hurl, -⟩ := digit_spec h
  rw [IsDigit, hurl, hvalue]
  rfl

/-- Bytes are read back from their digits, with any padding behind them. -/
theorem decodeUnpadded_digits (b : Bytes) (n : Nat) :
    decodeUnpadded (String.ofList ((sextets b).map urlDigit ++ List.replicate n '=')) = .ok b := by
  have hdigits : ∀ c ∈ (sextets b).map urlDigit, IsDigit c := by
    intro c hc
    obtain ⟨v, hv, rfl⟩ := List.mem_map.mp hc
    exact isDigit_urlDigit (sextets_lt b v hv)
  have htext := String.toList_ofList (l := (sextets b).map urlDigit ++ List.replicate n '=')
  have hstandard : ((sextets b).map urlDigit).map ofUrlDigit = (sextets b).map digit := by
    rw [List.map_map]
    exact List.map_congr_left fun v hv => (digit_spec (sextets_lt b v hv)).2.2.2.1
  obtain ⟨m, hm, hseen⟩ := seen_of_digits htext hdigits
  rw [List.length_map] at hm
  rw [decodeUnpadded_eq_ok_iff, hseen, hstandard]
  exact ⟨IsPadded.isAscii ⟨_, n, htext, hdigits⟩, reads_sextets hm⟩

/-- A digit of the address-safe alphabet is a letter, a figure, a hyphen or an underscore. -/
theorem urlDigit_plain {v : Nat} (h : v < 64) :
    (urlDigit v).isAlphanum = true ∨ urlDigit v = '-' ∨ urlDigit v = '_' := by
  have hall : ∀ v : Fin 64, (urlDigit v.val).isAlphanum = true ∨ urlDigit v.val = '-' ∨ urlDigit v.val = '_' := by
    decide +kernel
  exact hall ⟨v, h⟩

/-- The address-safe text of bytes is letters, figures, hyphens and underscores, and padding up to whole groups behind them.
However much of the padding is left, the bytes are read back. -/
theorem encodeUrl_survives (b : Bytes) :
    ∃ digits, (encodeUrl b).toList = digits ++ List.replicate ((3 - b.length % 3) % 3) '=' ∧
      (∀ c ∈ digits, c.isAlphanum = true ∨ c = '-' ∨ c = '_') ∧
      ∀ n, decodeUnpadded (String.ofList (digits ++ List.replicate n '=')) = .ok b := by
  refine ⟨(sextets b).map urlDigit, ?_, fun c hc => ?_, decodeUnpadded_digits b⟩
  · rw [encodeUrl, String.toList_ofList, encodeWith_eq]
  · obtain ⟨v, hv, rfl⟩ := List.mem_map.mp hc
    exact urlDigit_plain (sextets_lt b v hv)

end ContractShell.Base64
