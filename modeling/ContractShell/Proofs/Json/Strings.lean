import ContractShell.Json.Reader
import ContractShell.Json.Writer
import ContractShell.Proofs.Bytes.Digits
import ContractShell.Proofs.Text.Utf8

/-!
Strings of JSON documents: every string is read back from what is written, and what is written is printable ASCII.

## Main statements

* `readStringFrom_writeString`: a string is read back, whatever follows it.
* `writeString_append_inj`: a written string shows where it ends.
-/

namespace ContractShell.Json

/-! ## 1. Forms of a character -/

/-- A printable character of ASCII. -/
def isPlain (c : Char) : Bool := 32 ≤ c.toNat && c.toNat ≤ 126

/-- How a character is written: in short, as itself, by its number, or by two. -/
inductive IsWritten (c : Char) : List Char → Prop where
  | short {e : Char} (hunit : e ≠ 'u') (hplain : isPlain e = true) (he : shortEscape? e = some c) :
      IsWritten c ['\\', e]
  | plain (hplain : isPlain c = true) (hquote : c ≠ '"') (hslash : c ≠ '\\') : IsWritten c [c]
  | unit (h : c.toNat < 0x10000) : IsWritten c (unitEscape c.toNat)
  | pair (h : 0x10000 ≤ c.toNat) :
      IsWritten c (unitEscape (surrogates c.toNat).1 ++ unitEscape (surrogates c.toNat).2)

theorem isWritten_escape (c : Char) : IsWritten c (escape c) := by
  have hc : Char.ofNat c.toNat = c := Char.ofNat_toNat c
  unfold escape
  split
  next h => exact .short (by decide) (by decide) (by rw [h]; rfl)
  split
  next h => exact .short (by decide) (by decide) (by rw [h]; rfl)
  split
  next h => exact .short (by decide) (by decide) (by rw [h]; rfl)
  split
  next h => exact .short (by decide) (by decide) (by rw [h]; rfl)
  split
  next h => exact .short (by decide) (by decide) (by rw [h]; rfl)
  split
  next h => exact .short (by decide) (by decide) (by rw [← hc, h]; rfl)
  split
  next h => exact .short (by decide) (by decide) (by rw [← hc, h]; rfl)
  split
  next hquote hslash _ _ _ _ _ h => exact .plain (by simpa [isPlain] using h) hquote hslash
  split
  next h => exact .unit h
  next h => exact .pair (Nat.le_of_not_lt h)

/-! ## 2. Units -/

theorem hexFixed_four (n : Nat) : Text.hexFixed 4 n =
    [Text.hexChar (n / 4096 % 16), Text.hexChar (n / 256 % 16), Text.hexChar (n / 16 % 16), Text.hexChar (n % 16)] := by
  show [Text.hexChar (n / 4096 % 16), Text.hexChar (n / 256 % 16), Text.hexChar (n / 16 % 16),
    Text.hexChar (n / 1 % 16)] = _
  rw [Nat.div_one]

theorem readUnit?_hexFixed {n : Nat} (h : n < 0x10000) (r : List Char) :
    readUnit? (Text.hexFixed 4 n ++ r) = some (n, r) := by
  have hdigit (m : Nat) : Text.hexDigit? (Text.hexChar (m % 16)) = some (m % 16) :=
    Hex.hexDigit?_hexChar (Nat.mod_lt m (by decide))
  have hvalue : ((n / 4096 % 16 * 16 + n / 256 % 16) * 16 + n / 16 % 16) * 16 + n % 16 = n := by omega
  rw [hexFixed_four]
  simp only [List.cons_append, List.nil_append, readUnit?, hdigit, Option.bind_eq_bind, Option.bind_some, hvalue]

/-- A unit that is none of a pair is the character of its number, whatever follows it. -/
theorem readEscapedUnit?_single {n : Nat} (h : n < 0xD800 ∨ 0xDFFF < n) (hn : n < 0x10000) (r : List Char) :
    readEscapedUnit? (Text.hexFixed 4 n ++ r) = some (Char.ofNat n, r) := by
  have hfirst : Text.Units.isFirst n = false := by
    simp only [Text.Units.isFirst, Bool.and_eq_false_iff, decide_eq_false_iff_not]
    omega
  have hsecond : Text.Units.isSecond n = false := by
    simp only [Text.Units.isSecond, Bool.and_eq_false_iff, decide_eq_false_iff_not]
    omega
  have halone : Text.Units.single n = Char.ofNat n := by
    rw [Text.Units.single, hfirst, hsecond]
    rfl
  simp only [readEscapedUnit?, readUnit?_hexFixed hn, Option.bind_eq_bind, Option.bind_some, halone, hfirst,
    Bool.false_eq_true, if_false]
  split <;> rfl

/-- The two units of a character above `0xFFFF` are read as that character. -/
theorem readEscapedUnit?_pair {n : Nat} (h : 0x10000 ≤ n) (hn : n < 0x110000) (r : List Char) :
    readEscapedUnit? (Text.hexFixed 4 (surrogates n).1 ++ (unitEscape (surrogates n).2 ++ r)) =
      some (Char.ofNat n, r) := by
  obtain ⟨k, hk, rfl⟩ : ∃ k, k < 0x100000 ∧ n = 0x10000 + k := ⟨n - 0x10000, by omega, by omega⟩
  have hpair : surrogates (0x10000 + k) = (0xD800 + k / 1024, 0xDC00 + k % 1024) := by
    simp only [surrogates, Nat.add_sub_cancel_left]
  have hfirst : Text.Units.isFirst (0xD800 + k / 1024) = true := by
    simp only [Text.Units.isFirst, Bool.and_eq_true, decide_eq_true_eq]
    omega
  have hsecond : Text.Units.isSecond (0xDC00 + k % 1024) = true := by
    simp only [Text.Units.isSecond, Bool.and_eq_true, decide_eq_true_eq]
    omega
  have hjoined : Text.Units.joined (0xD800 + k / 1024) (0xDC00 + k % 1024) = Char.ofNat (0x10000 + k) := by
    rw [Text.Units.joined, Nat.add_sub_cancel_left, Nat.add_sub_cancel_left, Nat.add_assoc, Nat.div_add_mod']
  simp only [hpair, readEscapedUnit?, unitEscape, List.cons_append, Option.bind_eq_bind, Option.bind_some,
    readUnit?_hexFixed (show 0xD800 + k / 1024 < 0x10000 by omega),
    readUnit?_hexFixed (show 0xDC00 + k % 1024 < 0x10000 by omega), hfirst, hsecond, hjoined, if_true]
  rfl

/-! ## 3. One character -/

section

variable (fuel : Nat) (gathered : List Char) {c : Char}

theorem readStringFrom_quote (r : List Char) :
    readStringFrom (fuel + 1) gathered ('"' :: r) = some (String.ofList gathered.reverse, r) := by
  simp [readStringFrom]

theorem readStringFrom_plain (hplain : isPlain c = true) (hquote : c ≠ '"') (hslash : c ≠ '\\') (r : List Char) :
    readStringFrom (fuel + 1) gathered (c :: r) = readStringFrom fuel (c :: gathered) r := by
  rw [isPlain, Bool.and_eq_true, decide_eq_true_eq, decide_eq_true_eq] at hplain
  rw [readStringFrom]
  · rw [if_neg (by omega), if_neg hslash]
  · exact hquote
  · exact fun _ h => absurd h hslash
  · exact fun _ _ h => absurd h hslash

theorem readStringFrom_short {e : Char} (hunit : e ≠ 'u') (he : shortEscape? e = some c) (r : List Char) :
    readStringFrom (fuel + 1) gathered ('\\' :: e :: r) = readStringFrom fuel (c :: gathered) r := by
  rw [readStringFrom, he]
  exact fun h => absurd h hunit

theorem readStringFrom_unit {s r : List Char} (h : readEscapedUnit? s = some (c, r)) :
    readStringFrom (fuel + 1) gathered ('\\' :: 'u' :: s) = readStringFrom fuel (c :: gathered) r := by
  simp only [readStringFrom, h]

/-- What is written for a character is read as that character. -/
theorem readStringFrom_escape (c : Char) (r : List Char) :
    readStringFrom (fuel + 1) gathered (escape c ++ r) = readStringFrom fuel (c :: gathered) r := by
  have hscalar := Text.Utf8.isScalar c
  have hc : Char.ofNat c.toNat = c := Char.ofNat_toNat c
  have hform := isWritten_escape c
  generalize escape c = text at hform ⊢
  cases hform with
  | short hunit _ he => exact readStringFrom_short fuel gathered hunit he r
  | plain hplain hquote hslash => exact readStringFrom_plain fuel gathered hplain hquote hslash r
  | unit h =>
    have hread := readEscapedUnit?_single (n := c.toNat) (by omega) h r
    rw [hc] at hread
    exact readStringFrom_unit fuel gathered hread
  | pair h =>
    have hread := readEscapedUnit?_pair (n := c.toNat) h (by omega) r
    rw [hc] at hread
    rw [List.append_assoc]
    exact readStringFrom_unit fuel gathered hread

end

/-! ## 4. Strings -/

theorem readStringFrom_flatMap {fuel : Nat} {s : List Char} (h : s.length < fuel) (gathered r : List Char) :
    readStringFrom fuel gathered (s.flatMap escape ++ '"' :: r) = some (String.ofList (gathered.reverse ++ s), r) := by
  induction s generalizing fuel gathered with
  | nil =>
    obtain ⟨fuel, rfl⟩ := Nat.exists_eq_add_one_of_ne_zero (Nat.ne_of_gt h)
    rw [List.append_nil]
    exact readStringFrom_quote fuel gathered r
  | cons c s ih =>
    obtain ⟨fuel, rfl⟩ := Nat.exists_eq_add_one_of_ne_zero (Nat.ne_of_gt (Nat.lt_of_le_of_lt (Nat.zero_le _) h))
    rw [List.flatMap_cons, List.append_assoc, readStringFrom_escape, ih (Nat.lt_of_succ_lt_succ h),
      List.reverse_cons, List.append_assoc, List.singleton_append]

theorem writeString_append (s : String) (r : List Char) :
    writeString s ++ r = '"' :: (s.toList.flatMap escape ++ '"' :: r) := by
  simp [writeString]

/-- A string is read back, whatever follows it. -/
theorem readStringFrom_writeString {fuel : Nat} {s : String} (h : s.toList.length < fuel) (r : List Char) :
    readStringFrom fuel [] (s.toList.flatMap escape ++ '"' :: r) = some (s, r) := by
  rw [readStringFrom_flatMap h, List.reverse_nil, List.nil_append, String.ofList_toList]

/-- A written string shows where it ends. -/
theorem writeString_append_inj {a b : String} {r s : List Char} (h : writeString a ++ r = writeString b ++ s) :
    a = b ∧ r = s := by
  -- Both sides are read with enough fuel for either.
  have ha := readStringFrom_writeString (show a.toList.length < a.toList.length + b.toList.length + 1 by omega) r
  have hb := readStringFrom_writeString (show b.toList.length < a.toList.length + b.toList.length + 1 by omega) s
  rw [writeString_append, writeString_append] at h
  rw [(List.cons.inj h).2, hb] at ha
  exact ⟨(Prod.mk.inj (Option.some.inj ha)).1.symm, (Prod.mk.inj (Option.some.inj ha)).2.symm⟩

/-! ## 5. Characters -/

theorem isPlain_hexChar {d : Nat} (h : d < 16) : isPlain (Text.hexChar d) = true := by
  have hall : ∀ d : Fin 16, isPlain (Text.hexChar d.val) = true := by decide
  exact hall ⟨d, h⟩

theorem isPlain_of_mem_unitEscape {n : Nat} {c : Char} (h : c ∈ unitEscape n) : isPlain c = true := by
  have hdigit (m : Nat) : isPlain (Text.hexChar (m % 16)) = true := isPlain_hexChar (Nat.mod_lt m (by decide))
  rw [unitEscape, hexFixed_four] at h
  simp only [List.mem_cons, List.not_mem_nil, or_false] at h
  rcases h with rfl | rfl | rfl | rfl | rfl | rfl
  · decide
  · decide
  all_goals exact hdigit _

theorem isPlain_of_mem_escape {c d : Char} (h : d ∈ escape c) : isPlain d = true := by
  have hform := isWritten_escape c
  generalize escape c = text at hform h
  cases hform with
  | short _ hplain _ =>
    simp only [List.mem_cons, List.not_mem_nil, or_false] at h
    rcases h with rfl | rfl
    · decide
    · exact hplain
  | plain hplain => rwa [List.mem_singleton.mp h]
  | unit => exact isPlain_of_mem_unitEscape h
  | pair =>
    rcases List.mem_append.mp h with h | h
    · exact isPlain_of_mem_unitEscape h
    · exact isPlain_of_mem_unitEscape h

/-- What is written for a string is printable ASCII. -/
theorem isPlain_of_mem_writeString {s : String} {c : Char} (h : c ∈ writeString s) : isPlain c = true := by
  rw [writeString, List.mem_append, List.mem_cons, List.mem_singleton] at h
  rcases h with (rfl | h) | rfl
  · decide
  · obtain ⟨d, _, hd⟩ := List.mem_flatMap.mp h
    exact isPlain_of_mem_escape hd
  · decide

end ContractShell.Json
