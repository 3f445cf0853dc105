import ContractShell.Text.Utf8

/-!
UTF-8: every text is read back from its bytes.

## Main statements

* `decodeFrom_encodeChar`: the bytes of a character are read as that character, whatever follows them.
* `toString?_ofString`: a string is read back from its bytes.
-/

namespace ContractShell.Text.Utf8

/-! ## 1. Single bytes -/

theorem toNat_ofNat_of_lt {n : Nat} (h : n < 256) : (UInt8.ofNat n).toNat = n := by
  rw [UInt8.toNat_ofNat']
  exact Nat.mod_eq_of_lt h

section

variable {position value owed low high start good : Nat} {first b : UInt8} {r : Bytes}

/-- A byte of the range that is due continues a character. -/
theorem decodeFrom_middle (hlow : low ≤ b.toNat) (hhigh : b.toNat ≤ high) :
    decodeFrom position (some ⟨value, owed + 2, low, high, start, first, good⟩) (b :: r) =
      decodeFrom (position + 1)
        (some ⟨value * 64 + (b.toNat - 0x80), owed + 1, 0x80, 0xBF, start, first, good + 1⟩) r := by
  rw [decodeFrom, if_pos ⟨hlow, hhigh⟩]
  exact if_neg (by simp)

/-- The last byte that is due ends a character. -/
theorem decodeFrom_last (hlow : low ≤ b.toNat) (hhigh : b.toNat ≤ high) :
    decodeFrom position (some ⟨value, 1, low, high, start, first, good⟩) (b :: r) =
      (decodeFrom (position + 1) none r).map (Char.ofNat (value * 64 + (b.toNat - 0x80)) :: ·) := by
  rw [decodeFrom, if_pos ⟨hlow, hhigh⟩]
  exact if_pos rfl

theorem decodeFrom_single (h : lead? b = some (value, 0, low, high)) :
    decodeFrom position none (b :: r) = (decodeFrom (position + 1) none r).map (Char.ofNat value :: ·) := by
  simp only [decodeFrom, h]

theorem decodeFrom_lead (h : lead? b = some (value, owed + 1, low, high)) :
    decodeFrom position none (b :: r) =
      decodeFrom (position + 1) (some ⟨value, owed + 1, low, high, position, b, 1⟩) r := by
  simp only [decodeFrom, h]

end

/-! ## 2. First bytes -/

theorem lead?_one {n : Nat} (h : n < 0x80) : lead? (UInt8.ofNat n) = some (n, 0, 0, 0) := by
  unfold lead?
  simp only [toNat_ofNat_of_lt (show n < 256 by omega)]
  rw [if_pos h]

theorem lead?_two {n : Nat} (h : 2 ≤ n) (h' : n < 0x20) :
    lead? (UInt8.ofNat (0xC0 + n)) = some (n, 1, 0x80, 0xBF) := by
  unfold lead?
  simp only [toNat_ofNat_of_lt (show 0xC0 + n < 256 by omega)]
  rw [if_neg (by omega), if_neg (by omega), if_pos (by omega), Nat.add_sub_cancel_left]

/-- The range of a second byte after a first byte of three: overlong forms and surrogates are left out. -/
theorem lead?_three {n m : Nat} (h : n < 0x10) (hlow : n = 0 → 0x20 ≤ m) (hsurrogate : n = 0xD → m < 0x20)
    (hm : m < 0x40) :
    ∃ low high, lead? (UInt8.ofNat (0xE0 + n)) = some (n, 2, low, high) ∧ low ≤ 0x80 + m ∧ 0x80 + m ≤ high := by
  unfold lead?
  simp only [toNat_ofNat_of_lt (show 0xE0 + n < 256 by omega)]
  rw [if_neg (by omega), if_neg (by omega), if_neg (by omega)]
  by_cases hzero : n = 0
  · have := hlow hzero
    rw [if_pos (by omega), hzero]
    exact ⟨0xA0, 0xBF, rfl, by omega, by omega⟩
  · rw [if_neg (by omega)]
    by_cases hd : n = 0xD
    · have := hsurrogate hd
      rw [if_pos (by omega), hd]
      exact ⟨0x80, 0x9F, rfl, by omega, by omega⟩
    · rw [if_neg (by omega), if_pos (by omega), Nat.add_sub_cancel_left]
      exact ⟨0x80, 0xBF, rfl, by omega, by omega⟩

/-- The range of a second byte after a first byte of four: overlong forms and what is above the last code point are left
out. -/
theorem lead?_four {n m : Nat} (h : n < 5) (hlow : n = 0 → 0x10 ≤ m) (hlast : n = 4 → m < 0x10) (hm : m < 0x40) :
    ∃ low high, lead? (UInt8.ofNat (0xF0 + n)) = some (n, 3, low, high) ∧ low ≤ 0x80 + m ∧ 0x80 + m ≤ high := by
  unfold lead?
  simp only [toNat_ofNat_of_lt (show 0xF0 + n < 256 by omega)]
  rw [if_neg (by omega), if_neg (by omega), if_neg (by omega), if_neg (by omega), if_neg (by omega),
    if_neg (by omega)]
  by_cases hzero : n = 0
  · have := hlow hzero
    rw [if_pos (by omega), hzero]
    exact ⟨0x90, 0xBF, rfl, by omega, by omega⟩
  · rw [if_neg (by omega)]
    by_cases hfour : n = 4
    · have := hlast hfour
      rw [if_neg (by omega), if_pos (by omega), hfour]
      exact ⟨0x80, 0x8F, rfl, by omega, by omega⟩
    · rw [if_pos (by omega), Nat.add_sub_cancel_left]
      exact ⟨0x80, 0xBF, rfl, by omega, by omega⟩

/-! ## 3. Texts -/

theorem isScalar (c : Char) : c.toNat < 0xD800 ∨ (0xDFFF < c.toNat ∧ c.toNat < 0x110000) := c.valid

/-- The bytes of a character are read as that character, whatever follows them. -/
theorem decodeFrom_encodeChar (position : Nat) (c : Char) (r : Bytes) :
    ∃ next, decodeFrom position none (encodeChar c ++ r) = (decodeFrom next none r).map (c :: ·) := by
  have hscalar := isScalar c
  have hc : Char.ofNat c.toNat = c := Char.ofNat_toNat c
  unfold encodeChar
  -- One case for each number of bytes, from one to four.
  by_cases h1 : c.toNat < 0x80
  · rw [if_pos h1, List.singleton_append, decodeFrom_single (lead?_one h1), hc]
    exact ⟨_, rfl⟩
  rw [if_neg h1]
  by_cases h2 : c.toNat < 0x800
  · have hlast : (UInt8.ofNat (0x80 + c.toNat % 64)).toNat = 0x80 + c.toNat % 64 := toNat_ofNat_of_lt (by omega)
    have hvalue : c.toNat / 64 * 64 + (0x80 + c.toNat % 64 - 0x80) = c.toNat := by omega
    rw [if_pos h2, List.cons_append, List.singleton_append, decodeFrom_lead (lead?_two (by omega) (by omega)),
      decodeFrom_last (by omega) (by omega), hlast, hvalue, hc]
    exact ⟨_, rfl⟩
  rw [if_neg h2]
  by_cases h3 : c.toNat < 0x10000
  · obtain ⟨low, high, hlead, hlow, hhigh⟩ := lead?_three (n := c.toNat / 4096) (m := c.toNat / 64 % 64) (by omega)
      (by omega) (by omega) (by omega)
    have hmid : (UInt8.ofNat (0x80 + c.toNat / 64 % 64)).toNat = 0x80 + c.toNat / 64 % 64 :=
      toNat_ofNat_of_lt (by omega)
    have hlast : (UInt8.ofNat (0x80 + c.toNat % 64)).toNat = 0x80 + c.toNat % 64 := toNat_ofNat_of_lt (by omega)
    have hvalue : (c.toNat / 4096 * 64 + (0x80 + c.toNat / 64 % 64 - 0x80)) * 64 + (0x80 + c.toNat % 64 - 0x80) =
        c.toNat := by omega
    rw [if_pos h3, List.cons_append, List.cons_append, List.singleton_append, decodeFrom_lead hlead,
      decodeFrom_middle (by omega) (by omega), decodeFrom_last (by omega) (by omega), hmid, hlast, hvalue, hc]
    exact ⟨_, rfl⟩
  rw [if_neg h3]
  obtain ⟨low, high, hlead, hlow, hhigh⟩ := lead?_four (n := c.toNat / 262144) (m := c.toNat / 4096 % 64) (by omega)
    (by omega) (by omega) (by omega)
  have hsecond : (UInt8.ofNat (0x80 + c.toNat / 4096 % 64)).toNat = 0x80 + c.toNat / 4096 % 64 :=
    toNat_ofNat_of_lt (by omega)
  have hmid : (UInt8.ofNat (0x80 + c.toNat / 64 % 64)).toNat = 0x80 + c.toNat / 64 % 64 := toNat_ofNat_of_lt (by omega)
  have hlast : (UInt8.ofNat (0x80 + c.toNat % 64)).toNat = 0x80 + c.toNat % 64 := toNat_ofNat_of_lt (by omega)
  have hvalue : ((c.toNat / 262144 * 64 + (0x80 + c.toNat / 4096 % 64 - 0x80)) * 64 +
      (0x80 + c.toNat / 64 % 64 - 0x80)) * 64 + (0x80 + c.toNat % 64 - 0x80) = c.toNat := by omega
  rw [List.cons_append, List.cons_append, List.cons_append, List.singleton_append, decodeFrom_lead hlead,
    decodeFrom_middle (by omega) (by omega), decodeFrom_middle (by omega) (by omega),
    decodeFrom_last (by omega) (by omega), hsecond, hmid, hlast, hvalue, hc]
  exact ⟨_, rfl⟩

/-- A text is read back from its bytes. -/
theorem decode_encode (s : List Char) : decode (encode s) = .ok s := by
  have hfrom : ∀ position, decodeFrom position none (encode s) = .ok s := by
    induction s with
    | nil =>
      intro position
      rfl
    | cons c s ih =>
      intro position
      obtain ⟨next, hnext⟩ := decodeFrom_encodeChar position c (encode s)
      show decodeFrom position none (encodeChar c ++ encode s) = _
      rw [hnext, ih]
      rfl
  exact hfrom 0

/-- A string is read back from its bytes. -/
theorem toString?_ofString (s : String) : toString? (ofString s) = some s := by
  unfold toString? ofString
  rw [decode_encode]
  show some (String.ofList s.toList) = some s
  rw [String.ofList_toList]

theorem valid_ofString (s : String) : valid (ofString s) = true := by
  unfold valid ofString
  rw [decode_encode]
  rfl

end ContractShell.Text.Utf8
